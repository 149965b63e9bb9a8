/- digest: The limit on the tool rounds of a turn: the marks that its node leaves, how a turn is read for
   them, and the node that answers the calls past the limit. -/

import LlmGraph.React.Helpers
import LlmGraph.Superstep.Graph
import Mathlib.Algebra.Group.Nat.Defs

set_option autoImplicit false
set_option relaxedAutoImplicit false

namespace LlmGraph.React

open Superstep (State Config GraphError Key NodeId Update Limit Target Schema)

/-- The stop reason of the step that closes a turn cut by `OnLimit.End`. -/
def limitReached : String := "tool_round_limit"

def closingHead : String := "Tool round limit reached ("

def closingTail : String := "): no final reply."

/-- The text of the step that closes a turn cut by `OnLimit.End`. -/
def closing (max : Nat) : String := closingHead ++ toString max ++ closingTail

def refusalHead : String := "Tool round limit reached ("

def refusalTail : String := "): this call was not executed. Reply without calling tools."

/-- The text that the limit node answers a call with. -/
def refusal (max : Nat) : String := refusalHead ++ toString max ++ refusalTail

/-- `parse::<usize>`: decimal digits, with a plus sign or without. -/
def parseUsize (text : List Char) : Option Nat :=
  let digits := match text with
    | '+' :: digits => digits
    | digits => digits
  if digits.isEmpty || !digits.all Char.isDigit then none
  else
    let value := Nat.ofDigitChars 10 digits 0
    if value < 2 ^ 64 then some value else none

/-- The number that a text holds between a head and a tail. -/
def numberBetween (head tail text : String) : Option Nat :=
  ((head.toList.isPrefixOf? text.toList).bind fun rest => tail.toList.isSuffixOf? rest).bind
    parseUsize

/-- Whether a text is the closing text of some limit, as the node writes it. -/
def isClosing (text : String) : Bool :=
  (numberBetween closingHead closingTail text).any fun max => closing max == text

/-- Whether a result is the limit node's answer to a call, whatever limit it names. -/
def isRefusal (result : ToolResult) : Bool :=
  result.isError && match result.content with
    | [.Text text] =>
        (numberBetween refusalHead refusalTail text).any fun max => refusal max == text
    | _ => false

/-- Whether some results are a round that the limit node answered. -/
def refusalsOnly (results : List ToolResult) : Bool := !results.isEmpty && results.all isRefusal

/-- The results items of a turn. -/
def Turn.rounds (turn : Turn) : List (List ToolResult) := turn.items.filterMap TurnItem.results?

/-- Whether a round at index `max` or later holds refusals only. -/
def reachedIn (turn : Turn) (max : Nat) : Bool := (turn.rounds.drop max).any refusalsOnly

/-- Whether a turn is one that `OnLimit.End` cut: its last item is the closing step, and the item
before it holds refusals only. -/
def cutByLimit (turn : Turn) : Bool :=
  match turn.items.reverse with
  | .Step step :: .ToolResults results :: _ =>
      step.stopReason == .Other limitReached && step.model.isNone && step.usage.isNone &&
        (match step.content with
          | [.Text text] => isClosing text
          | _ => false) && refusalsOnly results
  | _ => false

/-- What a reply asking for tools after the last allowed round does. -/
inductive OnLimit where
  | Error
  | Continue (node : NodeId) (flag : Key)
  | End (node : NodeId) (flag : Key)
  deriving DecidableEq, Repr

structure RoundLimit where
  maxRounds : Limit
  onLimit : OnLimit

variable {C : Type} [Messages C]

/-- The author's last turn, while it is not finished. -/
def openTurn (c : C) (author : Author) : Option Turn :=
  (lastTurnByAuthor c author).filter fun turn =>
    match Messages.state C turn with
    | .Finished _ => false
    | _ => true

/-- The rounds answered in the author's open turn. -/
def completedRounds (c : C) (author : Author) : Nat :=
  ((openTurn c author).map fun turn => turn.rounds.length).getD 0

/-- Whether the limit node has answered calls in the author's open turn. -/
def answeredByLimit (c : C) (author : Author) (max : Nat) : Bool :=
  (openTurn c author).any fun turn => reachedIn turn max

def toolLimitReached (llm : NodeId) (max : Nat) : GraphError C :=
  .Other s!"node {llm} reached its limit of {max} tool rounds"

namespace RoundLimit

def node? (limit : RoundLimit) : Option NodeId :=
  match limit.onLimit with
  | .Error => none
  | .Continue node _ | .End node _ => some node

def check (limit : RoundLimit) (schema : Schema C) : Except (GraphError C) Unit :=
  match limit.maxRounds.check schema with
  | .error error => .error error
  | .ok () =>
      match limit.onLimit with
      | .Error => .ok ()
      | .Continue _ flag | .End _ flag =>
          if schema.stateKind flag = some .bool then .ok ()
          else .error (.Other s!"flag key {flag} is not a bool state key")

/-- Where a reply that asks for tools after the last allowed round goes. -/
def reached (limit : RoundLimit) (llm : NodeId) (c : C) (author : Author) (max : Nat) :
    Except (GraphError C) NodeId :=
  match limit.onLimit with
  | .End node _ => .ok node
  | .Continue node _ =>
      if answeredByLimit c author max then .error (toolLimitReached llm max) else .ok node
  | .Error => .error (toolLimitReached llm max)

end RoundLimit

/-- The node that a limit adds: it answers the pending calls, sets the flag and, with `ends`, closes
the turn. -/
structure LimitNode where
  key : Key
  author : Author
  maxRounds : Limit
  flag : Key
  ends : Bool

namespace LimitNode

/-- The answer to a call that is past the limit. -/
def answer (text : String) (call : ToolCall) : ToolResult := ⟨call.id, call.name, [.Text text], true⟩

/-- The step that closes the turn, with `ends`. -/
def closes (C : Type) [Messages C] (node : LimitNode) (max : Nat) :
    Except (GraphError C) (Option Step) :=
  if node.ends then
    match Messages.newText C (closing max) with
    | .error error => .error (.Message error)
    | .ok text =>
        match Messages.newStep C [.Text text] (.Other limitReached) with
        | .error error => .error (.Message error)
        | .ok step => .ok (some step)
  else .ok none

def run (node : LimitNode) (config : Config C) (state : State C) :
    Except (GraphError C) (List (Update C)) :=
  match node.maxRounds.resolve config with
  | .error error => .error error
  | .ok max =>
      match state.conversation node.key with
      | .error error => .error error
      | .ok conversation =>
          match lastTurnByAuthor conversation node.author with
          | none => .ok []
          | some turn =>
              match Messages.newText C (refusal max), pendingCalls state node.key node.author,
                  node.closes C max with
              | .error error, _, _ => .error (.Message error)
              | _, .error error, _ => .error error
              | _, _, .error error => .error error
              | .ok text, .ok calls, .ok step =>
                  .ok (calls.map (fun call => .pushResult node.key turn.id (answer text call)) ++
                    [.set node.flag (.bool true)] ++
                    step.toList.map fun step => .pushStep node.key turn.id step)

end LimitNode

end LlmGraph.React
