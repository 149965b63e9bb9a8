/- digest: Conversations of turns made of steps and tool results, what a turn awaits, and the library
   that takes or refuses what is pushed. -/

import Mathlib.Data.List.Nodup
import LlmGraph.Superstep.State

set_option autoImplicit false
set_option relaxedAutoImplicit false

namespace LlmGraph.React

abbrev TurnId := String
abbrev InputId := String
abbrev ToolCallId := String
abbrev ToolName := String

/-- An error of the message library, by its text. -/
abbrev MessageError := String

structure Author where
  id : String
  name : String
  deriving DecidableEq, Repr

structure ToolCall where
  id : ToolCallId
  name : ToolName
  arguments : String
  deriving DecidableEq, Repr

inductive ToolResultBlock where
  | Text (text : String)
  | Other (content : String)
  deriving DecidableEq, Repr

structure ToolResult where
  toolCallId : ToolCallId
  name : ToolName
  content : List ToolResultBlock
  isError : Bool
  deriving DecidableEq, Repr

inductive AssistantBlock where
  | Text (text : String)
  | ToolCall (call : ToolCall)
  | Structured (value : String)
  | Thinking (text : String)
  deriving DecidableEq, Repr

inductive StopReason where
  | EndTurn
  | AwaitingToolResults
  | Other (reason : String)
  deriving DecidableEq, Repr

structure Step where
  content : List AssistantBlock
  stopReason : StopReason
  model : Option String
  usage : Option Nat
  deriving DecidableEq, Repr

def Step.toolCalls (step : Step) : List ToolCall :=
  step.content.filterMap fun
    | .ToolCall call => some call
    | _ => none

inductive TurnItem where
  | Step (step : Step)
  | ToolResults (results : List ToolResult)
  deriving DecidableEq, Repr

namespace TurnItem

def calls : TurnItem → List ToolCall
  | Step step => step.toolCalls
  | ToolResults _ => []

def step? : TurnItem → Option React.Step
  | Step step => some step
  | ToolResults _ => none

def results? : TurnItem → Option (List ToolResult)
  | Step _ => none
  | ToolResults results => some results

end TurnItem

structure Turn where
  id : TurnId
  author : Option Author
  items : List TurnItem
  deriving DecidableEq, Repr

inductive TurnState where
  | AwaitingStep
  | AwaitingToolResults (pending : List ToolCallId)
  | Finished (stopReason : StopReason)
  deriving DecidableEq, Repr

namespace Turn

/-- A turn of one step. -/
def new (id : TurnId) (author : Option Author) (step : Step) : Turn := ⟨id, author, [.Step step]⟩

def addStep (turn : Turn) (step : Step) : Turn := { turn with items := turn.items ++ [.Step step] }

/-- A result goes to the tool results item that ends the turn, or starts one. -/
def addResult (turn : Turn) (result : ToolResult) : Turn :=
  match turn.items.getLast? with
  | some (.ToolResults results) =>
      { turn with items := turn.items.dropLast ++ [.ToolResults (results ++ [result])] }
  | _ => { turn with items := turn.items ++ [.ToolResults [result]] }

/-- The tool calls of every step of the turn. -/
def toolCalls (turn : Turn) : List ToolCall := turn.items.flatMap TurnItem.calls

/-- The ids of the calls of a step that some results leave without an answer. -/
def unanswered (step : Step) (results : List ToolResult) : List ToolCallId :=
  (step.toolCalls.map (·.id)).filter fun id => !(results.map (·.toolCallId)).contains id

/-- What the end of a turn awaits: the results of its last step, its next step, or nothing. -/
def awaits (turn : Turn) : TurnState :=
  match turn.items.reverse with
  | .Step step :: _ =>
      if step.stopReason = .AwaitingToolResults then
        .AwaitingToolResults (unanswered step [])
      else .Finished step.stopReason
  | .ToolResults results :: .Step step :: _ =>
      if (unanswered step results).isEmpty then .AwaitingStep
      else .AwaitingToolResults (unanswered step results)
  | _ => .AwaitingStep

end Turn

structure UserInput where
  id : InputId
  content : String
  deriving DecidableEq, Repr

inductive Entry where
  | UserInput (input : UserInput)
  | Turn (turn : Turn)
  deriving DecidableEq, Repr

def Entry.id : Entry → String
  | UserInput input => input.id
  | Turn turn => turn.id

def Entry.toolCalls : Entry → List ToolCall
  | UserInput _ => []
  | Turn turn => turn.toolCalls

/-- The message library: the entries of a conversation, the state of a turn, and what it takes or
refuses. -/
class Messages (C : Type) where
  new : C
  entries : C → List Entry
  state : Turn → TurnState
  pushInput : C → UserInput → Except MessageError C
  pushTurn : C → Turn → Except MessageError C
  pushStep : C → TurnId → Step → Except MessageError C
  pushResult : C → TurnId → ToolResult → Except MessageError C
  newStep : List AssistantBlock → StopReason → Except MessageError Step
  newText : String → Except MessageError String

instance {C : Type} [Messages C] : Superstep.Conversation C where
  UserInput := UserInput
  Turn := Turn
  TurnId := TurnId
  Step := Step
  ToolResult := ToolResult
  MessageError := MessageError
  new := Messages.new
  pushInput := Messages.pushInput
  pushTurn := Messages.pushTurn
  pushStep := Messages.pushStep
  pushResult := Messages.pushResult
  displayTurnId := id
  displayError := id

export Messages (entries)

section Lookup

variable {C : Type} [Messages C]

/-- The tool calls of a conversation. -/
def toolCalls (c : C) : List ToolCall := (entries c).flatMap Entry.toolCalls

/-- The identities of the entries of a conversation. -/
def entryIds (c : C) : List String := (entries c).map Entry.id

/-- `conversation.turn(id)`. -/
def turnOf (c : C) (id : TurnId) : Option Turn :=
  (entries c).findSome? fun
    | .Turn turn => if turn.id = id then some turn else none
    | .UserInput _ => none

end Lookup

/-- What is documented of the library: what is pushed comes last, in the conversation or in the turn
it names; no two entries of a conversation have one identity, and no two tool calls; a step that
awaits tool results calls a tool. -/
structure Messages.Lawful (C : Type) [Messages C] : Prop where
  state : ∀ turn, Messages.state C turn = turn.awaits
  pushInput : ∀ (c next : C) input, Messages.pushInput c input = .ok next →
    entries next = entries c ++ [.UserInput input]
  pushTurn : ∀ (c next : C) turn, Messages.pushTurn c turn = .ok next →
    entries next = entries c ++ [.Turn turn]
  pushStep : ∀ (c next : C) id step, Messages.pushStep c id step = .ok next →
    ∃ front turn back, entries c = front ++ .Turn turn :: back ∧ turn.id = id ∧
      entries next = front ++ .Turn (turn.addStep step) :: back
  pushResult : ∀ (c next : C) id result, Messages.pushResult c id result = .ok next →
    ∃ front turn back, entries c = front ++ .Turn turn :: back ∧ turn.id = id ∧
      entries next = front ++ .Turn (turn.addResult result) :: back
  newStep : ∀ content stopReason step, Messages.newStep C content stopReason = .ok step →
    step = ⟨content, stopReason, none, none⟩
  newText : ∀ text taken, Messages.newText C text = .ok taken → taken = text
  distinct : ∀ c : C, (entryIds c).Nodup
  unique : ∀ c : C, ((toolCalls c).map (·.id)).Nodup
  called : ∀ (c : C) turn step, Entry.Turn turn ∈ entries c → .Step step ∈ turn.items →
    step.stopReason = .AwaitingToolResults → step.toolCalls ≠ []

end LlmGraph.React
