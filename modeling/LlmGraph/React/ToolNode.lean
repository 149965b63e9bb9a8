/- digest: The tool nodes of a ReAct loop: the pending calls that each one owns, how a call is answered,
   and the updates that give back its results. -/

import LlmGraph.React.Helpers

set_option autoImplicit false
set_option relaxedAutoImplicit false

namespace LlmGraph.React

open Superstep (State GraphError Key NodeId Update)

variable {C : Type} [Messages C]

/-- What a hook says of a call. -/
inductive Judgment where
  | Accept
  | Refuse (reason : String)
  deriving DecidableEq, Repr

structure ToolOutput (C : Type) [Messages C] where
  content : List ToolResultBlock
  isError : Bool
  updates : List (Update C)

/-- How one owned call is answered; the errors of a tool and of a hook are their texts. -/
inductive Answer (C : Type) [Messages C] where
  | NotEnabled
  | NotStarted
  | Ran (outcome : Except String (ToolOutput C))
  | Refused (reason : String)
  | HookFailed (error : String)

/-- A call is judged by the hook of its tool, when there is one, then run when it is accepted. -/
def judgeAndRun (hook : Option (Except String Judgment)) (call : Except String (ToolOutput C)) :
    Answer C :=
  match hook with
  | some (.ok (.Refuse reason)) => .Refused reason
  | some (.error error) => .HookFailed error
  | some (.ok .Accept) | none => .Ran call

section Results

variable (C)

/-- One text block, or none when the text is blank. -/
def textBlock (text : String) : List ToolResultBlock :=
  match Messages.newText C text with
  | .ok text => [.Text text]
  | .error _ => []

/-- One text block, of the fallback when the text is blank. -/
def textOr (text fallback : String) : List ToolResultBlock :=
  match Messages.newText C text with
  | .ok text => [.Text text]
  | .error _ => textBlock C fallback

end Results

def errorResult (call : ToolCall) (content : List ToolResultBlock) : ToolResult :=
  ⟨call.id, call.name, content, true⟩

def notEnabledText (name : ToolName) : String :=
  s!"Tool {name} is not enabled for this run: this call was not executed."

/-- The result of one answer with the updates of the tool; a call that was not started has none, and
a hook that failed fails the node. -/
def answerResult (call : ToolCall) : Answer C → Except String (Option (ToolResult × List (Update C)))
  | .NotEnabled => .ok (some (errorResult call (textBlock C (notEnabledText call.name)), []))
  | .NotStarted => .ok none
  | .Ran (.ok output) =>
      .ok (some (⟨call.id, call.name, output.content, output.isError⟩, output.updates))
  | .Ran (.error error) => .ok (some (errorResult call (textOr C error "tool call failed"), []))
  | .Refused reason => .ok (some (errorResult call (textOr C reason "tool call refused"), []))
  | .HookFailed error => .error error

/-- Each call's result, in call order, with the tool's updates; the first hook that failed, in call
order, fails the node. -/
def answered : List (ToolCall × Answer C) → Except String (List (ToolResult × List (Update C)))
  | [] => .ok []
  | (call, answer) :: rest =>
      match answerResult call answer with
      | .error error => .error error
      | .ok result =>
          match answered rest with
          | .error error => .error error
          | .ok results => .ok (result.toList ++ results)

/-- The tools that a tool node runs, by name, and what it reads. -/
structure ToolNode where
  key : Key
  author : Author
  tools : List ToolName
  enabled : Option Key
  deriving DecidableEq, Repr

namespace ToolNode

/-- The names that an enabled key leaves, all of them without a key. -/
def enabledFor (node : ToolNode) (state : State C) : Except (GraphError C) (ToolName → Bool) :=
  match node.enabled with
  | none => .ok fun _ => true
  | some key =>
      match enabledNames state key with
      | .error error => .error error
      | .ok names => .ok names.contains

/-- What the node finds at its first poll: the author's last turn, and the pending calls that the
node owns, each with whether its tool is enabled; nothing without a turn. -/
def begins (node : ToolNode) (state : State C) :
    Except (GraphError C) (Option (Turn × List (ToolCall × Bool))) :=
  match state.conversation node.key with
  | .error error => .error error
  | .ok conversation =>
      match lastTurnByAuthor conversation node.author with
      | none => .ok none
      | some turn =>
          match node.enabledFor state with
          | .error error => .error error
          | .ok isEnabled =>
              match pendingCalls state node.key node.author with
              | .error error => .error error
              | .ok calls =>
                  .ok (some (turn, (calls.filter fun call => node.tools.contains call.name).map
                    fun call => (call, isEnabled call.name)))

/-- The owned calls, none where the node finds nothing. -/
def calls (node : ToolNode) (state : State C) : List (ToolCall × Bool) :=
  match node.begins state with
  | .ok (some (_, calls)) => calls
  | _ => []

/-- Each result, then its tool's updates. -/
def updates (node : ToolNode) (turn : TurnId) (answered : List (ToolResult × List (Update C))) :
    List (Update C) :=
  answered.flatMap fun (result, extra) => .pushResult node.key turn result :: extra

end ToolNode

end LlmGraph.React
