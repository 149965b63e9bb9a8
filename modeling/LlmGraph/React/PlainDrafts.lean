/- digest: Drafts of steps that keep their blocks in a list and refuse what does not follow, and turns
   that take what they await. -/

import LlmGraph.React.Threads

set_option autoImplicit false
set_option relaxedAutoImplicit false

namespace LlmGraph.React

/-- The block under way of a step. -/
inductive OpenBlock where
  | Text (text : String)
  | ToolCall (call : ToolCall)
  deriving DecidableEq, Repr

/-- A step under way: its blocks, the one that is open, and how it has finished. -/
structure PlainDraft where
  blocks : List AssistantBlock
  current : Option OpenBlock
  finished : Option (StopReason × Option Nat)
  deriving DecidableEq, Repr

namespace PlainDraft

def OpenBlock.close : OpenBlock → AssistantBlock
  | .Text text => .Text text
  | .ToolCall call => .ToolCall call

def apply (draft : PlainDraft) (event : StreamEvent) : Except MessageError PlainDraft :=
  match draft.finished, draft.current, event with
  | none, none, .BlockStart index .Text =>
      if index = draft.blocks.length then .ok { draft with current := some (.Text "") }
      else .error "the next block has another index"
  | none, none, .ToolCallStart index id name =>
      if index = draft.blocks.length then .ok { draft with current := some (.ToolCall ⟨id, name, ""⟩) }
      else .error "the next block has another index"
  | none, some (.Text text), .TextDelta index more =>
      if index = draft.blocks.length then .ok { draft with current := some (.Text (text ++ more)) }
      else .error "the open block has another index"
  | none, some (.ToolCall call), .ToolCallArgumentsDelta index fragment =>
      if index = draft.blocks.length then
        .ok { draft with current := some (.ToolCall { call with arguments := call.arguments ++ fragment }) }
      else .error "the open block has another index"
  | none, some opened, .BlockEnd index =>
      if index = draft.blocks.length then
        .ok { draft with blocks := draft.blocks ++ [OpenBlock.close opened], current := none }
      else .error "the open block has another index"
  | none, none, .Finish stopReason usage => .ok { draft with finished := some (stopReason, usage) }
  | _, _, _ => .error "the event does not follow"

def finish (draft : PlainDraft) (model : Option String) : Except MessageError Step :=
  match draft.finished with
  | some (stopReason, usage) => .ok ⟨draft.blocks, stopReason, model, usage⟩
  | none => .error "the step is not finished"

/-- A turn takes a step where it awaits one. -/
def pushStep (turn : Turn) (step : Step) : Except MessageError Turn :=
  if turn.awaits = .AwaitingStep then .ok (turn.addStep step) else .error "the turn awaits no step"

/-- A turn takes the result of a call that it awaits. -/
def pushResult (turn : Turn) (result : ToolResult) : Except MessageError Turn :=
  match turn.awaits with
  | .AwaitingToolResults pending =>
      if pending.contains result.toolCallId then .ok (turn.addResult result)
      else .error "the call is not pending"
  | _ => .error "the turn awaits no results"

/-- A turn takes the results of a round that answer what it awaits, whole. -/
def pushResults (turn : Turn) (results : List ToolResult) : Except MessageError Turn :=
  match turn.awaits with
  | .AwaitingToolResults pending =>
      if (results.map (·.toolCallId)).Perm pending then
        .ok { turn with items := turn.items ++ [.ToolResults results] }
      else .error "the results are not those of the pending calls"
  | _ => .error "the turn awaits no results"

instance : StepDrafts PlainDraft where
  new := ⟨[], none, none⟩
  apply := apply
  finish := finish
  pushStep := pushStep
  pushResult := pushResult
  pushResults := pushResults

end PlainDraft

end LlmGraph.React
