/- digest: What a turn awaits before and after results are added to it, and where a turn stands in its
   conversation. -/

import Mathlib.Tactic.Common
import LlmGraph.React.Helpers

set_option autoImplicit false
set_option relaxedAutoImplicit false

namespace LlmGraph.React

open Superstep (State GraphError Key Update)

namespace Turn

variable {turn : Turn}

/-- A turn with some results added, one after the other. -/
def withResults (turn : Turn) (results : List ToolResult) : Turn := results.foldl addResult turn

@[simp] theorem addResult_id (turn : Turn) (result : ToolResult) :
    (turn.addResult result).id = turn.id := by
  rw [addResult]
  split <;> rfl

@[simp] theorem addResult_author (turn : Turn) (result : ToolResult) :
    (turn.addResult result).author = turn.author := by
  rw [addResult]
  split <;> rfl

@[simp] theorem withResults_id (turn : Turn) (results : List ToolResult) :
    (turn.withResults results).id = turn.id := by
  induction results generalizing turn with
  | nil => rfl
  | cons result rest ih =>
    have hrest := ih (turn.addResult result)
    rw [withResults, List.foldl_cons]
    rw [withResults] at hrest
    rw [hrest, addResult_id]

@[simp] theorem withResults_author (turn : Turn) (results : List ToolResult) :
    (turn.withResults results).author = turn.author := by
  induction results generalizing turn with
  | nil => rfl
  | cons result rest ih =>
    have hrest := ih (turn.addResult result)
    rw [withResults, List.foldl_cons]
    rw [withResults] at hrest
    rw [hrest, addResult_author]

private theorem items_addResult_results {front : List TurnItem} {before : List ToolResult}
    (hitems : turn.items = front ++ [.ToolResults before]) (result : ToolResult) :
    (turn.addResult result).items = front ++ [.ToolResults (before ++ [result])] := by
  have hlast : turn.items.getLast? = some (.ToolResults before) := by
    rw [hitems]
    simp
  simp only [addResult, hlast]
  rw [hitems]
  simp

private theorem items_addResult_step {front : List TurnItem} {step : Step}
    (hitems : turn.items = front ++ [.Step step]) (result : ToolResult) :
    (turn.addResult result).items = front ++ [.Step step, .ToolResults [result]] := by
  have hlast : turn.items.getLast? = some (.Step step) := by
    rw [hitems]
    simp
  simp only [addResult, hlast]
  rw [hitems]
  simp

/-- Results go on with the tool results item that ends the turn. -/
theorem items_withResults_results {front : List TurnItem} {before : List ToolResult}
    (hitems : turn.items = front ++ [.ToolResults before]) (results : List ToolResult) :
    (turn.withResults results).items = front ++ [.ToolResults (before ++ results)] := by
  induction results generalizing turn before with
  | nil =>
    rw [List.append_nil]
    exact hitems
  | cons result rest ih =>
    have hadded := ih (items_addResult_results hitems result)
    rw [withResults, List.foldl_cons]
    rw [withResults] at hadded
    rw [hadded]
    simp

/-- Results start a tool results item after the step that ends the turn. -/
theorem items_withResults_step {front : List TurnItem} {step : Step}
    (hitems : turn.items = front ++ [.Step step]) {results : List ToolResult}
    (hsome : results ≠ []) :
    (turn.withResults results).items = front ++ [.Step step, .ToolResults results] := by
  cases results with
  | nil => exact absurd rfl hsome
  | cons result rest =>
    have hfirst : (turn.addResult result).items =
        (front ++ [.Step step]) ++ [.ToolResults [result]] := by
      rw [items_addResult_step hitems result]
      simp
    have hadded := items_withResults_results hfirst rest
    rw [withResults] at hadded ⊢
    rw [List.foldl_cons, hadded]
    simp

/-- The last reply of a turn that awaits results, with the results it has so far. -/
inductive Replied (turn : Turn) (reply : Step) : List ToolResult → Prop
  | fresh {front : List TurnItem} (hitems : turn.items = front ++ [.Step reply])
      (hawaiting : reply.stopReason = .AwaitingToolResults) : Replied turn reply []
  | partly {front : List TurnItem} {so : List ToolResult}
      (hitems : turn.items = front ++ [.Step reply, .ToolResults so])
      (hshort : unanswered reply so ≠ []) : Replied turn reply so

/-- A turn that awaits results is one whose last reply still has calls without a result. -/
theorem replied_of_awaits {pending : List ToolCallId}
    (hawaits : turn.awaits = .AwaitingToolResults pending) :
    ∃ reply so, Replied turn reply so ∧ pending = unanswered reply so := by
  rw [awaits] at hawaits
  split at hawaits
  · rename_i reply front hitems
    have hback : turn.items = front.reverse ++ [.Step reply] := by
      rw [← List.reverse_reverse turn.items, hitems, List.reverse_cons]
    split at hawaits
    · rename_i hstop
      cases hawaits
      exact ⟨reply, [], .fresh hback hstop, rfl⟩
    · cases hawaits
  · rename_i so reply front hitems
    have hback : turn.items = front.reverse ++ [.Step reply, .ToolResults so] := by
      rw [← List.reverse_reverse turn.items, hitems, List.reverse_cons, List.reverse_cons,
        List.append_assoc]
      rfl
    split at hawaits
    · cases hawaits
    · rename_i hshort
      cases hawaits
      exact ⟨reply, so, .partly hback (by simpa using hshort), rfl⟩
  · cases hawaits

/-- The calls of a reply that some results leave without an answer. -/
def stillOpen (reply : Step) (so : List ToolResult) : List ToolCall :=
  reply.toolCalls.filter fun call => !(so.map (·.toolCallId)).contains call.id

theorem Replied.calls {reply : Step} {so : List ToolResult} (hreplied : turn.Replied reply so) :
    ∃ earlier, turn.toolCalls = earlier ++ reply.toolCalls := by
  cases hreplied with
  | @fresh front hitems hawaiting =>
    refine ⟨front.flatMap TurnItem.calls, ?_⟩
    simp [toolCalls, hitems, TurnItem.calls]
  | @partly front so hitems hshort =>
    refine ⟨front.flatMap TurnItem.calls, ?_⟩
    simp [toolCalls, hitems, TurnItem.calls]

/-- What a turn awaits are the open calls of its last reply, as long as no two of its calls have one
identity. -/
theorem Replied.pending {reply : Step} {so : List ToolResult} (hreplied : turn.Replied reply so)
    (hunique : (turn.toolCalls.map (·.id)).Nodup) :
    turn.toolCalls.filter (fun call => (unanswered reply so).contains call.id) =
      stillOpen reply so := by
  obtain ⟨earlier, hcalls⟩ := hreplied.calls
  rw [hcalls, List.map_append, List.nodup_append] at hunique
  obtain ⟨-, -, hapart⟩ := hunique
  rw [hcalls, List.filter_append]
  have hearlier : earlier.filter (fun call => (unanswered reply so).contains call.id) = [] := by
    refine List.filter_eq_nil_iff.mpr fun call hcall hcontains => ?_
    have hopen := List.contains_iff_mem.mp hcontains
    rw [unanswered, List.mem_filter] at hopen
    exact hapart call.id (List.mem_map_of_mem hcall) call.id hopen.1 rfl
  rw [hearlier, List.nil_append, stillOpen]
  refine List.filter_congr fun call hcall => ?_
  rw [unanswered, Bool.eq_iff_iff, List.contains_iff_mem, List.mem_filter]
  exact ⟨fun h => h.2, fun h => ⟨List.mem_map_of_mem hcall, h⟩⟩

/-- Once each open call of the last reply has a result, the turn awaits a step. -/
theorem Replied.awaits_step {reply : Step} {so results : List ToolResult}
    (hreplied : turn.Replied reply so) (hsome : results ≠ [])
    (hall : ∀ call ∈ stillOpen reply so, call.id ∈ results.map (·.toolCallId)) :
    (turn.withResults results).awaits = .AwaitingStep := by
  have hnone : unanswered reply (so ++ results) = [] := by
    refine List.filter_eq_nil_iff.mpr fun id hid hopen => ?_
    obtain ⟨call, hcall, rfl⟩ := List.mem_map.mp hid
    simp only [List.map_append, List.contains_eq_mem, List.mem_append, Bool.not_eq_true',
      decide_eq_false_iff_not, not_or] at hopen
    refine hopen.2 (hall call (List.mem_filter.mpr ⟨hcall, ?_⟩))
    simpa using hopen.1
  cases hreplied with
  | @fresh front hitems' hawaiting =>
    have hitems := items_withResults_step hitems' hsome
    rw [List.nil_append] at hnone
    rw [awaits, hitems]
    simp [hnone]
  | @partly front so hitems' hshort =>
    have hback : turn.items = (front ++ [.Step reply]) ++ [.ToolResults so] := by
      rw [hitems']
      simp
    have hitems := items_withResults_results hback results
    rw [awaits, hitems]
    simp [hnone]

end Turn

end LlmGraph.React
