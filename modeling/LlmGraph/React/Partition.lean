/- digest: A ReAct loop that builds divides the calls of a reply: each call of a covered tool is owned by
   one tool node. -/

import LlmGraph.Lib.Shares
import LlmGraph.React.Loop

set_option autoImplicit false
set_option relaxedAutoImplicit false

namespace LlmGraph.React

open Lib (share shares_perm share_whole)

namespace ReactLoop

variable {loop : ReactLoop}

private theorem partition_of_check (hcheck : loop.checkPartition = .ok ()) :
    (∀ name ∈ loop.covered, name ∈ loop.tools) ∧
      ∀ name ∈ loop.tools, loop.covered.count name = 1 := by
  rw [checkPartition] at hcheck
  split at hcheck
  · cases hcheck
  · rename_i hdeclared
    constructor
    · intro name hmem
      have hfound := List.find?_eq_none.mp hdeclared name hmem
      simpa using hfound
    · generalize loop.tools = tools at hcheck
      induction tools with
      | nil =>
        intro name hmem
        cases hmem
      | cons head rest ih =>
        intro name hmem
        match hcount : loop.covered.count head with
        | 0 =>
          rw [List.forM_eq_forM, List.forM_cons, hcount] at hcheck
          cases hcheck
        | 1 =>
          rw [List.forM_eq_forM, List.forM_cons, hcount] at hcheck
          rcases List.mem_cons.mp hmem with rfl | hrest
          · exact hcount
          · exact ih hcheck name hrest
        | more + 2 =>
          rw [List.forM_eq_forM, List.forM_cons, hcount] at hcheck
          cases hcheck

/-- No tool is run twice by the tool nodes of a loop that builds. -/
theorem covered_nodup (hcheck : loop.check = .ok ()) : loop.covered.Nodup := by
  rw [check] at hcheck
  split at hcheck
  · cases hcheck
  · obtain ⟨hdeclared, hone⟩ := partition_of_check hcheck
    refine List.nodup_iff_count.mpr fun name => ?_
    by_cases hmem : name ∈ loop.covered
    · exact le_of_eq (hone name (hdeclared name hmem))
    · rw [List.count_eq_zero_of_not_mem hmem]
      exact Nat.zero_le 1

/-- The calls that each tool node owns, in registration order. -/
def shares (loop : ReactLoop) (calls : List ToolCall) : List (List ToolCall) :=
  loop.toolNodes.map fun (_, tools) => share ToolCall.name calls tools

/-- Calls of covered tools are divided among the tool nodes, each to one. -/
theorem shares_flatten (hcheck : loop.check = .ok ()) {calls : List ToolCall}
    (hcovered : ∀ call ∈ calls, call.name ∈ loop.covered) :
    (loop.shares calls).flatten.Perm calls := by
  have hflatten : (loop.toolNodes.map Prod.snd).flatten = loop.covered := by
    rw [covered, List.flatMap_def]
  have hshares : (loop.shares calls).flatten =
      (loop.toolNodes.map Prod.snd).flatMap (share ToolCall.name calls) := by
    rw [shares, List.flatMap_def, List.map_map]
    rfl
  rw [hshares]
  refine (shares_perm ToolCall.name calls (loop.toolNodes.map Prod.snd) ?_).trans ?_
  · rw [hflatten]
    exact covered_nodup hcheck
  · rw [hflatten, share_whole ToolCall.name calls loop.covered hcovered]

end ReactLoop

end LlmGraph.React
