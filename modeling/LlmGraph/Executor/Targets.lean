/- digest: The evaluation of an edge against the targets it declared, for every list its decision
   returns, and what the builder's rules add: no hand-over meets an unknown node. -/

import LlmGraph.Executor.Fold
import LlmGraph.Lib.Keyed

set_option autoImplicit false
set_option relaxedAutoImplicit false

namespace LlmGraph.Executor

open Contract

variable {F : Type} [Fields F]

/-- Every returned target that is declared finds its position. -/
private theorem choose_declared {entry : EdgeEntry F} (node : String) {returned : List Target}
    (hdeclared : ∀ target ∈ returned, target ∈ entry.declared) (chosen : List Bool) :
    ∃ marked, entry.choose node chosen returned = .ok marked := by
  induction returned generalizing chosen with
  | nil => exact ⟨chosen, rfl⟩
  | cons target rest ih =>
    obtain ⟨htarget, hrest⟩ := List.forall_mem_cons.mp hdeclared
    rcases hposition : entry.position target with _ | position
    · exact absurd htarget (List.idxOf?_eq_none_iff.mp hposition)
    · rw [EdgeEntry.choose, hposition]
      exact ih hrest _

/-- A list that is not empty, does not mix `END` with nodes and holds declared targets only is
accepted. -/
theorem settle_of_declared {entry : EdgeEntry F} (node : String) {returned : List Target}
    (hnonempty : returned ≠ [])
    (hunmixed : ¬(.END ∈ returned ∧ ∃ name, Target.Node name ∈ returned))
    (hdeclared : ∀ target ∈ returned, target ∈ entry.declared) :
    ∃ targets, entry.settle node returned = .ok targets := by
  have hnotMixed : ¬(returned.any Target.isEnd && returned.any (!·.isEnd)) = true := by
    rw [Bool.and_eq_true, List.any_eq_true, List.any_eq_true]
    rintro ⟨⟨ending, hending, hisEnd⟩, ⟨other, hother, hnotEnd⟩⟩
    cases ending with
    | Node name => cases hisEnd
    | END =>
      cases other with
      | Node name => exact hunmixed ⟨hending, name, hother⟩
      | END => cases hnotEnd
  obtain ⟨marked, hmarked⟩ := choose_declared node hdeclared
    (List.replicate entry.declared.length false)
  rw [EdgeEntry.settle, if_neg (by simpa using hnonempty), if_neg hnotMixed, hmarked]
  exact ⟨_, rfl⟩

/-- A built graph looks an edge up under its source. -/
theorem entryOf_built {builder : GraphBuilder F} {graph : Graph F}
    (hbuilt : builder.build = .ok graph) {edge : Edge F} (hedge : edge ∈ builder.edges) :
    graph.entryOf edge.source = some ⟨edge, edge.targets⟩ := by
  unfold GraphBuilder.build at hbuilt
  split at hbuilt
  · cases hbuilt
  · rename_i built haccepted
    cases hbuilt
    have hnodup : (builder.edges.map Edge.source).Nodup := by
      have hsorted := built.lawful.sources_nodup
      rw [Structure.fromShape_ok haccepted] at hsorted
      have hperm := (List.perm_insertionSort (byName StructureEdge.name) builder.shape.edges).map
        StructureEdge.source
      have hshape := hperm.nodup_iff.mp hsorted
      rwa [GraphBuilder.shape, List.map_map] at hshape
    show (builder.edges.find? _).map _ = _
    rw [Lib.find?_of_mem hnodup hedge]
    rfl

/-- A run keeps the graph it was launched with. -/
theorem Launch.graph_kept {out : Outside F} {graph : Graph F} {config : RunConfig}
    {origin : Origin} {state : State F} {control : Control F}
    (hlaunch : Launch out graph config origin state control) (polls : Nat) :
    (control.after out polls).sys.run.graph = graph := by
  obtain ⟨s, hopened, hmoves⟩ := hlaunch.moves polls
  refine (hmoves.keeps (fun _ _ _ hchange hfolded => Folded.effect hchange hfolded)
    (?_ : Folded graph state s.run)).graph
  rw [hopened]
  exact Folded.opened graph state config _

/-- Every edge of a graph that the builder accepts, on every list of targets its decision returns:
the evaluation succeeds exactly when the list is not empty, does not mix `END` with nodes and holds
declared targets only; it gives the targets of the list, each once, in the order of their
declaration; and the graph, and every run of it, holds each node among them. -/
theorem evaluates_declared {builder : GraphBuilder F} {graph : Graph F}
    (hbuilt : builder.build = .ok graph) {edge : Edge F} (hedge : edge ∈ builder.edges)
    (now : Nat) (state : State F) {returned : List Target}
    (hreturned : edge.evaluate now state = .ok returned) :
    ((∃ targets, graph.evaluateEdge now edge.source state = .ok targets) ↔
      returned ≠ [] ∧ ¬(.END ∈ returned ∧ ∃ name, Target.Node name ∈ returned) ∧
        ∀ target ∈ returned, target ∈ edge.targets) ∧
    ∀ targets, graph.evaluateEdge now edge.source state = .ok targets →
      (∀ target, target ∈ targets ↔ target ∈ returned) ∧ targets.Nodup ∧
        targets.Sublist edge.targets ∧
        ∀ name, Target.Node name ∈ targets → (graph.node name).isSome = true ∧
          ∀ (out : Outside F) (config : RunConfig) (origin : Origin) (initial : State F)
            (control : Control F) (polls : Nat), Launch out graph config origin initial control →
              ((control.after out polls).sys.run.slot name).isSome = true := by
  have hentry := entryOf_built hbuilt hedge
  have hunique := graph.declared_nodup _ _ hentry
  refine ⟨⟨?_, ?_⟩, ?_⟩
  · rintro ⟨targets, hevaluated⟩
    obtain ⟨entry, given, hfound, hgiven, hsettled⟩ := Graph.evaluateEdge_ok hevaluated
    rw [hentry, Option.some.injEq] at hfound
    subst hfound
    rw [hreturned, Lib.Attempt.ok.injEq] at hgiven
    subst hgiven
    obtain ⟨-, hdeclared, hnonempty, hends⟩ := EdgeEntry.settle_ok hunique hsettled
    refine ⟨hnonempty, ?_, hdeclared⟩
    rintro ⟨hending, name, hname⟩
    cases hends hending _ hname
  · rintro ⟨hnonempty, hunmixed, hdeclared⟩
    obtain ⟨targets, hsettled⟩ : ∃ targets,
        (⟨edge, edge.targets⟩ : EdgeEntry _).settle edge.source returned = .ok targets :=
      settle_of_declared edge.source hnonempty hunmixed hdeclared
    refine ⟨targets, ?_⟩
    simp only [Graph.evaluateEdge, hentry, hreturned, hsettled]
  · intro targets hevaluated
    have hknown (name : String) (hname : Target.Node name ∈ targets) :=
      Graph.target_known hevaluated hname
    obtain ⟨entry, given, hfound, hgiven, hsettled⟩ := Graph.evaluateEdge_ok hevaluated
    rw [hentry, Option.some.injEq] at hfound
    subst hfound
    rw [hreturned, Lib.Attempt.ok.injEq] at hgiven
    subst hgiven
    obtain ⟨rfl, hdeclared, -, -⟩ := EdgeEntry.settle_ok hunique hsettled
    refine ⟨?_, hunique.filter _, List.filter_sublist, ?_⟩
    · intro target
      rw [List.mem_filter, decide_eq_true_eq]
      exact ⟨And.right, fun hmem => ⟨hdeclared target hmem, hmem⟩⟩
    · intro name hname
      refine ⟨(graph.node_known name).mpr (hknown name hname), ?_⟩
      intro out config origin initial control polls hlaunch
      have haccounts := hlaunch.accounts polls
      rw [← hlaunch.graph_kept polls] at hknown
      exact (haccounts.slots name).mp (hknown name hname)

/-- The edge of `a` in the small graph, which returns `n`. -/
theorem evaluates_declared_pair : ∃ graph, pair.build = .ok graph ∧
    ∃ targets, graph.evaluateEdge 0 "a" Tally.zero = .ok targets := by
  rcases hbuilt : pair.build with error | graph
  · have haccepted := pair_accepted
    rw [hbuilt] at haccepted
    cases haccepted
  · refine ⟨graph, rfl, ?_⟩
    have hedge : leadsTo "a" (.Node "n") ∈ pair.edges := List.mem_cons_self
    have hreturned : (leadsTo "a" (.Node "n")).evaluate 0 Tally.zero = .ok [.Node "n"] := rfl
    exact (evaluates_declared hbuilt hedge 0 Tally.zero hreturned).1.mpr
      ⟨by simp, by simp, by simp [leadsTo]⟩

end LlmGraph.Executor
