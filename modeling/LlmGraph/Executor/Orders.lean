/- digest: The order in which a description lists its nodes, edges and entries does not matter: it
   builds the same graph, which resumes the same checkpoints. -/

import LlmGraph.Contract.Legal
import LlmGraph.Executor.Resumable

set_option autoImplicit false
set_option relaxedAutoImplicit false

namespace LlmGraph.Executor

open Contract

variable {F : Type} [Fields F]

/-- Alike descriptions make a structure together, and the same one. -/
theorem fromShape_alike {a b : Shape} (halike : a.Alike b) :
    ((∃ built, Structure.fromShape a = .ok built) ↔ ∃ built, Structure.fromShape b = .ok built) ∧
      ∀ built, Structure.fromShape a = .ok built → Structure.fromShape b = .ok built := by
  have hiff : (∃ built, Structure.fromShape a = .ok built) ↔
      ∃ built, Structure.fromShape b = .ok built := by
    rw [fromShape_iff, fromShape_iff]
    exact ⟨fun hlegal => hlegal.of_alike halike, fun hlegal => hlegal.of_alike halike.symm⟩
  refine ⟨hiff, fun built hbuilt => ?_⟩
  obtain ⟨other, hother⟩ := hiff.mp ⟨built, hbuilt⟩
  have hlegal : a.Legal := (fromShape_iff a).mp ⟨built, hbuilt⟩
  have hsame : other = built := by
    apply Structure.ext
    rw [Structure.fromShape_ok hother, Structure.fromShape_ok hbuilt, halike.sorted_eq hlegal]
  rw [hother, hsame]

/-- Two builders that were given the same version, and the same nodes, edges and entries in whatever
order. -/
structure Reordered (first second : GraphBuilder F) : Prop where
  version : first.version = second.version
  nodes : first.nodes.Perm second.nodes
  edges : first.edges.Perm second.edges
  entries : first.entries.Perm second.entries

namespace Reordered

variable {first second : GraphBuilder F} (hreordered : Reordered first second)
include hreordered

theorem symm : Reordered second first :=
  ⟨hreordered.version.symm, hreordered.nodes.symm, hreordered.edges.symm, hreordered.entries.symm⟩

theorem alike : first.shape.Alike second.shape :=
  ⟨hreordered.version, hreordered.entries, hreordered.nodes.map _, hreordered.edges.map _⟩

/-- They build one graph: its structure, its nodes and its edges are the same. -/
theorem build_eq {graph : Graph F} (hbuilt : first.build = .ok graph) :
    second.build = .ok graph := by
  unfold GraphBuilder.build at hbuilt
  split at hbuilt
  · cases hbuilt
  · rename_i built haccepted
    cases hbuilt
    have hlegal : first.shape.Legal := (fromShape_iff first.shape).mp ⟨built, haccepted⟩
    have hother := (fromShape_alike hreordered.alike).2 built haccepted
    have hnodes : second.nodeOf = first.nodeOf := by
      funext name
      have hdistinct : (first.nodes.map Node.name).Nodup := by
        have hnames := hlegal.nodes_distinct
        rwa [Shape.names, GraphBuilder.shape, List.map_map] at hnames
      exact (Lib.find?_perm hdistinct hreordered.nodes name).symm
    have hedges : second.entryOf = first.entryOf := by
      funext name
      have hdistinct : (first.edges.map Edge.source).Nodup := by
        have hsources := built.lawful.sources_nodup
        rw [Structure.fromShape_ok haccepted] at hsources
        have hsorted := (List.perm_insertionSort (byName StructureEdge.name)
          first.shape.edges).map StructureEdge.source
        have hunsorted := hsorted.nodup_iff.mp hsources
        rwa [GraphBuilder.shape, List.map_map] at hunsorted
      show (second.edges.find? _).map _ = (first.edges.find? _).map _
      rw [Lib.find?_perm hdistinct hreordered.edges name]
    unfold GraphBuilder.build
    split
    · rename_i error hrefused
      rw [hother] at hrefused
      cases hrefused
    · rename_i same hsame
      rw [hother] at hsame
      cases hsame
      simp only [hnodes, hedges]

end Reordered

/-- The order in which a description lists its nodes, edges and entries does not matter.  It is
accepted as the reordered one is, and then gives an equal structure and an equal graph; so a
checkpoint of any run of the one is resumed by the other as by the graph it was taken from, and is
never refused for its structure. -/
theorem build_order_independent {a b : Shape} (halike : a.Alike b)
    {first second : GraphBuilder F} (hreordered : Reordered first second) :
    ((∃ built, Structure.fromShape a = .ok built) ↔ ∃ built, Structure.fromShape b = .ok built) ∧
    (∀ built other, Structure.fromShape a = .ok built → Structure.fromShape b = .ok other →
      other = built) ∧
    ((∃ graph, first.build = .ok graph) ↔ ∃ graph, second.build = .ok graph) ∧
    ∀ graph other, first.build = .ok graph → second.build = .ok other →
      other.shape = graph.shape ∧
      ∀ (out : Outside F) (config : RunConfig) (origin : Origin) (state : State F)
        (control : Control F) (polls : Nat) (checkpoint : Checkpoint),
        Launch out graph config origin state control →
          (control.after out polls).Produced checkpoint →
            checkStructure other checkpoint = .ok () ∧
            (checkpoint.nodes ≠ [] → checkNames other checkpoint.nodes = .ok ()) ∧
            ∀ (out' : Outside F) (limit : ℕ+) (config' : RunConfig),
              resume out' other checkpoint limit config' =
                resume out' graph checkpoint limit config' := by
  refine ⟨(fromShape_alike halike).1, ?_, ⟨?_, ?_⟩, ?_⟩
  · intro built other hbuilt hother
    rw [(fromShape_alike halike).2 built hbuilt, Except.ok.injEq] at hother
    exact hother.symm
  · rintro ⟨graph, hbuilt⟩
    exact ⟨graph, hreordered.build_eq hbuilt⟩
  · rintro ⟨graph, hbuilt⟩
    exact ⟨graph, hreordered.symm.build_eq hbuilt⟩
  · intro graph other hbuilt hother
    rw [hreordered.build_eq hbuilt, Except.ok.injEq] at hother
    subst hother
    refine ⟨rfl, ?_⟩
    intro out config origin state control polls checkpoint hlaunch hproduced
    have hacceptable := hlaunch.acceptable_of_produced hproduced
    refine ⟨hacceptable.shape, fun hsome => ?_, fun _ _ _ => rfl⟩
    exact (checkNames_ok graph _).mpr ⟨hsome, hacceptable.once, hacceptable.known⟩

/-- The small graph with its nodes, edges and entries listed backwards. -/
def pairBackwards : GraphBuilder Tally where
  version := "1"
  nodes := pair.nodes.reverse
  edges := pair.edges.reverse
  entries := pair.entries.reverse

theorem build_order_independent_pair :
    ((∃ graph, pair.build = .ok graph) ↔ ∃ graph, pairBackwards.build = .ok graph) := by
  have hreordered : Reordered pair pairBackwards :=
    ⟨rfl, (List.reverse_perm _).symm, (List.reverse_perm _).symm, (List.reverse_perm _).symm⟩
  exact (build_order_independent hreordered.alike hreordered).2.2.1

end LlmGraph.Executor
