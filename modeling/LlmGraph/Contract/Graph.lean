/- digest: Nodes, edges, the graph builder, and the evaluation of an edge against the targets it
   declared. -/

import LlmGraph.Contract.State
import LlmGraph.Contract.Structure

set_option autoImplicit false
set_option relaxedAutoImplicit false

namespace LlmGraph.Contract

open Lib (Attempt)

/-- An error of host code: what it displays, or the text of the panic its display ends in. -/
inductive Cause where
  | shows (text : String)
  | panics (text : String)
  deriving DecidableEq, Repr

/-- `display_of`: the text of a cause, its panic caught. -/
def Cause.displayOf : Cause → String
  | .shows text => text
  | .panics text => text

/-- The description a node gives of itself.  What its instances do is left to the world. -/
structure Node where
  name : String
  kind : String
  subkind : String
  deriving DecidableEq, Repr

def Node.describe (node : Node) : StructureNode := ⟨node.name, node.kind, node.subkind⟩

variable {F : Type} [Fields F]

/-- An edge: its description and its decision, which is host code called at the moment
`now`. -/
structure Edge (F : Type) [Fields F] where
  name : String
  source : String
  targets : List Target
  evaluate : (now : Nat) → State F → Attempt Cause (List Target)

def Edge.describe (edge : Edge F) : StructureEdge := ⟨edge.name, edge.source, edge.targets⟩

structure EdgeEntry (F : Type) [Fields F] where
  edge : Edge F
  declared : List Target

def EdgeEntry.position (entry : EdgeEntry F) (target : Target) : Option Nat :=
  entry.declared.idxOf? target

/-- A built graph: every node of its structure is there, with one edge whose targets are
declared once each and name nodes of the structure only. -/
structure Graph (F : Type) [Fields F] where
  shape : Structure
  node : String → Option Node
  entryOf : String → Option (EdgeEntry F)
  node_known : ∀ name, (node name).isSome ↔ name ∈ shape.names
  entry_known : ∀ name ∈ shape.names, (entryOf name).isSome
  declared_nodup : ∀ name entry, entryOf name = some entry → entry.declared.Nodup
  declared_known : ∀ name entry, entryOf name = some entry →
    ∀ target, Target.Node target ∈ entry.declared → target ∈ shape.names

structure GraphBuilder (F : Type) [Fields F] where
  version : String
  nodes : List Node
  edges : List (Edge F)
  entries : List String

namespace GraphBuilder

def shape (builder : GraphBuilder F) : Shape where
  version := builder.version
  entries := builder.entries
  nodes := builder.nodes.map Node.describe
  edges := builder.edges.map Edge.describe

def nodeOf (builder : GraphBuilder F) (name : String) : Option Node :=
  builder.nodes.find? (·.name == name)

def entryOf (builder : GraphBuilder F) (name : String) : Option (EdgeEntry F) :=
  (builder.edges.find? (·.source == name)).map fun edge => ⟨edge, edge.targets⟩

private theorem mem_names {builder : GraphBuilder F} {built : Structure}
    (haccepted : Structure.fromShape builder.shape = .ok built) (name : String) :
    name ∈ built.names ↔ ∃ node ∈ builder.nodes, node.name = name := by
  simp only [Structure.names, Structure.fromShape_ok haccepted, Shape.sorted, shape,
    List.mem_map, List.mem_insertionSort, exists_exists_and_eq_and, Node.describe]

private theorem node_known {builder : GraphBuilder F} {built : Structure}
    (haccepted : Structure.fromShape builder.shape = .ok built) (name : String) :
    (builder.nodeOf name).isSome ↔ name ∈ built.names := by
  simp only [nodeOf, List.find?_isSome, beq_iff_eq, mem_names haccepted]

private theorem mem_edges {builder : GraphBuilder F} {built : Structure}
    (haccepted : Structure.fromShape builder.shape = .ok built) (edge : StructureEdge) :
    edge ∈ built.edges ↔ ∃ slot ∈ builder.edges, slot.describe = edge := by
  simp only [Structure.fromShape_ok haccepted, Shape.sorted, shape, List.mem_insertionSort,
    List.mem_map]

private theorem entry_known {builder : GraphBuilder F} {built : Structure}
    (haccepted : Structure.fromShape builder.shape = .ok built) (name : String)
    (hmember : name ∈ built.names) : (builder.entryOf name).isSome := by
  obtain ⟨node, hpresent, rfl⟩ := List.mem_map.mp hmember
  obtain ⟨edge, hlisted, hsource⟩ := built.lawful.edge_of node hpresent
  obtain ⟨slot, hgiven, rfl⟩ := (mem_edges haccepted edge).mp hlisted
  simp only [entryOf, Option.isSome_map, List.find?_isSome, beq_iff_eq]
  exact ⟨slot, hgiven, hsource⟩

private theorem entry_listed {builder : GraphBuilder F} {built : Structure}
    (haccepted : Structure.fromShape builder.shape = .ok built) {name : String}
    {entry : EdgeEntry F} (hfound : builder.entryOf name = some entry) :
    ∃ edge ∈ built.edges, edge.targets = entry.declared := by
  obtain ⟨slot, hlocated, rfl⟩ := Option.map_eq_some_iff.mp hfound
  refine ⟨slot.describe, ?_, rfl⟩
  exact (mem_edges haccepted _).mpr ⟨slot, List.mem_of_find?_eq_some hlocated, rfl⟩

/-- `GraphBuilder::build`: check the description, then look nodes and edges up by name. -/
def build (builder : GraphBuilder F) : Except BuildError (Graph F) :=
  match haccepted : Structure.fromShape builder.shape with
  | .error error => .error error
  | .ok built => .ok {
      shape := built
      node := builder.nodeOf
      entryOf := builder.entryOf
      node_known := node_known haccepted
      entry_known := entry_known haccepted
      declared_nodup := fun name entry hfound => by
        obtain ⟨edge, hlisted, hsame⟩ := entry_listed haccepted hfound
        exact hsame ▸ built.lawful.targets_nodup edge hlisted
      declared_known := fun name entry hfound target hmember => by
        obtain ⟨edge, hlisted, hsame⟩ := entry_listed haccepted hfound
        exact built.lawful.target_known edge hlisted target (hsame ▸ hmember) }

/-- The graph of a description that the rules accept. -/
def built (builder : GraphBuilder F) (haccepted : builder.build.isOk = true) : Graph F :=
  match hresult : builder.build with
  | .ok graph => graph
  | .error _ => absurd haccepted (by rw [hresult]; exact Bool.false_ne_true)

theorem built_entryOf (builder : GraphBuilder F) (haccepted : builder.build.isOk = true) :
    (builder.built haccepted).entryOf = builder.entryOf := by
  unfold built
  split
  · rename_i graph hresult
    unfold build at hresult
    split at hresult
    · cases hresult
    · cases hresult
      rfl
  · rename_i hrefused
    rw [hrefused] at haccepted
    cases haccepted

end GraphBuilder

inductive EdgeError where
  | UnknownNode (node : String)
  | UndeclaredTarget (node : String) (target : Target)
  | EmptyTargets (node : String)
  | EndMixedWithNodes (node : String)
  | Failed (cause : Cause)
  deriving DecidableEq, Repr

/-- A node name as the error texts show it; a legal name has nothing to escape. -/
def quoted (name : String) : String := "\"" ++ name ++ "\""

def EdgeError.display : EdgeError → String
  | .UnknownNode node => "the graph holds no node named " ++ quoted node
  | .UndeclaredTarget node target =>
      "the edge of node " ++ quoted node ++ " gave target " ++ target.asStr ++
        ", which it did not declare"
  | .EmptyTargets node => "the edge of node " ++ quoted node ++ " gave no target"
  | .EndMixedWithNodes node =>
      "the edge of node " ++ quoted node ++ " mixed END with node names"
  | .Failed _ => "the edge failed"

/-- The marking loop of `evaluate_edge` over the returned targets. -/
def EdgeEntry.choose (entry : EdgeEntry F) (node : String) :
    List Bool → List Target → Except EdgeError (List Bool)
  | chosen, [] => .ok chosen
  | chosen, target :: rest =>
      match entry.position target with
      | none => .error (.UndeclaredTarget node target)
      | some position => entry.choose node (chosen.set position true) rest

/-- The checks of `evaluate_edge` on what the decision returned: the declared targets it
picked, in the order of their declaration. -/
def EdgeEntry.settle (entry : EdgeEntry F) (node : String) (returned : List Target) :
    Except EdgeError (List Target) :=
  if returned.isEmpty then .error (.EmptyTargets node)
  else if returned.any Target.isEnd && returned.any (!·.isEnd) then
    .error (.EndMixedWithNodes node)
  else match entry.choose node (List.replicate entry.declared.length false) returned with
    | .error error => .error error
    | .ok chosen => .ok (((entry.declared.zip chosen).filter (·.2)).map (·.1))

/-- `Graph::evaluate_edge`. -/
def Graph.evaluateEdge (graph : Graph F) (now : Nat) (node : String) (state : State F) :
    Attempt EdgeError (List Target) :=
  match graph.entryOf node with
  | none => .error (.UnknownNode node)
  | some entry =>
      match entry.edge.evaluate now state with
      | .error cause => .error (.Failed cause)
      | .panicked text => .panicked text
      | .ok returned =>
          match entry.settle node returned with
          | .error error => .error error
          | .ok targets => .ok targets

private theorem set_marked {declared seen : List Target} {target : Target} {position : Nat}
    (hunique : declared.Nodup) (hfound : declared.idxOf? target = some position) :
    (declared.map fun t => decide (t ∈ seen)).set position true =
      declared.map fun t => decide (t ∈ target :: seen) := by
  obtain ⟨hbound, hhere, -⟩ := List.findIdx?_eq_some_iff_getElem.mp hfound
  apply List.ext_getElem (by simp)
  intro i hleft hright
  simp only [List.length_set, List.length_map] at hleft
  have hhere : declared[position] = target := by simpa using hhere
  simp only [List.getElem_set, List.getElem_map, List.mem_cons]
  split
  · rename_i hsame
    subst hsame
    simp [hhere]
  · rename_i hother
    have hdiffers : declared[i] ≠ target := by
      rw [← hhere]
      exact fun hequal => hother ((List.Nodup.getElem_inj_iff hunique).mp hequal).symm
    simp [hdiffers]

private theorem choose_marked {entry : EdgeEntry F} {node : String} {seen returned : List Target}
    {chosen : List Bool} (hunique : entry.declared.Nodup)
    (hmarked : entry.choose node (entry.declared.map fun t => decide (t ∈ seen)) returned =
      .ok chosen) :
    (∀ target ∈ returned, target ∈ entry.declared) ∧
      chosen = entry.declared.map fun t => decide (t ∈ seen ∨ t ∈ returned) := by
  induction returned generalizing seen with
  | nil =>
      simp only [EdgeEntry.choose, Except.ok.injEq] at hmarked
      exact ⟨by simp, by simp [← hmarked]⟩
  | cons target rest hstep =>
      unfold EdgeEntry.choose at hmarked
      rcases hlocated : entry.position target with _ | position
      · simp only [hlocated, reduceCtorEq] at hmarked
      · simp only [hlocated, set_marked hunique hlocated] at hmarked
        obtain ⟨hdeclared, hsame⟩ := hstep hmarked
        refine ⟨?_, ?_⟩
        · intro other hmember
          rcases List.mem_cons.mp hmember with rfl | hlater
          · by_contra habsent
            rw [EdgeEntry.position, List.idxOf?_eq_none_iff.mpr habsent] at hlocated
            cases hlocated
          · exact hdeclared other hlater
        · rw [hsame]
          apply List.map_congr_left
          intro other _
          simp only [List.mem_cons, decide_eq_decide]
          tauto

private theorem filter_zip_map {α : Type} (items : List α) (keep : α → Bool) :
    ((items.zip (items.map keep)).filter (·.2)).map (·.1) = items.filter keep := by
  induction items with
  | nil => rfl
  | cons item rest hstep =>
      rcases hkept : keep item with _ | _ <;> simp [hkept, hstep]

/-- What an accepted decision gives: the declared targets it returned, each once, in the order
of their declaration, and it returned no other. -/
theorem EdgeEntry.settle_ok {entry : EdgeEntry F} {node : String}
    {returned targets : List Target} (hunique : entry.declared.Nodup)
    (hsettled : entry.settle node returned = .ok targets) :
    targets = entry.declared.filter (· ∈ returned) ∧
      (∀ target ∈ returned, target ∈ entry.declared) ∧ returned ≠ [] ∧
      (.END ∈ returned → ∀ target ∈ returned, target = .END) := by
  unfold EdgeEntry.settle at hsettled
  split at hsettled
  · contradiction
  rename_i hnonempty
  split at hsettled
  · contradiction
  rename_i hunmixed
  have hstart : List.replicate entry.declared.length false =
      entry.declared.map fun t => decide (t ∈ ([] : List Target)) := by
    simp
  rcases hmarked : entry.choose node (List.replicate entry.declared.length false) returned with
    error | chosen
  · simp only [hmarked, reduceCtorEq] at hsettled
  simp only [hmarked, Except.ok.injEq] at hsettled
  rw [hstart] at hmarked
  obtain ⟨hdeclared, rfl⟩ := choose_marked hunique hmarked
  refine ⟨?_, hdeclared, by simpa using hnonempty, ?_⟩
  · rw [← hsettled, filter_zip_map]
    simp
  · intro hends target hmember
    rcases target with name | _
    · exact absurd (by
        simp only [Bool.and_eq_true, List.any_eq_true]
        exact ⟨⟨.END, hends, rfl⟩, ⟨.Node name, hmember, rfl⟩⟩) hunmixed
    · rfl

/-- An accepted evaluation settles what the edge of the node returned. -/
theorem Graph.evaluateEdge_ok {graph : Graph F} {now : Nat} {node : String} {state : State F}
    {targets : List Target} (hevaluated : graph.evaluateEdge now node state = .ok targets) :
    ∃ entry returned, graph.entryOf node = some entry ∧
      entry.edge.evaluate now state = .ok returned ∧ entry.settle node returned = .ok targets := by
  unfold Graph.evaluateEdge at hevaluated
  split at hevaluated
  · contradiction
  rename_i entry hfound
  split at hevaluated <;> try contradiction
  rename_i returned hdecided
  split at hevaluated <;> try contradiction
  rename_i hsettled
  cases hevaluated
  exact ⟨entry, returned, hfound, hdecided, hsettled⟩

/-- Every node an accepted evaluation names is a node of the graph. -/
theorem Graph.target_known {graph : Graph F} {now : Nat} {node : String} {state : State F}
    {targets : List Target} (hevaluated : graph.evaluateEdge now node state = .ok targets)
    {name : String} (hmember : Target.Node name ∈ targets) : name ∈ graph.shape.names := by
  obtain ⟨entry, returned, hfound, -, hsettled⟩ := Graph.evaluateEdge_ok hevaluated
  obtain ⟨rfl, -⟩ := EdgeEntry.settle_ok (graph.declared_nodup _ _ hfound) hsettled
  exact graph.declared_known _ _ hfound name (List.mem_of_mem_filter hmember)

end LlmGraph.Contract
