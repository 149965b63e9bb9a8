/- digest: Names, edge targets and the checked structure of a graph. -/

import Mathlib.Data.List.Sort
import Mathlib.Data.String.Basic

set_option autoImplicit false
set_option relaxedAutoImplicit false

namespace LlmGraph.Contract

/-- Where an edge leads: to a node, or to the end of the run. -/
inductive Target where
  | Node (name : String)
  | END
  deriving DecidableEq, Repr

namespace Target

def endName : String := "END"

def ofText (text : String) : Target :=
  if text = endName then .END else .Node text

def asStr : Target → String
  | .Node name => name
  | .END => endName

def isEnd : Target → Bool
  | .Node _ => false
  | .END => true

/-- The names among a list of targets, in order. -/
def names : List Target → List String :=
  List.filterMap fun
    | .Node name => some name
    | .END => none

@[simp] theorem mem_names (targets : List Target) (name : String) :
    name ∈ names targets ↔ .Node name ∈ targets := by
  simp only [names, List.mem_filterMap]
  constructor
  · rintro ⟨target, hmember, hnamed⟩
    cases target <;> simp_all
  · intro hmember
    exact ⟨.Node name, hmember, rfl⟩

end Target

/-! Legal names (`graph/names.rs`). -/

def nodeNameMax : Nat := 64
def nodeKindMax : Nat := 32
def nodeSubkindMax : Nat := 64
def edgeNameMax : Nat := 64
def versionMax : Nat := 64

def isIdentifier (value : String) (max : Nat) : Bool :=
  value.utf8ByteSize ≤ max &&
    value.toList.head?.any Char.isLower &&
    value.toList.all fun c => c.isLower || c.isDigit || c == '_'

def isNodeName (value : String) : Bool := isIdentifier value nodeNameMax
def isNodeKind (value : String) : Bool := isIdentifier value nodeKindMax
def isNodeSubkind (value : String) : Bool := isIdentifier value nodeSubkindMax
def isEdgeName (value : String) : Bool := isIdentifier value edgeNameMax

def isVersion (value : String) : Bool :=
  1 ≤ value.utf8ByteSize && value.utf8ByteSize ≤ versionMax &&
    value.toList.all fun c => c.isAlphanum || c == '.' || c == '_' || c == '-'

structure StructureNode where
  name : String
  kind : String
  subkind : String
  deriving DecidableEq, Repr

structure StructureEdge where
  name : String
  source : String
  targets : List Target
  deriving DecidableEq, Repr

/-- A graph description before any check. -/
structure Shape where
  version : String
  entries : List String
  nodes : List StructureNode
  edges : List StructureEdge
  deriving DecidableEq, Repr

inductive BuildError where
  | InvalidVersion (version : String)
  | InvalidNodeName (name : String)
  | InvalidNodeKind (node kind : String)
  | InvalidNodeSubkind (node subkind : String)
  | InvalidEdgeName (name : String)
  | DuplicateNodeName (name : String)
  | DuplicateEdgeName (name : String)
  | NoNodes
  | NoEntry
  | DuplicateEntry (name : String)
  | EntryNotANode (name : String)
  | EdgeSourceNotANode (edge sourceNode : String)
  | NodeWithoutEdge (node : String)
  | NodeWithSeveralEdges (node : String)
  | EmptyTargets (edge : String)
  | DuplicateTarget (edge : String) (target : Target)
  | UnknownTarget (edge : String) (target : Target)
  | UnreachableNode (node : String)
  | EndUnreachable (node : String)
  deriving DecidableEq, Repr

/-! The build rules (`graph/check.rs`).  The sets of the source are lists of the names seen. -/

def checkNodesFrom (seen : List String) : List StructureNode → Except BuildError (List String)
  | [] => .ok seen
  | node :: rest =>
      if !isNodeName node.name then .error (.InvalidNodeName node.name)
      else if !isNodeKind node.kind then .error (.InvalidNodeKind node.name node.kind)
      else if !isNodeSubkind node.subkind then
        .error (.InvalidNodeSubkind node.name node.subkind)
      else if node.name ∈ seen then .error (.DuplicateNodeName node.name)
      else checkNodesFrom (node.name :: seen) rest

def checkNodes (shape : Shape) : Except BuildError (List String) :=
  if shape.nodes.isEmpty then .error .NoNodes else checkNodesFrom [] shape.nodes

def checkEntriesFrom (nodeNames seen : List String) : List String → Except BuildError Unit
  | [] => .ok ()
  | entry :: rest =>
      if entry ∈ seen then .error (.DuplicateEntry entry)
      else if entry ∉ nodeNames then .error (.EntryNotANode entry)
      else checkEntriesFrom nodeNames (entry :: seen) rest

def checkEntries (shape : Shape) (nodeNames : List String) : Except BuildError Unit :=
  if shape.entries.isEmpty then .error .NoEntry
  else checkEntriesFrom nodeNames [] shape.entries

def checkTargetsFrom (edge : String) (nodeNames : List String) (seen : List Target) :
    List Target → Except BuildError Unit
  | [] => .ok ()
  | target :: rest =>
      if target ∈ seen then .error (.DuplicateTarget edge target)
      else if !target.isEnd && target.asStr ∉ nodeNames then
        .error (.UnknownTarget edge target)
      else checkTargetsFrom edge nodeNames (target :: seen) rest

def checkTargets (edge : String) (targets : List Target) (nodeNames : List String) :
    Except BuildError Unit :=
  if targets.isEmpty then .error (.EmptyTargets edge)
  else checkTargetsFrom edge nodeNames [] targets

/-- The loop of `check_edges`; it gives the sources it has seen. -/
def checkEdgesFrom (nodeNames edgeNames sources : List String) :
    List StructureEdge → Except BuildError (List String)
  | [] => .ok sources
  | edge :: rest =>
      if !isEdgeName edge.name then .error (.InvalidEdgeName edge.name)
      else if edge.name ∈ edgeNames then .error (.DuplicateEdgeName edge.name)
      else if edge.source ∉ nodeNames then
        .error (.EdgeSourceNotANode edge.name edge.source)
      else if edge.source ∈ sources then .error (.NodeWithSeveralEdges edge.source)
      else match checkTargets edge.name edge.targets nodeNames with
        | .error error => .error error
        | .ok () => checkEdgesFrom nodeNames (edge.name :: edgeNames) (edge.source :: sources) rest

def checkEdges (shape : Shape) (nodeNames : List String) : Except BuildError Unit :=
  match checkEdgesFrom nodeNames [] [] shape.edges with
  | .error error => .error error
  | .ok sources =>
      match shape.nodes.find? (·.name ∉ sources) with
      | some node => .error (.NodeWithoutEdge node.name)
      | none => .ok ()

/-! Reachability (`graph/reach.rs`). -/

/-- The position of a node; names are distinct by the time this is asked. -/
def Shape.position (shape : Shape) (name : String) : Option Nat :=
  shape.nodes.findIdx? (·.name == name)

/-- The arrows of the edges between known nodes, in edge and target order. -/
def Shape.arrows (shape : Shape) : List (Nat × Nat) :=
  shape.edges.flatMap fun edge =>
    match shape.position edge.source with
    | none => []
    | some source => (Target.names edge.targets).filterMap fun name =>
        (shape.position name).map fun target => (source, target)

def Shape.forward (shape : Shape) (current : Nat) : List Nat :=
  shape.arrows.filterMap fun arrow => if arrow.1 = current then some arrow.2 else none

def Shape.backward (shape : Shape) (current : Nat) : List Nat :=
  shape.arrows.filterMap fun arrow => if arrow.2 = current then some arrow.1 else none

def Shape.exits (shape : Shape) : List Nat :=
  shape.edges.filterMap fun edge =>
    if edge.targets.any Target.isEnd then shape.position edge.source else none

/-- Mark the unseen positions of a list and push them on the pending stack. -/
def visit (seen : List Nat) (pending : List Nat) : List Nat → List Nat × List Nat
  | [] => (seen, pending)
  | next :: rest =>
      if next ∈ seen then visit seen pending rest
      else visit (next :: seen) (next :: pending) rest

/-- The depth-first loop of `flood`.  A position is pushed once, so the number of positions
bounds the pops. -/
def floodLoop (adjacency : Nat → List Nat) : (fuel : Nat) → List Nat → List Nat → List Nat
  | 0, seen, _ => seen
  | _ + 1, seen, [] => seen
  | fuel + 1, seen, current :: pending =>
      let (seen, pending) := visit seen pending (adjacency current)
      floodLoop adjacency fuel seen pending

def flood (adjacency : Nat → List Nat) (count : Nat) (seeds : List Nat) : List Nat :=
  let (seen, pending) := visit [] [] seeds
  floodLoop adjacency count seen pending

def checkReach (shape : Shape) : Except BuildError Unit :=
  let reached := flood shape.forward shape.nodes.length (shape.entries.filterMap shape.position)
  let exiting := flood shape.backward shape.nodes.length shape.exits
  match shape.nodes.zipIdx.find? (·.2 ∉ reached) with
  | some (node, _) => .error (.UnreachableNode node.name)
  | none =>
      match shape.nodes.zipIdx.find? (·.2 ∉ exiting) with
      | some (node, _) => .error (.EndUnreachable node.name)
      | none => .ok ()

def validate (shape : Shape) : Except BuildError Unit := do
  if !isVersion shape.version then throw (.InvalidVersion shape.version)
  let nodeNames ← checkNodes shape
  checkEntries shape nodeNames
  checkEdges shape nodeNames
  checkReach shape

/-- The order of the records of a structure. -/
def byName {α : Type} (name : α → String) (a b : α) : Prop := name a ≤ name b

instance {α : Type} (name : α → String) : DecidableRel (byName name) :=
  fun a b => inferInstanceAs (Decidable (name a ≤ name b))

instance {α : Type} (name : α → String) : Std.Total (byName name) :=
  ⟨fun a b => le_total (name a) (name b)⟩

instance {α : Type} (name : α → String) : IsTrans α (byName name) :=
  ⟨fun _ _ _ => le_trans⟩

def Shape.sorted (shape : Shape) : Shape where
  version := shape.version
  entries := shape.entries.insertionSort (byName id)
  nodes := shape.nodes.insertionSort (byName StructureNode.name)
  edges := shape.edges.insertionSort (byName StructureEdge.name)

/-- A structure: a description in its canonical order that passes every build rule. -/
structure Structure extends Shape where
  canonical : toShape.sorted = toShape
  valid : validate toShape = .ok ()

/-- What the accepted rules give to the users of a structure. -/
structure Shape.Lawful (shape : Shape) : Prop where
  names_legal : ∀ node ∈ shape.nodes, isNodeName node.name
  names_nodup : (shape.nodes.map StructureNode.name).Nodup
  entry_known : ∀ entry ∈ shape.entries, entry ∈ shape.nodes.map StructureNode.name
  source_known : ∀ edge ∈ shape.edges, edge.source ∈ shape.nodes.map StructureNode.name
  sources_nodup : (shape.edges.map StructureEdge.source).Nodup
  edge_of : ∀ node ∈ shape.nodes, ∃ edge ∈ shape.edges, edge.source = node.name
  targets_nodup : ∀ edge ∈ shape.edges, edge.targets.Nodup
  target_known : ∀ edge ∈ shape.edges, ∀ name, Target.Node name ∈ edge.targets →
    name ∈ shape.nodes.map StructureNode.name

private theorem checkNodesFrom_ok {seen found : List String} {nodes : List StructureNode}
    (hfresh : seen.Nodup) (haccepted : checkNodesFrom seen nodes = .ok found) :
    found = (nodes.map StructureNode.name).reverse ++ seen ∧ found.Nodup ∧
      ∀ node ∈ nodes, isNodeName node.name := by
  induction nodes generalizing seen with
  | nil =>
      simp only [checkNodesFrom, Except.ok.injEq] at haccepted
      subst haccepted
      exact ⟨by simp, hfresh, by simp⟩
  | cons node rest hstep =>
      unfold checkNodesFrom at haccepted
      repeat' split at haccepted <;> try contradiction
      rename_i hnamed _ _ hunseen
      obtain ⟨hsame, hnodup, hlegal⟩ := hstep (List.nodup_cons.mpr ⟨hunseen, hfresh⟩) haccepted
      refine ⟨?_, hnodup, ?_⟩
      · simp only [hsame, List.map_cons, List.reverse_cons, List.append_assoc, List.cons_append,
          List.nil_append]
      · intro other hmember
        rcases List.mem_cons.mp hmember with rfl | hlater
        · simpa using hnamed
        · exact hlegal other hlater

private theorem checkEntriesFrom_ok {nodeNames seen entries : List String}
    (haccepted : checkEntriesFrom nodeNames seen entries = .ok ()) :
    ∀ entry ∈ entries, entry ∈ nodeNames := by
  induction entries generalizing seen with
  | nil => simp
  | cons entry rest hstep =>
      unfold checkEntriesFrom at haccepted
      repeat' split at haccepted <;> try contradiction
      rename_i hknown
      intro name hmember
      rcases List.mem_cons.mp hmember with rfl | hlater
      · exact not_not.mp hknown
      · exact hstep haccepted name hlater

private theorem checkTargetsFrom_ok {edge : String} {nodeNames : List String}
    {seen targets : List Target} (hfresh : seen.Nodup)
    (haccepted : checkTargetsFrom edge nodeNames seen targets = .ok ()) :
    (targets.reverse ++ seen).Nodup ∧ ∀ name, Target.Node name ∈ targets → name ∈ nodeNames := by
  induction targets generalizing seen with
  | nil => exact ⟨by simpa using hfresh, by simp⟩
  | cons target rest hstep =>
      unfold checkTargetsFrom at haccepted
      repeat' split at haccepted <;> try contradiction
      rename_i hunseen hknown
      obtain ⟨hnodup, hnames⟩ := hstep (List.nodup_cons.mpr ⟨hunseen, hfresh⟩) haccepted
      refine ⟨by simpa using hnodup, ?_⟩
      intro name hmember
      rcases List.mem_cons.mp hmember with rfl | hlater
      · by_contra habsent
        simp [Target.isEnd, Target.asStr, habsent] at hknown
      · exact hnames name hlater

private theorem checkTargets_ok {edge : String} {nodeNames : List String} {targets : List Target}
    (haccepted : checkTargets edge targets nodeNames = .ok ()) :
    targets.Nodup ∧ ∀ name, Target.Node name ∈ targets → name ∈ nodeNames := by
  unfold checkTargets at haccepted
  split at haccepted <;> try contradiction
  obtain ⟨hnodup, hnames⟩ := checkTargetsFrom_ok List.nodup_nil haccepted
  exact ⟨by simpa using hnodup, hnames⟩

private theorem checkEdgesFrom_ok {nodeNames edgeNames sources found : List String}
    {edges : List StructureEdge} (hfresh : sources.Nodup)
    (haccepted : checkEdgesFrom nodeNames edgeNames sources edges = .ok found) :
    found = (edges.map StructureEdge.source).reverse ++ sources ∧ found.Nodup ∧
      ∀ edge ∈ edges, edge.source ∈ nodeNames ∧ edge.targets.Nodup ∧
        ∀ name, Target.Node name ∈ edge.targets → name ∈ nodeNames := by
  induction edges generalizing edgeNames sources with
  | nil =>
      simp only [checkEdgesFrom, Except.ok.injEq] at haccepted
      subst haccepted
      exact ⟨by simp, hfresh, by simp⟩
  | cons edge rest hstep =>
      unfold checkEdgesFrom at haccepted
      repeat' split at haccepted <;> try contradiction
      rename_i hknown hunseen _ htargets
      obtain ⟨hsame, hnodup, heach⟩ := hstep (List.nodup_cons.mpr ⟨hunseen, hfresh⟩) haccepted
      refine ⟨?_, hnodup, ?_⟩
      · simp only [hsame, List.map_cons, List.reverse_cons, List.append_assoc, List.cons_append,
          List.nil_append]
      · intro other hmember
        rcases List.mem_cons.mp hmember with rfl | hlater
        · exact ⟨not_not.mp hknown, checkTargets_ok htargets⟩
        · exact heach other hlater

/-- Every accepted description is lawful. -/
theorem Shape.lawful_of_validate {shape : Shape} (haccepted : validate shape = .ok ()) :
    shape.Lawful := by
  unfold validate at haccepted
  split at haccepted
  · contradiction
  rcases hnodes : checkNodes shape with error | nodeNames
  · simp [hnodes, bind, Except.bind] at haccepted
  rcases hentries : checkEntries shape nodeNames with error | ⟨⟩
  · simp [hnodes, hentries, bind, Except.bind] at haccepted
  rcases hedges : checkEdges shape nodeNames with error | ⟨⟩
  · simp [hnodes, hentries, hedges, bind, Except.bind] at haccepted
  unfold checkNodes at hnodes
  split at hnodes
  · contradiction
  obtain ⟨rfl, hnodup, hlegal⟩ := checkNodesFrom_ok List.nodup_nil hnodes
  unfold checkEntries at hentries
  split at hentries
  · contradiction
  have hknown := checkEntriesFrom_ok hentries
  unfold checkEdges at hedges
  rcases hwalked : checkEdgesFrom ((shape.nodes.map StructureNode.name).reverse ++ []) [] []
    shape.edges with error | sources
  · simp only [hwalked, reduceCtorEq] at hedges
  obtain ⟨rfl, hunique, heach⟩ := checkEdgesFrom_ok List.nodup_nil hwalked
  have hevery : ∀ node ∈ shape.nodes,
      node.name ∈ (shape.edges.map StructureEdge.source).reverse ++ [] := by
    simp only [hwalked] at hedges
    split at hedges
    · contradiction
    rename_i hnone
    simpa using List.find?_eq_none.mp hnone
  exact {
    names_legal := hlegal
    names_nodup := by simpa using hnodup
    entry_known := by simpa using hknown
    source_known := fun edge hmember => by simpa using (heach edge hmember).1
    sources_nodup := by simpa using hunique
    edge_of := fun node hmember => by simpa using hevery node hmember
    targets_nodup := fun edge hmember => (heach edge hmember).2.1
    target_known := fun edge hmember name htarget => by
      simpa using (heach edge hmember).2.2 name htarget }

namespace Structure

@[ext] theorem ext {a b : Structure} (hsame : a.toShape = b.toShape) : a = b := by
  cases a
  cases b
  simp_all

instance : DecidableEq Structure := fun a b =>
  decidable_of_iff (a.toShape = b.toShape) ⟨ext, congrArg toShape⟩

def names (shape : Structure) : List String := shape.nodes.map StructureNode.name

theorem sorted_sorted (shape : Shape) : shape.sorted.sorted = shape.sorted := by
  unfold Shape.sorted
  simp only [Shape.mk.injEq, true_and]
  refine ⟨?_, ?_, ?_⟩ <;> exact (List.pairwise_insertionSort _ _).insertionSort_eq

/-- `Structure::from_shape`: sort the records, then check every rule. -/
def fromShape (shape : Shape) : Except BuildError Structure :=
  match hchecked : validate shape.sorted with
  | .error error => .error error
  | .ok () => .ok ⟨shape.sorted, sorted_sorted shape, hchecked⟩

theorem fromShape_ok {shape : Shape} {built : Structure}
    (haccepted : fromShape shape = .ok built) : built.toShape = shape.sorted := by
  unfold fromShape at haccepted
  split at haccepted <;> cases haccepted
  rfl

theorem lawful (built : Structure) : built.Lawful := Shape.lawful_of_validate built.valid

/-- A structure is accepted again, unchanged. -/
theorem fromShape_toShape (built : Structure) : fromShape built.toShape = .ok built := by
  have hchecked : validate built.toShape.sorted = .ok () := by
    rw [built.canonical]
    exact built.valid
  unfold fromShape
  split
  · rename_i error hrefused
    rw [hchecked] at hrefused
    cases hrefused
  · exact congrArg Except.ok (ext built.canonical)

end Structure

end LlmGraph.Contract
