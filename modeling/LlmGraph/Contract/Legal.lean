/- digest: The descriptions of a graph that the build rules accept are exactly the legal ones. -/

import LlmGraph.Contract.Graph
import LlmGraph.Contract.Reach
import LlmGraph.Contract.Wire
import LlmGraph.Lib.Keyed

set_option autoImplicit false
set_option relaxedAutoImplicit false

namespace LlmGraph.Contract

open Relation (ReflTransGen)

namespace Shape

def names (shape : Shape) : List String := shape.nodes.map StructureNode.name

/-- An edge leads from one node to another. -/
def Step (shape : Shape) (a b : String) : Prop :=
  ∃ edge ∈ shape.edges, edge.source = a ∧ Target.Node b ∈ edge.targets

/-- An edge leads from a node to the end. -/
def Exits (shape : Shape) (a : String) : Prop :=
  ∃ edge ∈ shape.edges, edge.source = a ∧ Target.END ∈ edge.targets

/-- A legal description: legal names, distinct nodes and edges, known and distinct entries, one edge
for every node with distinct known targets, every node on a way from an entry to the end. -/
structure Legal (shape : Shape) : Prop where
  version : isVersion shape.version = true
  node_legal : ∀ node ∈ shape.nodes, isNodeName node.name = true ∧ isNodeKind node.kind = true ∧
    isNodeSubkind node.subkind = true
  edge_legal : ∀ edge ∈ shape.edges, isEdgeName edge.name = true
  nodes_some : shape.nodes ≠ []
  nodes_distinct : shape.names.Nodup
  edges_distinct : (shape.edges.map StructureEdge.name).Nodup
  entries_some : shape.entries ≠ []
  entries_known : ∀ entry ∈ shape.entries, entry ∈ shape.names
  entries_distinct : shape.entries.Nodup
  one_edge : ∀ name ∈ shape.names, ∃! edge, edge ∈ shape.edges ∧ edge.source = name
  sources_known : ∀ edge ∈ shape.edges, edge.source ∈ shape.names
  targets_some : ∀ edge ∈ shape.edges, edge.targets ≠ []
  targets_distinct : ∀ edge ∈ shape.edges, edge.targets.Nodup
  targets_known : ∀ edge ∈ shape.edges, ∀ name, Target.Node name ∈ edge.targets →
    name ∈ shape.names
  reached : ∀ name ∈ shape.names, ∃ entry ∈ shape.entries, ReflTransGen shape.Step entry name
  exiting : ∀ name ∈ shape.names, ∃ last, ReflTransGen shape.Step name last ∧ shape.Exits last

end Shape

private theorem checkNodesFrom_iff {seen found : List String} {nodes : List StructureNode} :
    checkNodesFrom seen nodes = .ok found ↔
      found = (nodes.map StructureNode.name).reverse ++ seen ∧
        (∀ node ∈ nodes, isNodeName node.name = true ∧ isNodeKind node.kind = true ∧
          isNodeSubkind node.subkind = true) ∧
        (nodes.map StructureNode.name).Nodup ∧ ∀ node ∈ nodes, node.name ∉ seen := by
  induction nodes generalizing seen with
  | nil =>
    simp only [checkNodesFrom, Except.ok.injEq]
    simpa using eq_comm
  | cons node rest ih =>
    rw [checkNodesFrom]
    by_cases hname : isNodeName node.name = true
    · by_cases hkind : isNodeKind node.kind = true
      · by_cases hsubkind : isNodeSubkind node.subkind = true
        · by_cases hseen : node.name ∈ seen
          · simp [hname, hkind, hsubkind, hseen]
          · simp only [hname, hkind, hsubkind, hseen, Bool.not_true, Bool.false_eq_true, if_false]
            rw [ih]
            simp only [List.map_cons, List.reverse_cons, List.append_assoc, List.cons_append,
              List.nil_append, List.forall_mem_cons, List.nodup_cons, hname, hkind, hsubkind]
            simp only [List.mem_cons, not_or, hseen, List.mem_map, not_exists, not_and]
            constructor
            · rintro ⟨rfl, hlegal, hnodup, hfresh⟩
              exact ⟨rfl, ⟨by simp, hlegal⟩, ⟨fun other hother heq => (hfresh other hother).1 heq,
                hnodup⟩, by simp, fun other hother => (hfresh other hother).2⟩
            · rintro ⟨rfl, ⟨-, hlegal⟩, ⟨hapart, hnodup⟩, -, hfresh⟩
              exact ⟨rfl, hlegal, hnodup, fun other hother =>
                ⟨hapart other hother, hfresh other hother⟩⟩
        · simp [hname, hkind, hsubkind]
      · simp [hname, hkind]
    · simp [hname]

private theorem checkEntriesFrom_iff {nodeNames seen entries : List String} :
    checkEntriesFrom nodeNames seen entries = .ok () ↔
      (∀ entry ∈ entries, entry ∈ nodeNames) ∧ entries.Nodup ∧ ∀ entry ∈ entries, entry ∉ seen := by
  induction entries generalizing seen with
  | nil => simp [checkEntriesFrom]
  | cons entry rest ih =>
    rw [checkEntriesFrom]
    by_cases hseen : entry ∈ seen
    · simp [hseen]
    · by_cases hknown : entry ∈ nodeNames
      · simp only [hseen, hknown, if_false, not_true_eq_false]
        rw [ih]
        simp only [List.forall_mem_cons, hknown, true_and, List.nodup_cons, hseen,
          not_false_eq_true]
        simp only [List.mem_cons, not_or]
        constructor
        · rintro ⟨hall, hnodup, hfresh⟩
          exact ⟨hall, ⟨fun hmem => (hfresh entry hmem).1 rfl, hnodup⟩,
            fun other hother => (hfresh other hother).2⟩
        · rintro ⟨hall, ⟨hnot, hnodup⟩, hfresh⟩
          exact ⟨hall, hnodup, fun other hother =>
            ⟨fun heq => hnot (heq ▸ hother), hfresh other hother⟩⟩
      · simp [hseen, hknown]

private theorem checkTargetsFrom_iff {edge : String} {nodeNames : List String}
    {seen targets : List Target} :
    checkTargetsFrom edge nodeNames seen targets = .ok () ↔
      (∀ name, Target.Node name ∈ targets → name ∈ nodeNames) ∧ targets.Nodup ∧
        ∀ target ∈ targets, target ∉ seen := by
  induction targets generalizing seen with
  | nil => simp [checkTargetsFrom]
  | cons target rest ih =>
    rw [checkTargetsFrom]
    by_cases hseen : target ∈ seen
    · simp [hseen]
    · by_cases hknown : target.isEnd = true ∨ target.asStr ∈ nodeNames
      · have hpass : (!target.isEnd && decide (target.asStr ∉ nodeNames)) = false := by
          rcases hknown with h | h <;> simp [h]
        have hfirst : ∀ name, Target.Node name = target → name ∈ nodeNames := by
          rintro name rfl
          simpa [Target.isEnd, Target.asStr] using hknown
        simp only [hseen, hpass, if_false, Bool.false_eq_true]
        rw [ih]
        simp only [List.forall_mem_cons, List.nodup_cons, hseen, not_false_eq_true, true_and]
        simp only [List.mem_cons, not_or]
        constructor
        · rintro ⟨hall, hnodup, hfresh⟩
          refine ⟨?_, ⟨fun hmem => (hfresh target hmem).1 rfl, hnodup⟩,
            fun other hother => (hfresh other hother).2⟩
          rintro name (hname | hname)
          · exact hfirst name hname
          · exact hall name hname
        · rintro ⟨hall, ⟨hnot, hnodup⟩, hfresh⟩
          exact ⟨fun name hname => hall name (.inr hname), hnodup, fun other hother =>
            ⟨fun heq => hnot (heq ▸ hother), hfresh other hother⟩⟩
      · rw [not_or] at hknown
        have hstop : (!target.isEnd && decide (target.asStr ∉ nodeNames)) = true := by
          simp [hknown.1, hknown.2]
        simp only [hseen, hstop, if_false, if_true, reduceCtorEq, false_iff, not_and]
        intro hall
        cases target with
        | END => simp [Target.isEnd] at hknown
        | Node name => exact absurd (hall name List.mem_cons_self) hknown.2

private theorem checkTargets_iff {edge : String} {nodeNames : List String}
    {targets : List Target} :
    checkTargets edge targets nodeNames = .ok () ↔
      targets ≠ [] ∧ targets.Nodup ∧ ∀ name, Target.Node name ∈ targets → name ∈ nodeNames := by
  rw [checkTargets]
  cases targets with
  | nil => simp
  | cons target rest =>
    have hsome : (target :: rest).isEmpty = false := rfl
    simp only [hsome, Bool.false_eq_true, if_false]
    rw [checkTargetsFrom_iff]
    simp only [ne_eq, reduceCtorEq, not_false_eq_true, true_and, List.not_mem_nil, implies_true,
      and_true]
    exact and_comm

/-- What the loop of `check_edges` asks of one edge, besides what it has seen. -/
private def EdgeLegal (nodeNames : List String) (edge : StructureEdge) : Prop :=
  isEdgeName edge.name = true ∧ edge.source ∈ nodeNames ∧ edge.targets ≠ [] ∧ edge.targets.Nodup ∧
    ∀ name, Target.Node name ∈ edge.targets → name ∈ nodeNames

private theorem checkEdgesFrom_iff {nodeNames edgeNames sources found : List String}
    {edges : List StructureEdge} :
    checkEdgesFrom nodeNames edgeNames sources edges = .ok found ↔
      found = (edges.map StructureEdge.source).reverse ++ sources ∧
        (∀ edge ∈ edges, EdgeLegal nodeNames edge) ∧
        ((edges.map StructureEdge.name).Nodup ∧ ∀ edge ∈ edges, edge.name ∉ edgeNames) ∧
        (edges.map StructureEdge.source).Nodup ∧ ∀ edge ∈ edges, edge.source ∉ sources := by
  induction edges generalizing edgeNames sources with
  | nil =>
    simp only [checkEdgesFrom, Except.ok.injEq]
    simpa using eq_comm
  | cons edge rest ih =>
    rw [checkEdgesFrom]
    by_cases hlegal : EdgeLegal nodeNames edge
    · obtain ⟨hname, hsource, htargets⟩ := hlegal
      by_cases hseen : edge.name ∈ edgeNames
      · simp [hname, hseen]
      · by_cases htwice : edge.source ∈ sources
        · simp [hname, hseen, hsource, htwice]
        · have hchecked : checkTargets edge.name edge.targets nodeNames = .ok () :=
            checkTargets_iff.mpr htargets
          simp only [hname, hseen, hsource, htwice, hchecked, Bool.not_true, Bool.false_eq_true,
            if_false, not_true_eq_false]
          rw [ih]
          have hfirst : EdgeLegal nodeNames edge := ⟨hname, hsource, htargets⟩
          simp only [List.map_cons, List.reverse_cons, List.append_assoc, List.cons_append,
            List.nil_append, List.forall_mem_cons, List.nodup_cons, hfirst, true_and]
          simp only [List.mem_cons, not_or, hseen, htwice, List.mem_map, not_exists, not_and,
            not_false_eq_true, true_and]
          constructor
          · rintro ⟨rfl, hall, ⟨hnames, hfresh⟩, hsources, hnew⟩
            exact ⟨rfl, hall, ⟨⟨fun other hother heq => (hfresh other hother).1 heq, hnames⟩,
              fun other hother => (hfresh other hother).2⟩,
              ⟨fun other hother heq => (hnew other hother).1 heq, hsources⟩,
              fun other hother => (hnew other hother).2⟩
          · rintro ⟨rfl, hall, ⟨⟨hapart, hnames⟩, hfresh⟩, ⟨hdistinct, hsources⟩, hnew⟩
            exact ⟨rfl, hall, ⟨hnames, fun other hother =>
              ⟨hapart other hother, hfresh other hother⟩⟩, hsources, fun other hother =>
                ⟨hdistinct other hother, hnew other hother⟩⟩
    · have hrefused : ¬∀ other ∈ edge :: rest, EdgeLegal nodeNames other :=
        fun hall => hlegal (hall edge List.mem_cons_self)
      refine iff_of_false (fun haccepted => ?_) (fun hright => hrefused hright.2.1)
      repeat' split at haccepted <;> try contradiction
      rename_i hname hseen hsource htwice _ hchecked
      exact hlegal ⟨by simpa using hname, not_not.mp hsource, checkTargets_iff.mp hchecked⟩

/-! Positions stand for names. -/

section Positions

variable {shape : Shape}

private theorem position_iff (hdistinct : shape.names.Nodup) {name : String} {index : Nat} :
    shape.position name = some index ↔ shape.names[index]? = some name := by
  have hposition : shape.position name = shape.names.idxOf? name := by
    rw [Shape.position, Shape.names, List.idxOf?, List.findIdx?_map]
    rfl
  rw [hposition]
  constructor
  · intro hfound
    obtain ⟨hindex, heq, -⟩ := List.findIdx?_eq_some_iff_getElem.mp hfound
    rw [List.getElem?_eq_getElem hindex]
    simpa using heq
  · intro hthere
    obtain ⟨hindex, heq⟩ := List.getElem?_eq_some_iff.mp hthere
    rw [List.idxOf?, List.findIdx?_eq_some_iff_getElem]
    refine ⟨hindex, by simp [heq], ?_⟩
    intro earlier hearlier
    simp only [beq_iff_eq]
    intro hsame
    rw [← heq] at hsame
    have hequal := hdistinct.getElem_inj_iff.mp hsame
    omega

private theorem position_some (hdistinct : shape.names.Nodup) {name : String}
    (hknown : name ∈ shape.names) : ∃ index, shape.position name = some index := by
  obtain ⟨index, hindex, heq⟩ := List.mem_iff_getElem.mp hknown
  refine ⟨index, (position_iff hdistinct).mpr ?_⟩
  rw [List.getElem?_eq_getElem hindex, heq]

private theorem position_lt (hdistinct : shape.names.Nodup) {name : String} {index : Nat}
    (hposition : shape.position name = some index) : index < shape.nodes.length := by
  obtain ⟨hindex, -⟩ := List.getElem?_eq_some_iff.mp ((position_iff hdistinct).mp hposition)
  simpa [Shape.names] using hindex

private theorem position_inj (hdistinct : shape.names.Nodup) {name other : String} {index : Nat}
    (hname : shape.position name = some index) (hother : shape.position other = some index) :
    name = other := by
  have hfound := (position_iff hdistinct).mp hname
  rw [(position_iff hdistinct).mp hother] at hfound
  exact (Option.some.inj hfound).symm

private theorem mem_arrows {a b : Nat} :
    (a, b) ∈ shape.arrows ↔ ∃ edge ∈ shape.edges, shape.position edge.source = some a ∧
      ∃ name, Target.Node name ∈ edge.targets ∧ shape.position name = some b := by
  rw [Shape.arrows, List.mem_flatMap]
  constructor
  · rintro ⟨edge, hedge, hmem⟩
    cases hsource : shape.position edge.source with
    | none => simp [hsource] at hmem
    | some source =>
      simp only [hsource, List.mem_filterMap, Target.mem_names, Option.map_eq_some_iff,
        Prod.mk.injEq] at hmem
      obtain ⟨name, hname, index, hindex, rfl, rfl⟩ := hmem
      exact ⟨edge, hedge, hsource, name, hname, hindex⟩
  · rintro ⟨edge, hedge, hsource, name, hname, hindex⟩
    refine ⟨edge, hedge, ?_⟩
    simp only [hsource, List.mem_filterMap, Target.mem_names, Option.map_eq_some_iff,
      Prod.mk.injEq, true_and]
    exact ⟨name, hname, b, hindex, rfl⟩

private theorem leads_forward {a b : Nat} : Leads shape.forward a b ↔ (a, b) ∈ shape.arrows := by
  simp [Leads, Shape.forward]

private theorem leads_backward {a b : Nat} : Leads shape.backward a b ↔ (b, a) ∈ shape.arrows := by
  simp [Leads, Shape.backward]

/-- A way between names is a way between their positions. -/
private theorem way_of_steps (hdistinct : shape.names.Nodup)
    (hknown : ∀ edge ∈ shape.edges, ∀ name, Target.Node name ∈ edge.targets → name ∈ shape.names)
    {a b : String} {first : Nat} (hfirst : shape.position a = some first)
    (hway : ReflTransGen shape.Step a b) :
    ∃ last, shape.position b = some last ∧ ReflTransGen (Leads shape.forward) first last := by
  induction hway with
  | refl => exact ⟨first, hfirst, .refl⟩
  | @tail middle next _ hstep ih =>
    obtain ⟨at', hmiddle, hpath⟩ := ih
    obtain ⟨edge, hedge, rfl, htarget⟩ := hstep
    obtain ⟨last, hlast⟩ := position_some hdistinct (hknown edge hedge next htarget)
    refine ⟨last, hlast, hpath.tail ?_⟩
    exact leads_forward.mpr (mem_arrows.mpr ⟨edge, hedge, hmiddle, next, htarget, hlast⟩)

private theorem steps_of_way (hdistinct : shape.names.Nodup) {a : String} {first last : Nat}
    (hfirst : shape.position a = some first)
    (hway : ReflTransGen (Leads shape.forward) first last) :
    ∃ b, shape.position b = some last ∧ ReflTransGen shape.Step a b := by
  induction hway with
  | refl => exact ⟨a, hfirst, .refl⟩
  | tail _ hleads ih =>
    obtain ⟨middle, hmiddle, hsteps⟩ := ih
    obtain ⟨edge, hedge, hsource, next, htarget, hnext⟩ := mem_arrows.mp (leads_forward.mp hleads)
    have hsame := position_inj hdistinct hsource hmiddle
    exact ⟨next, hnext, hsteps.tail ⟨edge, hedge, hsame, htarget⟩⟩

private theorem arrows_lt (hdistinct : shape.names.Nodup) {a b : Nat}
    (harrow : (a, b) ∈ shape.arrows) : a < shape.nodes.length ∧ b < shape.nodes.length := by
  obtain ⟨edge, -, hsource, name, -, hindex⟩ := mem_arrows.mp harrow
  exact ⟨position_lt hdistinct hsource, position_lt hdistinct hindex⟩

private theorem mem_exits {index : Nat} :
    index ∈ shape.exits ↔ ∃ edge ∈ shape.edges, Target.END ∈ edge.targets ∧
      shape.position edge.source = some index := by
  rw [Shape.exits, List.mem_filterMap]
  have hend : ∀ targets : List Target, targets.any Target.isEnd = true ↔ Target.END ∈ targets := by
    intro targets
    rw [List.any_eq_true]
    constructor
    · rintro ⟨target, hmem, hisEnd⟩
      cases target with
      | Node name => cases hisEnd
      | END => exact hmem
    · exact fun hmem => ⟨.END, hmem, rfl⟩
  constructor
  · rintro ⟨edge, hedge, hfound⟩
    by_cases hany : edge.targets.any Target.isEnd = true
    · rw [if_pos hany] at hfound
      exact ⟨edge, hedge, (hend _).mp hany, hfound⟩
    · rw [if_neg hany] at hfound
      cases hfound
  · rintro ⟨edge, hedge, hany, hfound⟩
    exact ⟨edge, hedge, by rw [if_pos ((hend _).mpr hany), hfound]⟩

/-- The forward flood marks the positions of the nodes that can be reached from an entry. -/
theorem mem_reached (hdistinct : shape.names.Nodup)
    (htargets : ∀ edge ∈ shape.edges, ∀ name, Target.Node name ∈ edge.targets →
      name ∈ shape.names)
    {name : String} {index : Nat} (hposition : shape.position name = some index) :
    index ∈ flood shape.forward shape.nodes.length (shape.entries.filterMap shape.position) ↔
      ∃ entry ∈ shape.entries, entry ∈ shape.names ∧ ReflTransGen shape.Step entry name := by
  rw [mem_flood]
  · constructor
    · rintro ⟨seed, hseed, hway⟩
      obtain ⟨entry, hentry, hseedAt⟩ := List.mem_filterMap.mp hseed
      obtain ⟨found, hfound, hsteps⟩ := steps_of_way hdistinct hseedAt hway
      have hsame := position_inj hdistinct hposition hfound
      subst hsame
      exact ⟨entry, hentry, List.mem_of_getElem? ((position_iff hdistinct).mp hseedAt), hsteps⟩
    · rintro ⟨entry, hentry, hknown, hsteps⟩
      obtain ⟨seed, hseed⟩ := position_some hdistinct hknown
      obtain ⟨last, hlast, hway⟩ := way_of_steps hdistinct htargets hseed hsteps
      rw [hposition] at hlast
      cases hlast
      exact ⟨seed, List.mem_filterMap.mpr ⟨entry, hentry, hseed⟩, hway⟩
  · intro x _ y hy
    exact (arrows_lt hdistinct (leads_forward.mp hy)).2
  · intro seed hseed
    obtain ⟨entry, -, hseedAt⟩ := List.mem_filterMap.mp hseed
    exact position_lt hdistinct hseedAt

/-- The backward flood marks the positions of the nodes from which the end can be reached. -/
theorem mem_exiting (hdistinct : shape.names.Nodup)
    (htargets : ∀ edge ∈ shape.edges, ∀ name, Target.Node name ∈ edge.targets →
      name ∈ shape.names)
    {name : String} {index : Nat} (hposition : shape.position name = some index) :
    index ∈ flood shape.backward shape.nodes.length shape.exits ↔
      ∃ last, ReflTransGen shape.Step name last ∧ shape.Exits last := by
  have hswap : ∀ a b, ReflTransGen (Leads shape.backward) a b ↔
      ReflTransGen (Leads shape.forward) b a := by
    intro a b
    have hflip : Leads shape.backward = Function.swap (Leads shape.forward) := by
      funext x y
      exact propext (leads_backward.trans leads_forward.symm)
    rw [hflip, Relation.reflTransGen_swap]
  rw [mem_flood]
  · constructor
    · rintro ⟨seed, hseed, hway⟩
      obtain ⟨edge, hedge, hends, hseedAt⟩ := mem_exits.mp hseed
      obtain ⟨found, hfound, hsteps⟩ := steps_of_way hdistinct hposition ((hswap _ _).mp hway)
      have hsame := position_inj hdistinct hseedAt hfound
      exact ⟨found, hsteps, edge, hedge, hsame, hends⟩
    · rintro ⟨last, hsteps, edge, hedge, rfl, hends⟩
      obtain ⟨seed, hseed, hway⟩ := way_of_steps hdistinct htargets hposition hsteps
      exact ⟨seed, mem_exits.mpr ⟨edge, hedge, hends, hseed⟩, (hswap _ _).mpr hway⟩
  · intro x _ y hy
    exact (arrows_lt hdistinct (leads_backward.mp hy)).1
  · intro seed hseed
    obtain ⟨edge, -, -, hseedAt⟩ := mem_exits.mp hseed
    exact position_lt hdistinct hseedAt

/-- No node of a search is missed by a set of positions exactly when it holds them all. -/
private theorem all_marked (hdistinct : shape.names.Nodup) (marked : List Nat) :
    shape.nodes.zipIdx.find? (·.2 ∉ marked) = none ↔
      ∀ name ∈ shape.names, ∀ index, shape.position name = some index → index ∈ marked := by
  rw [List.find?_eq_none]
  constructor
  · intro hall name _ index hposition
    obtain ⟨hindex, heq⟩ := List.getElem?_eq_some_iff.mp ((position_iff hdistinct).mp hposition)
    have hlength : index < shape.nodes.length := position_lt hdistinct hposition
    have hmarked := hall (shape.nodes[index], index)
      (List.mem_zipIdx_iff_getElem?.mpr (List.getElem?_eq_getElem hlength))
    simpa using hmarked
  · rintro hall ⟨node, index⟩ hmem
    have hnode := List.mem_zipIdx_iff_getElem?.mp hmem
    have hname : shape.names[index]? = some node.name := by
      rw [Shape.names, List.getElem?_map, hnode]
      rfl
    have hmarked := hall node.name (List.mem_of_getElem? hname) index
      ((position_iff hdistinct).mpr hname)
    simpa using hmarked

private theorem checkReach_iff (hdistinct : shape.names.Nodup)
    (hentries : ∀ entry ∈ shape.entries, entry ∈ shape.names)
    (htargets : ∀ edge ∈ shape.edges, ∀ name, Target.Node name ∈ edge.targets →
      name ∈ shape.names) :
    checkReach shape = .ok () ↔
      (∀ name ∈ shape.names, ∃ entry ∈ shape.entries, ReflTransGen shape.Step entry name) ∧
        ∀ name ∈ shape.names, ∃ last, ReflTransGen shape.Step name last ∧ shape.Exits last := by
  have hreached : shape.nodes.zipIdx.find? (·.2 ∉ flood shape.forward shape.nodes.length
      (shape.entries.filterMap shape.position)) = none ↔
      ∀ name ∈ shape.names, ∃ entry ∈ shape.entries, ReflTransGen shape.Step entry name := by
    rw [all_marked hdistinct]
    refine forall₂_congr fun name hname => ?_
    constructor
    · intro hall
      obtain ⟨index, hposition⟩ := position_some hdistinct hname
      obtain ⟨entry, hentry, -, hsteps⟩ :=
        (mem_reached hdistinct htargets hposition).mp (hall index hposition)
      exact ⟨entry, hentry, hsteps⟩
    · rintro ⟨entry, hentry, hsteps⟩ index hposition
      exact (mem_reached hdistinct htargets hposition).mpr
        ⟨entry, hentry, hentries entry hentry, hsteps⟩
  have hexiting : shape.nodes.zipIdx.find? (·.2 ∉ flood shape.backward shape.nodes.length
      shape.exits) = none ↔
      ∀ name ∈ shape.names, ∃ last, ReflTransGen shape.Step name last ∧ shape.Exits last := by
    rw [all_marked hdistinct]
    refine forall₂_congr fun name hname => ?_
    constructor
    · intro hall
      obtain ⟨index, hposition⟩ := position_some hdistinct hname
      exact (mem_exiting hdistinct htargets hposition).mp (hall index hposition)
    · intro hway index hposition
      exact (mem_exiting hdistinct htargets hposition).mpr hway
  rw [← hreached, ← hexiting, checkReach]
  split
  · rename_i node index hmissed
    rw [hmissed]
    simp
  · rename_i hnone
    rw [hnone]
    split
    · rename_i node index hmissed
      rw [hmissed]
      simp
    · rename_i hnone'
      rw [hnone']
      simp

end Positions

private theorem checkNodes_iff {shape : Shape} {found : List String} :
    checkNodes shape = .ok found ↔
      shape.nodes ≠ [] ∧ found = shape.names.reverse ∧
        (∀ node ∈ shape.nodes, isNodeName node.name = true ∧ isNodeKind node.kind = true ∧
          isNodeSubkind node.subkind = true) ∧ shape.names.Nodup := by
  rw [checkNodes]
  cases hnodes : shape.nodes with
  | nil => simp
  | cons node rest =>
    have hsome : (node :: rest).isEmpty = false := rfl
    rw [hsome, if_neg (by simp), checkNodesFrom_iff, Shape.names, hnodes]
    simp

private theorem checkEntries_iff {shape : Shape} {nodeNames : List String} :
    checkEntries shape nodeNames = .ok () ↔
      shape.entries ≠ [] ∧ (∀ entry ∈ shape.entries, entry ∈ nodeNames) ∧ shape.entries.Nodup := by
  rw [checkEntries]
  cases hentries : shape.entries with
  | nil => simp
  | cons entry rest =>
    have hsome : (entry :: rest).isEmpty = false := rfl
    rw [hsome, if_neg (by simp), checkEntriesFrom_iff]
    simp

private theorem checkEdges_iff {shape : Shape} {nodeNames : List String} :
    checkEdges shape nodeNames = .ok () ↔
      (∀ edge ∈ shape.edges, EdgeLegal nodeNames edge) ∧
        (shape.edges.map StructureEdge.name).Nodup ∧
        (shape.edges.map StructureEdge.source).Nodup ∧
        ∀ name ∈ shape.names, ∃ edge ∈ shape.edges, edge.source = name := by
  rw [checkEdges]
  cases hwalked : checkEdgesFrom nodeNames [] [] shape.edges with
  | error error =>
    have hrefused : ¬∃ found, checkEdgesFrom nodeNames [] [] shape.edges = .ok found := by
      rw [hwalked]
      rintro ⟨found, hfound⟩
      cases hfound
    refine iff_of_false (by simp) ?_
    rintro ⟨hlegal, hnames, hsources, -⟩
    exact hrefused ⟨_, checkEdgesFrom_iff.mpr ⟨rfl, hlegal, ⟨hnames, by simp⟩, hsources, by simp⟩⟩
  | ok found =>
    obtain ⟨rfl, hlegal, ⟨hnames, -⟩, hsources, -⟩ := checkEdgesFrom_iff.mp hwalked
    have hevery : shape.nodes.find?
        (·.name ∉ (shape.edges.map StructureEdge.source).reverse ++ []) = none ↔
          ∀ name ∈ shape.names, ∃ edge ∈ shape.edges, edge.source = name := by
      rw [List.find?_eq_none, Shape.names, List.forall_mem_map]
      simp
    dsimp only
    constructor
    · intro haccepted
      split at haccepted
      · cases haccepted
      · rename_i hnone
        exact ⟨hlegal, hnames, hsources, hevery.mp hnone⟩
    · rintro ⟨-, -, -, hall⟩
      rw [hevery.mpr hall]

/-- The edges of a legal description have distinct sources. -/
private theorem sources_distinct {edges : List StructureEdge} {nodeNames : List String}
    (hdistinct : (edges.map StructureEdge.name).Nodup)
    (hone : ∀ name ∈ nodeNames, ∃! edge, edge ∈ edges ∧ edge.source = name)
    (hknown : ∀ edge ∈ edges, edge.source ∈ nodeNames) :
    (edges.map StructureEdge.source).Nodup := by
  refine hdistinct.of_map.map_on fun edge hedge other hother hsame => ?_
  obtain ⟨only, -, hunique⟩ := hone edge.source (hknown edge hedge)
  rw [hunique edge ⟨hedge, rfl⟩, hunique other ⟨hother, hsame.symm⟩]

private theorem one_edge {edges : List StructureEdge} {name : String}
    (hdistinct : (edges.map StructureEdge.source).Nodup)
    (hsome : ∃ edge ∈ edges, edge.source = name) :
    ∃! edge, edge ∈ edges ∧ edge.source = name := by
  obtain ⟨edge, hedge, hsource⟩ := hsome
  refine ⟨edge, ⟨hedge, hsource⟩, ?_⟩
  rintro other ⟨hother, hsame⟩
  exact List.inj_on_of_nodup_map hdistinct hother hedge (hsame.trans hsource.symm)

/-- The build rules, in their order. -/
private theorem validate_split {shape : Shape} :
    validate shape = .ok () ↔
      isVersion shape.version = true ∧ ∃ nodeNames, checkNodes shape = .ok nodeNames ∧
        checkEntries shape nodeNames = .ok () ∧ checkEdges shape nodeNames = .ok () ∧
        checkReach shape = .ok () := by
  rw [validate]
  cases hversion : isVersion shape.version with
  | false => simp [bind, Except.bind, throw, throwThe, MonadExceptOf.throw]
  | true =>
    cases hnodes : checkNodes shape with
    | error error => simp [bind, Except.bind]
    | ok nodeNames =>
      cases hentries : checkEntries shape nodeNames with
      | error error => simp [bind, Except.bind, hentries]
      | ok =>
        cases hedges : checkEdges shape nodeNames with
        | error error => simp [bind, Except.bind, hentries, hedges]
        | ok => simp [bind, Except.bind, hentries, hedges]

/-- The build rules accept exactly the legal descriptions. -/
theorem validate_iff {shape : Shape} : validate shape = .ok () ↔ shape.Legal := by
  rw [validate_split]
  constructor
  · rintro ⟨hversion, nodeNames, hnodes, hentries, hedges, hreach⟩
    obtain ⟨hsome, rfl, hlegal, hdistinct⟩ := checkNodes_iff.mp hnodes
    obtain ⟨hentry, hknown, hentriesDistinct⟩ := checkEntries_iff.mp hentries
    obtain ⟨hedge, hedgesDistinct, hsources, hevery⟩ := checkEdges_iff.mp hedges
    simp only [EdgeLegal, List.mem_reverse] at hknown hedge
    have htargets : ∀ edge ∈ shape.edges, ∀ name, Target.Node name ∈ edge.targets →
        name ∈ shape.names := fun edge hmem => (hedge edge hmem).2.2.2.2
    obtain ⟨hreached, hexiting⟩ := (checkReach_iff hdistinct hknown htargets).mp hreach
    exact {
      version := hversion
      node_legal := hlegal
      edge_legal := fun edge hmem => (hedge edge hmem).1
      nodes_some := hsome
      nodes_distinct := hdistinct
      edges_distinct := hedgesDistinct
      entries_some := hentry
      entries_known := hknown
      entries_distinct := hentriesDistinct
      one_edge := fun name hname => one_edge hsources (hevery name hname)
      sources_known := fun edge hmem => (hedge edge hmem).2.1
      targets_some := fun edge hmem => (hedge edge hmem).2.2.1
      targets_distinct := fun edge hmem => (hedge edge hmem).2.2.2.1
      targets_known := htargets
      reached := hreached
      exiting := hexiting }
  · intro hlegal
    refine ⟨hlegal.version, shape.names.reverse, ?_, ?_, ?_, ?_⟩
    · exact checkNodes_iff.mpr
        ⟨hlegal.nodes_some, rfl, hlegal.node_legal, hlegal.nodes_distinct⟩
    · refine checkEntries_iff.mpr ⟨hlegal.entries_some, ?_, hlegal.entries_distinct⟩
      simpa using hlegal.entries_known
    · refine checkEdges_iff.mpr ⟨?_, hlegal.edges_distinct,
        sources_distinct hlegal.edges_distinct hlegal.one_edge hlegal.sources_known,
        fun name hname => (hlegal.one_edge name hname).exists⟩
      intro edge hedge
      refine ⟨hlegal.edge_legal edge hedge, ?_, hlegal.targets_some edge hedge,
        hlegal.targets_distinct edge hedge, ?_⟩
      · simpa using hlegal.sources_known edge hedge
      · simpa using hlegal.targets_known edge hedge
    · exact (checkReach_iff hlegal.nodes_distinct hlegal.entries_known
        hlegal.targets_known).mpr ⟨hlegal.reached, hlegal.exiting⟩

/-- Two descriptions that list the same records, in whatever order. -/
structure Shape.Alike (a b : Shape) : Prop where
  version : a.version = b.version
  entries : a.entries.Perm b.entries
  nodes : a.nodes.Perm b.nodes
  edges : a.edges.Perm b.edges

theorem Shape.Alike.symm {a b : Shape} (halike : a.Alike b) : b.Alike a :=
  ⟨halike.version.symm, halike.entries.symm, halike.nodes.symm, halike.edges.symm⟩

theorem Shape.sorted_alike (shape : Shape) : shape.sorted.Alike shape :=
  ⟨rfl, List.perm_insertionSort _ _, List.perm_insertionSort _ _, List.perm_insertionSort _ _⟩

/-- Records with distinct names are sorted into one list. -/
private theorem sort_eq {α : Type} {name : α → String} {first second : List α}
    (hdistinct : (first.map name).Nodup) (hperm : first.Perm second) :
    first.insertionSort (byName name) = second.insertionSort (byName name) := by
  have hsorted (records : List α) := List.perm_insertionSort (byName name) records
  have hsame := (hsorted first).trans (hperm.trans (hsorted second).symm)
  have hdistinct' := ((hsorted first).map name).nodup_iff.mpr hdistinct
  exact Lib.eq_of_sorted_perm hdistinct' hsame (List.pairwise_insertionSort (byName name) first)
    (List.pairwise_insertionSort (byName name) second)

/-- The canonical order of a legal description is that of its records, not that of their lists. -/
theorem Shape.Alike.sorted_eq {a b : Shape} (halike : a.Alike b) (hlegal : a.Legal) :
    a.sorted = b.sorted := by
  have hentries := @sort_eq String id _ _ (by simpa using hlegal.entries_distinct) halike.entries
  have hnodes := sort_eq hlegal.nodes_distinct halike.nodes
  have hedges := sort_eq hlegal.edges_distinct halike.edges
  rw [Shape.sorted, Shape.sorted, halike.version, hentries, hnodes, hedges]

/-- The order of the records does not matter to the rules. -/
theorem Shape.Legal.of_alike {a b : Shape} (hlegal : a.Legal) (halike : a.Alike b) : b.Legal := by
  have hnames : a.names.Perm b.names := halike.nodes.map _
  have hedges : ∀ edge, edge ∈ b.edges ↔ edge ∈ a.edges := fun edge => halike.edges.mem_iff.symm
  have hstep : b.Step = a.Step := by
    funext x y
    simp only [Shape.Step, hedges]
  have hexits : b.Exits = a.Exits := by
    funext x
    simp only [Shape.Exits, hedges]
  refine ⟨?_, ?_, ?_, ?_, ?_, ?_, ?_, ?_, ?_, ?_, ?_, ?_, ?_, ?_, ?_, ?_⟩
  · exact halike.version ▸ hlegal.version
  · exact fun node hnode => hlegal.node_legal node (halike.nodes.mem_iff.mpr hnode)
  · exact fun edge hedge => hlegal.edge_legal edge ((hedges edge).mp hedge)
  · exact fun hnil => hlegal.nodes_some (List.perm_nil.mp (hnil ▸ halike.nodes))
  · exact hnames.nodup_iff.mp hlegal.nodes_distinct
  · exact (halike.edges.map _).nodup_iff.mp hlegal.edges_distinct
  · exact fun hnil => hlegal.entries_some (List.perm_nil.mp (hnil ▸ halike.entries))
  · intro entry hentry
    exact hnames.mem_iff.mp (hlegal.entries_known entry (halike.entries.mem_iff.mpr hentry))
  · exact halike.entries.nodup_iff.mp hlegal.entries_distinct
  · intro name hname
    simp only [hedges]
    exact hlegal.one_edge name (hnames.mem_iff.mpr hname)
  · exact fun edge hedge => hnames.mem_iff.mp (hlegal.sources_known edge ((hedges edge).mp hedge))
  · exact fun edge hedge => hlegal.targets_some edge ((hedges edge).mp hedge)
  · exact fun edge hedge => hlegal.targets_distinct edge ((hedges edge).mp hedge)
  · intro edge hedge name htarget
    exact hnames.mem_iff.mp (hlegal.targets_known edge ((hedges edge).mp hedge) name htarget)
  · intro name hname
    obtain ⟨entry, hentry, hway⟩ := hlegal.reached name (hnames.mem_iff.mpr hname)
    exact ⟨entry, halike.entries.mem_iff.mp hentry, hstep ▸ hway⟩
  · intro name hname
    obtain ⟨last, hway, hlast⟩ := hlegal.exiting name (hnames.mem_iff.mpr hname)
    exact ⟨last, hstep ▸ hway, hexits ▸ hlast⟩

/-- A structure is made of a description exactly when the description is legal. -/
theorem fromShape_iff (shape : Shape) :
    (∃ built, Structure.fromShape shape = .ok built) ↔ shape.Legal := by
  have hsorted : validate shape.sorted = .ok () ↔ shape.Legal := by
    rw [validate_iff]
    exact ⟨fun hlegal => hlegal.of_alike shape.sorted_alike,
      fun hlegal => hlegal.of_alike shape.sorted_alike.symm⟩
  rw [← hsorted, Structure.fromShape]
  split
  · rename_i error hrefused
    rw [hrefused]
    simp
  · rename_i haccepted
    exact ⟨fun _ => haccepted, fun _ => ⟨_, rfl⟩⟩

private theorem build_iff {F : Type} [Fields F] (builder : GraphBuilder F) :
    (∃ graph, builder.build = .ok graph) ↔ builder.shape.Legal := by
  rw [← fromShape_iff, GraphBuilder.build]
  split
  · rename_i error hrefused
    rw [hrefused]
    simp
  · rename_i built haccepted
    exact ⟨fun _ => ⟨built, haccepted⟩, fun _ => ⟨_, rfl⟩⟩

private theorem ofJson_iff (describe : BuildError → String) (tree : Lib.Json) :
    (∃ built, Structure.ofJson describe tree = .ok built) ↔
      ∃ shape, Shape.ofJson tree = .ok shape ∧ shape.Legal := by
  rw [Structure.ofJson]
  cases hshape : Shape.ofJson tree with
  | error error => simp [bind, Except.bind]
  | ok shape =>
    simp only [bind, Except.bind, Except.ok.injEq, exists_eq_left', ← fromShape_iff]
    cases hbuilt : Structure.fromShape shape with
    | error error => simp
    | ok built => simp

/-- A structure is accepted exactly when its description is legal: from a description, by the graph
builder, and from JSON.  The floods of the check mark exactly the nodes that an entry leads to, and
exactly those that lead to the end. -/
theorem structure_accepts {F : Type} [Fields F] (shape : Shape) (builder : GraphBuilder F)
    (describe : BuildError → String) (tree : Lib.Json) :
    ((∃ built, Structure.fromShape shape = .ok built) ↔ shape.Legal) ∧
      ((∃ graph, builder.build = .ok graph) ↔ builder.shape.Legal) ∧
      ((∃ built, Structure.ofJson describe tree = .ok built) ↔
        ∃ read, Shape.ofJson tree = .ok read ∧ read.Legal) ∧
      ((∀ edge ∈ shape.edges, ∀ name, Target.Node name ∈ edge.targets → name ∈ shape.names) →
        shape.names.Nodup → ∀ name index, shape.names[index]? = some name →
          (index ∈ flood shape.forward shape.nodes.length
              (shape.entries.filterMap shape.position) ↔
            ∃ entry ∈ shape.entries, entry ∈ shape.names ∧
              ReflTransGen shape.Step entry name) ∧
          (index ∈ flood shape.backward shape.nodes.length shape.exits ↔
            ∃ last, ReflTransGen shape.Step name last ∧ shape.Exits last)) := by
  refine ⟨fromShape_iff shape, build_iff builder, ofJson_iff describe tree, ?_⟩
  intro htargets hdistinct name index hname
  have hposition := (position_iff hdistinct).mpr hname
  exact ⟨mem_reached hdistinct htargets hposition, mem_exiting hdistinct htargets hposition⟩

end LlmGraph.Contract
