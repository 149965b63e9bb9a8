/- digest: Which JSON documents are structures: the encoding of one, whatever the order of the fields of
   its records and of its nodes, entries and edges, and no other. -/

import LlmGraph.Contract.Legal
import LlmGraph.Lib.Entries
import LlmGraph.Lib.Records

set_option autoImplicit false
set_option relaxedAutoImplicit false

namespace LlmGraph.Contract

open Lib (Json JsonText ReadError)
open Lib.Json (Slot Reordered ItemsAlike)

/-! One record at a time: the fields a reader fills its slots from. -/

namespace StructureNode

/-- The fields of a node, in the order of its encoding. -/
def fields (node : StructureNode) : List (String × Json) :=
  [("name", .str node.name), ("kind", .str node.kind), ("subkind", .str node.subkind)]

private theorem read_name {tree : Json} {fill : Slots → Slots}
    (hread : readField "name" tree = .ok fill) : ∃ text, tree.readString = .ok text ∧
      fill = fun slots => { slots with name := some text } := Json.fill_of_read hread

private theorem read_kind {tree : Json} {fill : Slots → Slots}
    (hread : readField "kind" tree = .ok fill) : ∃ text, tree.readString = .ok text ∧
      fill = fun slots => { slots with kind := some text } := Json.fill_of_read hread

private theorem read_subkind {tree : Json} {fill : Slots → Slots}
    (hread : readField "subkind" tree = .ok fill) : ∃ text, tree.readString = .ok text ∧
      fill = fun slots => { slots with subkind := some text } := Json.fill_of_read hread

private theorem slot_name :
    Slot ["name", "kind", "subkind"] readField "name" Slots.name Json.readString where
  own tree fill hread := by
    obtain ⟨text, htext, rfl⟩ := read_name hread
    exact ⟨text, htext, fun _ => rfl⟩
  other name hname hne tree fill hread slots := by
    simp only [List.mem_cons, List.not_mem_nil, or_false] at hname
    rcases hname with rfl | rfl | rfl
    · exact absurd rfl hne
    · obtain ⟨text, -, rfl⟩ := read_kind hread
      rfl
    · obtain ⟨text, -, rfl⟩ := read_subkind hread
      rfl

private theorem slot_kind :
    Slot ["name", "kind", "subkind"] readField "kind" Slots.kind Json.readString where
  own tree fill hread := by
    obtain ⟨text, htext, rfl⟩ := read_kind hread
    exact ⟨text, htext, fun _ => rfl⟩
  other name hname hne tree fill hread slots := by
    simp only [List.mem_cons, List.not_mem_nil, or_false] at hname
    rcases hname with rfl | rfl | rfl
    · obtain ⟨text, -, rfl⟩ := read_name hread
      rfl
    · exact absurd rfl hne
    · obtain ⟨text, -, rfl⟩ := read_subkind hread
      rfl

private theorem slot_subkind :
    Slot ["name", "kind", "subkind"] readField "subkind" Slots.subkind Json.readString where
  own tree fill hread := by
    obtain ⟨text, htext, rfl⟩ := read_subkind hread
    exact ⟨text, htext, fun _ => rfl⟩
  other name hname hne tree fill hread slots := by
    simp only [List.mem_cons, List.not_mem_nil, or_false] at hname
    rcases hname with rfl | rfl | rfl
    · obtain ⟨text, -, rfl⟩ := read_name hread
      rfl
    · obtain ⟨text, -, rfl⟩ := read_kind hread
      rfl
    · exact absurd rfl hne

/-- A tree is read as a node when it is a record of the fields of the node, in some order. -/
theorem ofJson_iff {tree : Json} {node : StructureNode} :
    ofJson tree = .ok node ↔ ∃ given, tree = .obj given ∧ given.Perm node.fields := by
  constructor
  · intro hread
    cases tree with
    | obj given =>
      refine ⟨given, rfl, ?_⟩
      rw [ofJson] at hread
      obtain ⟨slots, hslots, hread⟩ := Json.ok_of_bind hread
      obtain ⟨name, hname, hread⟩ := Json.ok_of_bind hread
      obtain ⟨kind, hkind, hread⟩ := Json.ok_of_bind hread
      obtain ⟨subkind, hsubkind, hread⟩ := Json.ok_of_bind hread
      cases hread
      obtain ⟨hall, hnodup⟩ := Json.readFields_accepts.mp ⟨slots, hslots⟩
      obtain ⟨first, hfirst, hfirstText⟩ := Json.field_of_slot slot_name hslots rfl hname
      obtain ⟨second, hsecond, hsecondText⟩ := Json.field_of_slot slot_kind hslots rfl hkind
      obtain ⟨third, hthird, hthirdText⟩ := Json.field_of_slot slot_subkind hslots rfl hsubkind
      rw [Json.readString_iff] at hfirstText hsecondText hthirdText
      subst hfirstText hsecondText hthirdText
      refine Json.perm_of_fields hnodup (fun field hfield => (hall field hfield).1) ?_
        (by simp [fields])
      simp only [fields, List.cons_subset, hfirst, hsecond, hthird, List.nil_subset, and_self]
    | _ => cases hread
  · rintro ⟨given, rfl, hperm⟩
    have hnodup : (given.map Prod.fst).Nodup :=
      (hperm.map Prod.fst).nodup_iff.mpr (by simp [fields])
    have haccepts : ∃ slots, Json.readFields ["name", "kind", "subkind"] readField []
        ⟨none, none, none⟩ given = .ok slots := by
      refine Json.readFields_accepts.mpr ⟨?_, hnodup⟩
      intro field hfield
      have hmem := hperm.mem_iff.mp hfield
      simp only [fields, List.mem_cons, List.not_mem_nil, or_false] at hmem
      rcases hmem with rfl | rfl | rfl
      · exact ⟨by simp, by simp, _, rfl⟩
      · exact ⟨by simp, by simp, _, rfl⟩
      · exact ⟨by simp, by simp, _, rfl⟩
    obtain ⟨slots, hslots⟩ := haccepts
    have hfield : ∀ field ∈ node.fields, field ∈ given := fun field => hperm.mem_iff.mpr
    have hname := Json.slot_of_field slot_name hslots (hfield ("name", .str node.name)
      (by simp [fields])) rfl
    have hkind := Json.slot_of_field slot_kind hslots (hfield ("kind", .str node.kind)
      (by simp [fields])) rfl
    have hsubkind := Json.slot_of_field slot_subkind hslots (hfield ("subkind", .str node.subkind)
      (by simp [fields])) rfl
    simp only [ofJson, hslots, hname, hkind, hsubkind, bind, Except.bind, pure, Except.pure]

end StructureNode

namespace Target

private theorem ofJson_iff {tree : Json} {target : Target} :
    ofJson tree = .ok target ↔ tree = target.toJson ∧ target ≠ .Node endName := by
  constructor
  · intro hread
    obtain ⟨text, htext, htarget⟩ := Json.ok_of_bind hread
    rw [Json.readString_iff] at htext
    cases htarget
    subst htext
    by_cases hend : text = endName
    · simp [ofText, hend, toJson, asStr]
    · simp [ofText, hend, toJson, asStr]
  · rintro ⟨rfl, hplain⟩
    cases target with
    | END => rfl
    | Node name =>
      have hname : name ≠ endName := fun heq => hplain (heq ▸ rfl)
      simp [ofJson, toJson, asStr, Json.readString, ofText, hname, bind, Except.bind, pure,
        Except.pure]

private theorem readArray_iff {tree : Json} {targets : List Target} :
    tree.readArray ofJson = .ok targets ↔
      tree = .arr (targets.map toJson) ∧ .Node endName ∉ targets := by
  rw [Json.readArray_iff]
  constructor
  · rintro ⟨items, rfl, hall⟩
    induction hall with
    | nil => simp
    | cons hfirst _ ih =>
      obtain ⟨rfl, hplain⟩ := ofJson_iff.mp hfirst
      obtain ⟨hrest, hothers⟩ := ih
      cases hrest
      simp [Ne.symm hplain, hothers]
  · rintro ⟨rfl, hplain⟩
    refine ⟨_, rfl, ?_⟩
    rw [List.forall₂_map_left_iff, List.forall₂_same]
    intro target hmem
    refine ofJson_iff.mpr ⟨rfl, ?_⟩
    rintro rfl
    exact hplain hmem

end Target

namespace StructureEdge

/-- The fields of an edge, in the order of its encoding. -/
def fields (edge : StructureEdge) : List (String × Json) :=
  [("name", .str edge.name), ("source", .str edge.source),
    ("targets", .arr (edge.targets.map Target.toJson))]

private theorem read_name {tree : Json} {fill : Slots → Slots}
    (hread : readField "name" tree = .ok fill) : ∃ text, tree.readString = .ok text ∧
      fill = fun slots => { slots with name := some text } := Json.fill_of_read hread

private theorem read_source {tree : Json} {fill : Slots → Slots}
    (hread : readField "source" tree = .ok fill) : ∃ text, tree.readString = .ok text ∧
      fill = fun slots => { slots with source := some text } := Json.fill_of_read hread

private theorem read_targets {tree : Json} {fill : Slots → Slots}
    (hread : readField "targets" tree = .ok fill) :
    ∃ targets, tree.readArray Target.ofJson = .ok targets ∧
      fill = fun slots => { slots with targets := some targets } := Json.fill_of_read hread

private theorem slot_name :
    Slot ["name", "source", "targets"] readField "name" Slots.name Json.readString where
  own tree fill hread := by
    obtain ⟨text, htext, rfl⟩ := read_name hread
    exact ⟨text, htext, fun _ => rfl⟩
  other name hname hne tree fill hread slots := by
    simp only [List.mem_cons, List.not_mem_nil, or_false] at hname
    rcases hname with rfl | rfl | rfl
    · exact absurd rfl hne
    · obtain ⟨text, -, rfl⟩ := read_source hread
      rfl
    · obtain ⟨targets, -, rfl⟩ := read_targets hread
      rfl

private theorem slot_source :
    Slot ["name", "source", "targets"] readField "source" Slots.source Json.readString where
  own tree fill hread := by
    obtain ⟨text, htext, rfl⟩ := read_source hread
    exact ⟨text, htext, fun _ => rfl⟩
  other name hname hne tree fill hread slots := by
    simp only [List.mem_cons, List.not_mem_nil, or_false] at hname
    rcases hname with rfl | rfl | rfl
    · obtain ⟨text, -, rfl⟩ := read_name hread
      rfl
    · exact absurd rfl hne
    · obtain ⟨targets, -, rfl⟩ := read_targets hread
      rfl

private theorem slot_targets : Slot ["name", "source", "targets"] readField "targets"
    Slots.targets (Json.readArray Target.ofJson) where
  own tree fill hread := by
    obtain ⟨targets, htargets, rfl⟩ := read_targets hread
    exact ⟨targets, htargets, fun _ => rfl⟩
  other name hname hne tree fill hread slots := by
    simp only [List.mem_cons, List.not_mem_nil, or_false] at hname
    rcases hname with rfl | rfl | rfl
    · obtain ⟨text, -, rfl⟩ := read_name hread
      rfl
    · obtain ⟨text, -, rfl⟩ := read_source hread
      rfl
    · exact absurd rfl hne

/-- A tree is read as an edge when it is a record of the fields of the edge, in some order, and no
target is a node that carries the name of the end. -/
theorem ofJson_iff {tree : Json} {edge : StructureEdge} :
    ofJson tree = .ok edge ↔ (∃ given, tree = .obj given ∧ given.Perm edge.fields) ∧
      .Node Target.endName ∉ edge.targets := by
  constructor
  · intro hread
    cases tree with
    | obj given =>
      rw [ofJson] at hread
      obtain ⟨slots, hslots, hread⟩ := Json.ok_of_bind hread
      obtain ⟨name, hname, hread⟩ := Json.ok_of_bind hread
      obtain ⟨source, hsource, hread⟩ := Json.ok_of_bind hread
      obtain ⟨targets, htargets, hread⟩ := Json.ok_of_bind hread
      cases hread
      obtain ⟨hall, hnodup⟩ := Json.readFields_accepts.mp ⟨slots, hslots⟩
      obtain ⟨first, hfirst, hfirstText⟩ := Json.field_of_slot slot_name hslots rfl hname
      obtain ⟨second, hsecond, hsecondText⟩ := Json.field_of_slot slot_source hslots rfl hsource
      obtain ⟨third, hthird, hthirdRead⟩ := Json.field_of_slot slot_targets hslots rfl htargets
      rw [Json.readString_iff] at hfirstText hsecondText
      obtain ⟨rfl, hplain⟩ := Target.readArray_iff.mp hthirdRead
      subst hfirstText hsecondText
      refine ⟨⟨given, rfl, ?_⟩, hplain⟩
      refine Json.perm_of_fields hnodup (fun field hfield => (hall field hfield).1) ?_
        (by simp [fields])
      simp only [fields, List.cons_subset, hfirst, hsecond, hthird, List.nil_subset, and_self]
    | _ => cases hread
  · rintro ⟨⟨given, rfl, hperm⟩, hplain⟩
    have hread := Target.readArray_iff.mpr ⟨rfl, hplain⟩
    have hnodup : (given.map Prod.fst).Nodup :=
      (hperm.map Prod.fst).nodup_iff.mpr (by simp [fields])
    have haccepts : ∃ slots, Json.readFields ["name", "source", "targets"] readField []
        ⟨none, none, none⟩ given = .ok slots := by
      refine Json.readFields_accepts.mpr ⟨?_, hnodup⟩
      intro field hfield
      have hmem := hperm.mem_iff.mp hfield
      simp only [fields, List.mem_cons, List.not_mem_nil, or_false] at hmem
      rcases hmem with rfl | rfl | rfl
      · exact ⟨by simp, by simp, _, rfl⟩
      · exact ⟨by simp, by simp, _, rfl⟩
      · exact ⟨by simp, by simp, _, congrArg (· >>= _) hread⟩
    obtain ⟨slots, hslots⟩ := haccepts
    have hfield : ∀ field ∈ edge.fields, field ∈ given := fun field => hperm.mem_iff.mpr
    have hname := Json.slot_of_field slot_name hslots (hfield ("name", .str edge.name)
      (by simp [fields])) rfl
    have hsource := Json.slot_of_field slot_source hslots (hfield ("source", .str edge.source)
      (by simp [fields])) rfl
    have htargets := Json.slot_of_field slot_targets hslots (hfield ("targets",
      .arr (edge.targets.map Target.toJson)) (by simp [fields])) hread
    simp only [ofJson, hslots, hname, hsource, htargets, bind, Except.bind, pure, Except.pure]

end StructureEdge

namespace Shape

/-- The fields of a description whose nodes and edges are the given trees. -/
def fields (version : String) (entries : List String) (nodes edges : List Json) :
    List (String × Json) :=
  [("version", .str version), ("entries", .arr (entries.map .str)), ("nodes", .arr nodes),
    ("edges", .arr edges)]

private theorem readEntries_iff {tree : Json} {entries : List String} :
    tree.readArray Json.readString = .ok entries ↔ tree = .arr (entries.map .str) := by
  rw [Json.readArray_iff]
  constructor
  · rintro ⟨items, rfl, hall⟩
    have hitems : items = entries.map .str := by
      induction hall with
      | nil => rfl
      | cons hfirst _ ih => rw [Json.readString_iff.mp hfirst, ih, List.map_cons]
    rw [hitems]
  · rintro rfl
    refine ⟨_, rfl, ?_⟩
    rw [List.forall₂_map_left_iff, List.forall₂_same]
    exact fun entry _ => rfl

private theorem read_version {tree : Json} {fill : Slots → Slots}
    (hread : readField "version" tree = .ok fill) :
    ∃ text, tree.readString = .ok text ∧
      fill = fun slots => { slots with version := some text } := Json.fill_of_read hread

private theorem read_entries {tree : Json} {fill : Slots → Slots}
    (hread : readField "entries" tree = .ok fill) :
    ∃ entries, tree.readArray Json.readString = .ok entries ∧
      fill = fun slots => { slots with entries := some entries } := Json.fill_of_read hread

private theorem read_nodes {tree : Json} {fill : Slots → Slots}
    (hread : readField "nodes" tree = .ok fill) :
    ∃ nodes, tree.readArray StructureNode.ofJson = .ok nodes ∧
      fill = fun slots => { slots with nodes := some nodes } := Json.fill_of_read hread

private theorem read_edges {tree : Json} {fill : Slots → Slots}
    (hread : readField "edges" tree = .ok fill) :
    ∃ edges, tree.readArray StructureEdge.ofJson = .ok edges ∧
      fill = fun slots => { slots with edges := some edges } := Json.fill_of_read hread

private theorem slot_version : Slot ["version", "entries", "nodes", "edges"] readField "version"
    Slots.version Json.readString where
  own tree fill hread := by
    obtain ⟨text, htext, rfl⟩ := read_version hread
    exact ⟨text, htext, fun _ => rfl⟩
  other name hname hne tree fill hread slots := by
    simp only [List.mem_cons, List.not_mem_nil, or_false] at hname
    rcases hname with rfl | rfl | rfl | rfl
    · exact absurd rfl hne
    · obtain ⟨entries, -, rfl⟩ := read_entries hread
      rfl
    · obtain ⟨nodes, -, rfl⟩ := read_nodes hread
      rfl
    · obtain ⟨edges, -, rfl⟩ := read_edges hread
      rfl

private theorem slot_entries : Slot ["version", "entries", "nodes", "edges"] readField "entries"
    Slots.entries (Json.readArray Json.readString) where
  own tree fill hread := by
    obtain ⟨entries, hentries, rfl⟩ := read_entries hread
    exact ⟨entries, hentries, fun _ => rfl⟩
  other name hname hne tree fill hread slots := by
    simp only [List.mem_cons, List.not_mem_nil, or_false] at hname
    rcases hname with rfl | rfl | rfl | rfl
    · obtain ⟨text, -, rfl⟩ := read_version hread
      rfl
    · exact absurd rfl hne
    · obtain ⟨nodes, -, rfl⟩ := read_nodes hread
      rfl
    · obtain ⟨edges, -, rfl⟩ := read_edges hread
      rfl

private theorem slot_nodes : Slot ["version", "entries", "nodes", "edges"] readField "nodes"
    Slots.nodes (Json.readArray StructureNode.ofJson) where
  own tree fill hread := by
    obtain ⟨nodes, hnodes, rfl⟩ := read_nodes hread
    exact ⟨nodes, hnodes, fun _ => rfl⟩
  other name hname hne tree fill hread slots := by
    simp only [List.mem_cons, List.not_mem_nil, or_false] at hname
    rcases hname with rfl | rfl | rfl | rfl
    · obtain ⟨text, -, rfl⟩ := read_version hread
      rfl
    · obtain ⟨entries, -, rfl⟩ := read_entries hread
      rfl
    · exact absurd rfl hne
    · obtain ⟨edges, -, rfl⟩ := read_edges hread
      rfl

private theorem slot_edges : Slot ["version", "entries", "nodes", "edges"] readField "edges"
    Slots.edges (Json.readArray StructureEdge.ofJson) where
  own tree fill hread := by
    obtain ⟨edges, hedges, rfl⟩ := read_edges hread
    exact ⟨edges, hedges, fun _ => rfl⟩
  other name hname hne tree fill hread slots := by
    simp only [List.mem_cons, List.not_mem_nil, or_false] at hname
    rcases hname with rfl | rfl | rfl | rfl
    · obtain ⟨text, -, rfl⟩ := read_version hread
      rfl
    · obtain ⟨entries, -, rfl⟩ := read_entries hread
      rfl
    · obtain ⟨nodes, -, rfl⟩ := read_nodes hread
      rfl
    · exact absurd rfl hne

/-- A tree is read as a description when it is a record of its fields, in some order, whose items
are read as the nodes and the edges. -/
theorem ofJson_iff {tree : Json} {shape : Shape} :
    ofJson tree = .ok shape ↔ ∃ given nodes edges, tree = .obj given ∧
      given.Perm (fields shape.version shape.entries nodes edges) ∧
      List.Forall₂ (fun item node => StructureNode.ofJson item = .ok node) nodes shape.nodes ∧
      List.Forall₂ (fun item edge => StructureEdge.ofJson item = .ok edge) edges shape.edges := by
  constructor
  · intro hread
    cases tree with
    | obj given =>
      rw [ofJson] at hread
      obtain ⟨slots, hslots, hread⟩ := Json.ok_of_bind hread
      obtain ⟨version, hversion, hread⟩ := Json.ok_of_bind hread
      obtain ⟨entries, hentries, hread⟩ := Json.ok_of_bind hread
      obtain ⟨nodes, hnodes, hread⟩ := Json.ok_of_bind hread
      obtain ⟨edges, hedges, hread⟩ := Json.ok_of_bind hread
      cases hread
      obtain ⟨hall, hnodup⟩ := Json.readFields_accepts.mp ⟨slots, hslots⟩
      obtain ⟨first, hfirst, hfirstRead⟩ := Json.field_of_slot slot_version hslots rfl hversion
      obtain ⟨second, hsecond, hsecondRead⟩ := Json.field_of_slot slot_entries hslots rfl hentries
      obtain ⟨third, hthird, hthirdRead⟩ := Json.field_of_slot slot_nodes hslots rfl hnodes
      obtain ⟨fourth, hfourth, hfourthRead⟩ := Json.field_of_slot slot_edges hslots rfl hedges
      rw [Json.readString_iff] at hfirstRead
      rw [readEntries_iff] at hsecondRead
      obtain ⟨nodeItems, rfl, hnodesRead⟩ := Json.readArray_iff.mp hthirdRead
      obtain ⟨edgeItems, rfl, hedgesRead⟩ := Json.readArray_iff.mp hfourthRead
      subst hfirstRead hsecondRead
      refine ⟨given, nodeItems, edgeItems, rfl, ?_, hnodesRead, hedgesRead⟩
      refine Json.perm_of_fields hnodup (fun field hfield => (hall field hfield).1) ?_
        (by simp [fields])
      simp only [fields, List.cons_subset, hfirst, hsecond, hthird, hfourth, List.nil_subset,
        and_self]
    | _ => cases hread
  · rintro ⟨given, nodes, edges, rfl, hperm, hnodes, hedges⟩
    have hnodesRead := Json.readArray_iff.mpr ⟨nodes, rfl, hnodes⟩
    have hedgesRead := Json.readArray_iff.mpr ⟨edges, rfl, hedges⟩
    have hentriesRead := readEntries_iff.mpr (rfl : Json.arr (shape.entries.map .str) = _)
    have hnodup : (given.map Prod.fst).Nodup :=
      (hperm.map Prod.fst).nodup_iff.mpr (by simp [fields])
    have haccepts : ∃ slots, Json.readFields ["version", "entries", "nodes", "edges"] readField []
        ⟨none, none, none, none⟩ given = .ok slots := by
      refine Json.readFields_accepts.mpr ⟨?_, hnodup⟩
      intro field hfield
      have hmem := hperm.mem_iff.mp hfield
      simp only [fields, List.mem_cons, List.not_mem_nil, or_false] at hmem
      rcases hmem with rfl | rfl | rfl | rfl
      · exact ⟨by simp, by simp, _, rfl⟩
      · exact ⟨by simp, by simp, _, congrArg (· >>= _) hentriesRead⟩
      · exact ⟨by simp, by simp, _, congrArg (· >>= _) hnodesRead⟩
      · exact ⟨by simp, by simp, _, congrArg (· >>= _) hedgesRead⟩
    obtain ⟨slots, hslots⟩ := haccepts
    have hfield : ∀ field ∈ fields shape.version shape.entries nodes edges, field ∈ given :=
      fun field => hperm.mem_iff.mpr
    have hversion := Json.slot_of_field slot_version hslots (hfield ("version",
      .str shape.version) (by simp [fields])) rfl
    have hentries := Json.slot_of_field slot_entries hslots (hfield ("entries",
      .arr (shape.entries.map .str)) (by simp [fields])) hentriesRead
    have hnodesGiven := Json.slot_of_field slot_nodes hslots (hfield ("nodes", .arr nodes)
      (by simp [fields])) hnodesRead
    have hedgesGiven := Json.slot_of_field slot_edges hslots (hfield ("edges", .arr edges)
      (by simp [fields])) hedgesRead
    simp only [ofJson, hslots, hversion, hentries, hnodesGiven, hedgesGiven, bind, Except.bind,
      pure, Except.pure]

end Shape

/-! Documents that list the same fields, nodes, entries and edges, in whatever order. -/

/-- Two fields of a description whose items are the same, in another order; the fields of a node or
an edge may come in another order too. -/
inductive FieldAlike : String × Json → String × Json → Prop
  | same (field : String × Json) : FieldAlike field field
  | entries {name : String} (hlisted : name = "entries") {first second : List Json}
      (hperm : first.Perm second) : FieldAlike (name, .arr first) (name, .arr second)
  | records {name : String} (hlisted : name = "nodes" ∨ name = "edges") {first second : List Json}
      (halike : ItemsAlike Reordered first second) :
      FieldAlike (name, .arr first) (name, .arr second)

/-- Two documents that differ in the order of their fields and of their items only. -/
inductive DocumentAlike : Json → Json → Prop
  | same (tree : Json) : DocumentAlike tree tree
  | fields {first middle second : List (String × Json)} (hperm : first.Perm middle)
      (halike : List.Forall₂ FieldAlike middle second) : DocumentAlike (.obj first) (.obj second)

theorem FieldAlike.symm {first second : String × Json} (halike : FieldAlike first second) :
    FieldAlike second first := by
  cases halike with
  | same => exact .same _
  | entries hname hperm => exact .entries hname hperm.symm
  | records hname halike => exact .records hname (halike.symm fun _ _ => Reordered.symm)

theorem DocumentAlike.symm {first second : Json} (halike : DocumentAlike first second) :
    DocumentAlike second first := by
  cases halike with
  | same => exact .same _
  | fields hperm hall =>
    obtain ⟨others, hothers, hback⟩ := List.perm_comp_forall₂ hperm hall
    exact .fields hback.symm (hothers.flip.imp fun _ _ => FieldAlike.symm)

private theorem StructureNode.ofJson_reordered {first second : Json} {node : StructureNode}
    (halike : Reordered first second) (hread : ofJson first = .ok node) :
    ofJson second = .ok node := by
  cases halike with
  | same => exact hread
  | fields hperm =>
    obtain ⟨given, htree, hgiven⟩ := ofJson_iff.mp hread
    cases htree
    exact ofJson_iff.mpr ⟨_, rfl, hperm.symm.trans hgiven⟩

private theorem StructureEdge.ofJson_reordered {first second : Json} {edge : StructureEdge}
    (halike : Reordered first second) (hread : ofJson first = .ok edge) :
    ofJson second = .ok edge := by
  cases halike with
  | same => exact hread
  | fields hperm =>
    obtain ⟨⟨given, htree, hgiven⟩, hplain⟩ := ofJson_iff.mp hread
    cases htree
    exact ofJson_iff.mpr ⟨⟨_, rfl, hperm.symm.trans hgiven⟩, hplain⟩

namespace Shape

private theorem entries_alike {entries : List String} {field : String × Json}
    (halike : FieldAlike ("entries", .arr (entries.map .str)) field) :
    ∃ others : List String, field = ("entries", .arr (others.map .str)) ∧
      entries.Perm others := by
  cases halike with
  | same => exact ⟨entries, rfl, .refl _⟩
  | entries _ hperm =>
    have hread : List.Forall₂ (fun item entry => Json.readString item = .ok entry)
        (entries.map .str) entries := by
      rw [List.forall₂_map_left_iff, List.forall₂_same]
      exact fun entry _ => rfl
    obtain ⟨others, hothers, hback⟩ := List.perm_comp_forall₂ hperm.symm hread
    have harray := readEntries_iff.mp (Json.readArray_iff.mpr ⟨_, rfl, hothers⟩)
    exact ⟨others, congrArg (Prod.mk _) harray, hback.symm⟩
  | records hname => simp at hname

private theorem nodes_alike {items : List Json} {nodes : List StructureNode}
    {field : String × Json} (halike : FieldAlike ("nodes", .arr items) field)
    (hread : List.Forall₂ (fun item node => StructureNode.ofJson item = .ok node) items nodes) :
    ∃ others read, field = ("nodes", .arr others) ∧ nodes.Perm read ∧
      List.Forall₂ (fun item node => StructureNode.ofJson item = .ok node) others read := by
  cases halike with
  | same => exact ⟨items, nodes, rfl, .refl _, hread⟩
  | entries hname => simp at hname
  | records _ halike =>
    have hkeep : ∀ first second node, Reordered first second →
        StructureNode.ofJson first = .ok node → StructureNode.ofJson second = .ok node :=
      fun _ _ _ => StructureNode.ofJson_reordered
    obtain ⟨read, hothers, hperm⟩ := halike.read hkeep hread
    exact ⟨_, read, rfl, hperm, hothers⟩

private theorem edges_alike {items : List Json} {edges : List StructureEdge}
    {field : String × Json} (halike : FieldAlike ("edges", .arr items) field)
    (hread : List.Forall₂ (fun item edge => StructureEdge.ofJson item = .ok edge) items edges) :
    ∃ others read, field = ("edges", .arr others) ∧ edges.Perm read ∧
      List.Forall₂ (fun item edge => StructureEdge.ofJson item = .ok edge) others read := by
  cases halike with
  | same => exact ⟨items, edges, rfl, .refl _, hread⟩
  | entries hname => simp at hname
  | records _ halike =>
    have hkeep : ∀ first second edge, Reordered first second →
        StructureEdge.ofJson first = .ok edge → StructureEdge.ofJson second = .ok edge :=
      fun _ _ _ => StructureEdge.ofJson_reordered
    obtain ⟨read, hothers, hperm⟩ := halike.read hkeep hread
    exact ⟨_, read, rfl, hperm, hothers⟩

private theorem version_alike {version : String} {field : String × Json}
    (halike : FieldAlike ("version", .str version) field) : field = ("version", .str version) := by
  cases halike with
  | same => rfl

/-- Documents that differ in order are read as descriptions that differ in order. -/
theorem ofJson_alike {first second : Json} {shape : Shape} (halike : DocumentAlike first second)
    (hread : ofJson first = .ok shape) :
    ∃ other, ofJson second = .ok other ∧ shape.Alike other := by
  cases halike with
  | same => exact ⟨shape, hread, ⟨rfl, .refl _, .refl _, .refl _⟩⟩
  | fields hperm hall =>
    obtain ⟨given, nodes, edges, htree, hgiven, hnodes, hedges⟩ := ofJson_iff.mp hread
    cases htree
    obtain ⟨others, hothers, hback⟩ :=
      List.perm_comp_forall₂ (hgiven.symm.trans hperm) hall
    -- The fields in their own order: each is the same, or lists the same items.
    rcases hothers with _ | ⟨hversion, _ | ⟨hentries, _ | ⟨hnodesField, _ | ⟨hedgesField, _ | _⟩⟩⟩⟩
    cases version_alike hversion
    obtain ⟨entries', rfl, hentriesPerm⟩ := entries_alike hentries
    obtain ⟨nodes', readNodes, rfl, hnodesPerm, hnodesRead⟩ := nodes_alike hnodesField hnodes
    obtain ⟨edges', readEdges, rfl, hedgesPerm, hedgesRead⟩ := edges_alike hedgesField hedges
    refine ⟨⟨shape.version, entries', readNodes, readEdges⟩, ?_,
      ⟨rfl, hentriesPerm, hnodesPerm, hedgesPerm⟩⟩
    exact ofJson_iff.mpr ⟨_, nodes', edges', rfl, hback.symm, hnodesRead, hedgesRead⟩

end Shape

/-- Why a text is no structure. -/
inductive StructureError where
  | Malformed (reason : String)
  | Rule (error : BuildError)
  deriving DecidableEq, Repr

namespace Structure

theorem fromShape_sorted {shape other : Shape} (hsorted : shape.sorted = other.sorted)
    {built : Structure} (haccepted : fromShape shape = .ok built) :
    fromShape other = .ok built := by
  have hbuilt : built.toShape = shape.sorted := fromShape_ok haccepted
  cases hother : fromShape other with
  | ok again =>
    have hagain : again.toShape = other.sorted := fromShape_ok hother
    exact congrArg Except.ok (ext (hagain.trans (hsorted.symm.trans hbuilt.symm)))
  | error error =>
    have hlegal : shape.sorted.Legal := validate_iff.mp (hbuilt ▸ built.valid)
    have hother' : ∃ again, fromShape other = .ok again :=
      (fromShape_iff other).mpr ((hsorted ▸ hlegal).of_alike other.sorted_alike)
    obtain ⟨again, hagain⟩ := hother'
    rw [hother] at hagain
    cases hagain

/-- Documents that differ in order only are the same structure, or none. -/
theorem ofJson_alike (describe : BuildError → String) {first second : Json}
    (halike : DocumentAlike first second) {built : Structure}
    (hread : ofJson describe first = .ok built) : ofJson describe second = .ok built := by
  obtain ⟨shape, hshape, hbuilt⟩ := Json.ok_of_bind hread
  obtain ⟨other, hother, hsame⟩ := Shape.ofJson_alike halike hshape
  have haccepted : fromShape shape = .ok built := by
    cases hcheck : fromShape shape with
    | error error =>
      rw [hcheck] at hbuilt
      cases hbuilt
    | ok again =>
      rw [hcheck] at hbuilt
      cases hbuilt
      rfl
  have hlegal : shape.Legal := (fromShape_iff shape).mp ⟨built, haccepted⟩
  have hagain := fromShape_sorted (hsame.sorted_eq hlegal) haccepted
  simp only [ofJson, hother, hagain, bind, Except.bind]

variable {F : Type} [Fields F]

/-- `Structure::from_json_slice`. -/
def fromJsonSlice (text : JsonText) (json : String) : Except StructureError Structure :=
  match text.parse json with
  | .error error => .error (.Malformed error)
  | .ok tree =>
      match Shape.ofJson tree with
      | .error error => .error (.Malformed (text.explain json error))
      | .ok shape =>
          match fromShape shape with
          | .error error => .error (.Rule error)
          | .ok built => .ok built

private theorem fromJsonSlice_iff (describe : BuildError → String) (text : JsonText)
    (json : String) (built : Structure) :
    fromJsonSlice text json = .ok built ↔
      ∃ tree, text.parse json = .ok tree ∧ ofJson describe tree = .ok built := by
  rw [fromJsonSlice]
  cases hparse : text.parse json with
  | error error => simp
  | ok tree =>
    cases hshape : Shape.ofJson tree with
    | error error => simp [ofJson, hshape, bind, Except.bind]
    | ok shape =>
      cases hcheck : fromShape shape with
      | error error => simp [ofJson, hshape, hcheck, bind, Except.bind]
      | ok again => simp [ofJson, hshape, hcheck, bind, Except.bind]

/-- The builder that gets the records of a structure, and how its edges decide. -/
def builder (built : Structure)
    (evaluate : StructureEdge → Nat → State F → Lib.Attempt Cause (List Target)) :
    GraphBuilder F where
  version := built.version
  nodes := built.nodes.map fun node => ⟨node.name, node.kind, node.subkind⟩
  edges := built.edges.map fun edge => ⟨edge.name, edge.source, edge.targets, evaluate edge⟩
  entries := built.entries

/-- A structure is what its builder makes. -/
theorem builder_build (built : Structure)
    (evaluate : StructureEdge → Nat → State F → Lib.Attempt Cause (List Target)) :
    ∃ graph, (built.builder evaluate).build = .ok graph ∧ graph.shape = built := by
  have hshape : (built.builder evaluate).shape = built.toShape := by
    have hnodes : built.nodes.map (Node.describe ∘ fun node => ⟨node.name, node.kind,
        node.subkind⟩) = built.nodes := List.map_id'' (fun _ => rfl) _
    have hedges : built.edges.map ((Edge.describe (F := F)) ∘ fun edge => ⟨edge.name, edge.source,
        edge.targets, evaluate edge⟩) = built.edges := List.map_id'' (fun _ => rfl) _
    simp only [GraphBuilder.shape, builder, List.map_map, hnodes, hedges]
  have haccepted : fromShape (built.builder evaluate).shape = .ok built := by
    rw [hshape]
    exact built.fromShape_toShape
  rw [GraphBuilder.build]
  split
  · rename_i error hrefused
    rw [haccepted] at hrefused
    cases hrefused
  · rename_i again hagain
    rw [haccepted] at hagain
    cases hagain
    exact ⟨_, rfl, rfl⟩

/-- The tree is a record of the named fields, each of them once and no other, in some order. -/
def HasFields (names : List String) (tree : Json) : Prop :=
  ∃ given, tree = .obj given ∧ (given.map Prod.fst).Perm names

/-- Every record of the document has its fields, each of them once and no other. -/
structure Whole (tree : Json) : Prop where
  document : HasFields ["version", "entries", "nodes", "edges"] tree
  nodes : ∀ given items, tree = .obj given → ("nodes", .arr items) ∈ given →
    ∀ item ∈ items, HasFields ["name", "kind", "subkind"] item
  edges : ∀ given items, tree = .obj given → ("edges", .arr items) ∈ given →
    ∀ item ∈ items, HasFields ["name", "source", "targets"] item

private theorem whole_of_ofJson {tree : Json} {shape : Shape}
    (hread : Shape.ofJson tree = .ok shape) : Whole tree := by
  obtain ⟨given, nodes, edges, rfl, hperm, hnodes, hedges⟩ := Shape.ofJson_iff.mp hread
  refine ⟨⟨given, rfl, hperm.map Prod.fst⟩, ?_, ?_⟩
  · intro fields items htree hlisted item hitem
    cases htree
    have hsame := hperm.mem_iff.mp hlisted
    simp only [Shape.fields, List.mem_cons, Prod.mk.injEq, reduceCtorEq, and_false, false_and,
      String.reduceEq, List.not_mem_nil, or_false, false_or, true_and, Json.arr.injEq] at hsame
    subst hsame
    obtain ⟨node, hnode⟩ := Json.value_of_item hnodes hitem
    obtain ⟨fields, rfl, hfields⟩ := StructureNode.ofJson_iff.mp hnode
    exact ⟨fields, rfl, hfields.map Prod.fst⟩
  · intro fields items htree hlisted item hitem
    cases htree
    have hsame := hperm.mem_iff.mp hlisted
    simp only [Shape.fields, List.mem_cons, Prod.mk.injEq, reduceCtorEq, and_false, false_and,
      String.reduceEq, List.not_mem_nil, or_false, false_or, true_and, Json.arr.injEq] at hsame
    subst hsame
    obtain ⟨edge, hedge⟩ := Json.value_of_item hedges hitem
    obtain ⟨⟨fields, rfl, hfields⟩, -⟩ := StructureEdge.ofJson_iff.mp hedge
    exact ⟨fields, rfl, hfields.map Prod.fst⟩

/-- A structure that the builder makes is read back from its encoding.  A document is read as a
structure that the builder makes, whose encoding is read as the same structure; it is read whatever
the order of its fields, nodes, entries and edges, and only when every record has its fields, each
of them once and no other. -/
theorem structure_round_trip (describe : BuildError → String) (text : JsonText) :
    (∀ (builder : GraphBuilder F) graph, builder.build = .ok graph →
      ofJson describe graph.shape.toJson = .ok graph.shape ∧
        (text.Reads graph.shape.toJson →
          fromJsonSlice text (text.print graph.shape.toJson) = .ok graph.shape)) ∧
      (∀ json built, fromJsonSlice text json = .ok built ↔
        ∃ tree, text.parse json = .ok tree ∧ ofJson describe tree = .ok built) ∧
      (∀ tree built, ofJson describe tree = .ok built →
        (∀ evaluate : StructureEdge → Nat → State F → Lib.Attempt Cause (List Target),
          ∃ graph, (built.builder evaluate).build = .ok graph ∧ graph.shape = built) ∧
        ∃ again, ofJson describe built.toJson = .ok again ∧ again = built ∧
          again.toJson.write = built.toJson.write) ∧
      (∀ first second, DocumentAlike first second → ∀ built,
        ofJson describe first = .ok built ↔ ofJson describe second = .ok built) ∧
      ∀ tree built, ofJson describe tree = .ok built → Whole tree := by
  refine ⟨?_, fromJsonSlice_iff describe text, ?_, ?_, ?_⟩
  · intro builder graph _
    have hback := ofJson_toJson describe graph.shape
    exact ⟨hback, fun hreads =>
      (fromJsonSlice_iff describe text _ _).mpr ⟨_, hreads, hback⟩⟩
  · intro tree built _
    exact ⟨built.builder_build, built, ofJson_toJson describe built, rfl, rfl⟩
  · intro first second halike built
    exact ⟨ofJson_alike describe halike, ofJson_alike describe halike.symm⟩
  · intro tree built hread
    obtain ⟨shape, hshape, -⟩ := Json.ok_of_bind hread
    exact whole_of_ofJson hshape

end Structure

end LlmGraph.Contract
