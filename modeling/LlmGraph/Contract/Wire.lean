/- digest: The JSON form of a structure (`graph/wire.rs`) and its round trip. -/

import LlmGraph.Contract.Structure
import LlmGraph.Lib.Json

set_option autoImplicit false
set_option relaxedAutoImplicit false

namespace LlmGraph.Contract

open Lib (Json ReadError)

namespace Target

def toJson (target : Target) : Json := .str target.asStr

def ofJson (tree : Json) : Except ReadError Target := do
  let text ← tree.readString
  return ofText text

end Target

namespace StructureNode

def toJson (node : StructureNode) : Json :=
  .obj [("name", .str node.name), ("kind", .str node.kind), ("subkind", .str node.subkind)]

structure Slots where
  name : Option String
  kind : Option String
  subkind : Option String

def readField (field : String) (value : Json) : Except ReadError (Slots → Slots) := do
  let text ← value.readString
  return fun slots =>
    if field = "name" then { slots with name := text }
    else if field = "kind" then { slots with kind := text }
    else { slots with subkind := text }

def ofJson : Json → Except ReadError StructureNode
  | .obj fields => do
      let slots ← Json.readFields ["name", "kind", "subkind"] readField [] ⟨none, none, none⟩ fields
      let name ← Json.required slots.name "name"
      let kind ← Json.required slots.kind "kind"
      let subkind ← Json.required slots.subkind "subkind"
      return ⟨name, kind, subkind⟩
  | _ => .error (.invalidType "a map with name, kind and subkind")

theorem ofJson_toJson (node : StructureNode) : ofJson node.toJson = .ok node := rfl

end StructureNode

namespace StructureEdge

def toJson (edge : StructureEdge) : Json :=
  .obj [("name", .str edge.name), ("source", .str edge.source),
    ("targets", .arr (edge.targets.map Target.toJson))]

structure Slots where
  name : Option String
  source : Option String
  targets : Option (List Target)

def readField (field : String) (value : Json) : Except ReadError (Slots → Slots) :=
  if field = "name" then do
    let text ← value.readString
    return fun slots => { slots with name := text }
  else if field = "source" then do
    let text ← value.readString
    return fun slots => { slots with source := text }
  else do
    let targets ← value.readArray Target.ofJson
    return fun slots => { slots with targets := targets }

def ofJson : Json → Except ReadError StructureEdge
  | .obj fields => do
      let slots ← Json.readFields ["name", "source", "targets"] readField [] ⟨none, none, none⟩
        fields
      let name ← Json.required slots.name "name"
      let source ← Json.required slots.source "source"
      let targets ← Json.required slots.targets "targets"
      return ⟨name, source, targets⟩
  | _ => .error (.invalidType "a map with name, source and targets")

/-- An edge is read back when no target is a node that carries the name of the end. -/
theorem ofJson_toJson (edge : StructureEdge) (hplain : Target.Node Target.endName ∉ edge.targets) :
    ofJson edge.toJson = .ok edge := by
  have heach : ∀ target ∈ edge.targets, Target.ofJson target.toJson = .ok target := by
    rintro (name | _) hmember
    · have hdiffers : name ≠ Target.endName := by
        rintro rfl
        exact hplain hmember
      simp [Target.ofJson, Target.toJson, Target.asStr, Json.readString, Target.ofText, hdiffers,
        bind, Except.bind, pure, Except.pure]
    · rfl
  have htargets : (Json.arr (edge.targets.map Target.toJson)).readArray Target.ofJson =
      .ok edge.targets := Json.readArray_map heach
  simp [ofJson, toJson, Json.readFields, readField, Json.readString, Json.required, htargets, bind,
    Except.bind, pure, Except.pure]

end StructureEdge

namespace Shape

def toJson (shape : Shape) : Json :=
  .obj [("version", .str shape.version), ("entries", .arr (shape.entries.map .str)),
    ("nodes", .arr (shape.nodes.map StructureNode.toJson)),
    ("edges", .arr (shape.edges.map StructureEdge.toJson))]

structure Slots where
  version : Option String
  entries : Option (List String)
  nodes : Option (List StructureNode)
  edges : Option (List StructureEdge)

def readField (field : String) (value : Json) : Except ReadError (Slots → Slots) :=
  if field = "version" then do
    let text ← value.readString
    return fun slots => { slots with version := text }
  else if field = "entries" then do
    let entries ← value.readArray Json.readString
    return fun slots => { slots with entries := entries }
  else if field = "nodes" then do
    let nodes ← value.readArray StructureNode.ofJson
    return fun slots => { slots with nodes := nodes }
  else do
    let edges ← value.readArray StructureEdge.ofJson
    return fun slots => { slots with edges := edges }

def ofJson : Json → Except ReadError Shape
  | .obj fields => do
      let slots ← Json.readFields ["version", "entries", "nodes", "edges"] readField []
        ⟨none, none, none, none⟩ fields
      let version ← Json.required slots.version "version"
      let entries ← Json.required slots.entries "entries"
      let nodes ← Json.required slots.nodes "nodes"
      let edges ← Json.required slots.edges "edges"
      return ⟨version, entries, nodes, edges⟩
  | _ => .error (.invalidType "a map with version, entries, nodes and edges")

theorem ofJson_toJson (shape : Shape)
    (hplain : ∀ edge ∈ shape.edges, Target.Node Target.endName ∉ edge.targets) :
    ofJson shape.toJson = .ok shape := by
  have hentries : (Json.arr (shape.entries.map .str)).readArray Json.readString =
      .ok shape.entries := Json.readArray_map fun _ _ => rfl
  have hnodes : (Json.arr (shape.nodes.map StructureNode.toJson)).readArray StructureNode.ofJson =
      .ok shape.nodes := Json.readArray_map fun node _ => node.ofJson_toJson
  have hedges : (Json.arr (shape.edges.map StructureEdge.toJson)).readArray StructureEdge.ofJson =
      .ok shape.edges := Json.readArray_map fun edge hmember => edge.ofJson_toJson
      (hplain edge hmember)
  simp [ofJson, toJson, Json.readFields, readField, Json.readString, Json.required, hentries,
    hnodes, hedges, bind, Except.bind, pure, Except.pure]

end Shape

namespace Structure

/-- `Structure::deserialize`: the shape, then every build rule; `describe` writes the broken
rule. -/
def ofJson (describe : BuildError → String) (tree : Json) : Except ReadError Structure := do
  let shape ← Shape.ofJson tree
  match fromShape shape with
  | .error error => .error (.custom (describe error))
  | .ok built => .ok built

/-- A target of a structure never carries the name of the end: names start in lower case. -/
theorem endName_not_target (built : Structure) {edge : StructureEdge}
    (hlisted : edge ∈ built.edges) : Target.Node Target.endName ∉ edge.targets := by
  intro hmember
  obtain ⟨node, hpresent, hnamed⟩ :=
    List.mem_map.mp (built.lawful.target_known edge hlisted _ hmember)
  have hlegal := built.lawful.names_legal node hpresent
  rw [hnamed] at hlegal
  exact absurd hlegal (by decide)

theorem ofJson_toJson (describe : BuildError → String) (built : Structure) :
    ofJson describe built.toJson = .ok built := by
  have hshape := built.toShape.ofJson_toJson fun _ hlisted => built.endName_not_target hlisted
  simp [ofJson, hshape, fromShape_toShape, bind, Except.bind]

end Structure

end LlmGraph.Contract
