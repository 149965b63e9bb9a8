/- digest: Nodes, maps and edges of a graph, the builder that checks them in its fixed order, and the
   private keys of a graph. -/

import LlmGraph.Lib.Attempt
import LlmGraph.Lib.Distinct
import LlmGraph.Superstep.Pending

set_option autoImplicit false
set_option relaxedAutoImplicit false

namespace LlmGraph.Superstep

open Lib (Attempt pushAll firstTwice)

variable {C : Type} [Conversation C]

/-- An int limit of one or more, given or read from a configuration key. -/
inductive Limit where
  | fixed (value : Nat) (hpositive : 0 < value)
  | config (key : Key)

def Limit.check (schema : Schema C) : Limit → Except (GraphError C) Unit
  | .fixed _ _ => .ok ()
  | .config key =>
      if schema.configKind key = some .int then .ok () else .error (.LimitKeyMismatch key)

def Limit.resolve (config : Config C) : Limit → Except (GraphError C) Nat
  | .fixed value _ => .ok value
  | .config key =>
      match config.int key with
      | .error error => .error error
      | .ok value => if 0 < value then .ok value.toNat else .error (.LimitNotPositive key value)

/-- Where a capture update takes its value from. -/
inductive CaptureSource (C : Type) where
  | const (value : Value C)
  | fromKey (key : Key)
  | reason

inductive CaptureUpdate (C : Type) where
  | set (key : Key) (source : CaptureSource C)
  | append (key : Key) (source : CaptureSource C)

namespace CaptureUpdate

def key : CaptureUpdate C → Key
  | .set key _ | .append key _ => key

def source : CaptureUpdate C → CaptureSource C
  | .set _ source | .append _ source => source

/-- `Output::update` of the target of the capture. -/
def update (capture : CaptureUpdate C) (value : Value C) : Update C :=
  match capture with
  | .set key _ => .set key value
  | .append key _ => .append key value

/-- The kind the target takes: the kind of a set key, the element kind of an appended list. -/
def receives (schema : Schema C) : CaptureUpdate C → Option Kind
  | .set key _ => schema.stateKind key
  | .append key _ =>
      match schema.stateKind key with
      | some (.list element) => some element
      | _ => none

/-- `check_capture` with `appends_only`. -/
def check (schema : Schema C) (capture : CaptureUpdate C) : Except (GraphError C) Unit :=
  match capture with
  | .set key _ => .error (.MapBodySet key)
  | .append key source =>
      let fits : Bool := match capture.receives schema, source with
        | none, _ => false
        | some kind, .const value => value.matchesKind kind
        | some kind, .fromKey key => schema.stateKind key == some kind
        | some kind, .reason => kind == .str
      if fits then .ok () else .error (.CaptureMismatch key)

end CaptureUpdate

/-- The updates a failure is captured as: constants, values of the state, or the reason. -/
def captured (state : State C) (reason : String) :
    List (CaptureUpdate C) → Except (GraphError C) (List (Update C))
  | [] => .ok []
  | capture :: rest =>
      let value := match capture.source with
        | .const value => Except.ok value
        | .fromKey key => state.value key
        | .reason => .ok (.str reason)
      match value with
      | .error error => .error error
      | .ok value =>
          match captured state reason rest with
          | .error error => .error error
          | .ok updates => .ok (capture.update value :: updates)

/-- What a map does when the body of an item returns an error. -/
inductive ItemFailure (C : Type) where
  | finish
  | failFast
  | capture (captures : List (CaptureUpdate C))

/-- The fields of a map beside its body. -/
structure Map (C : Type) where
  list : Key
  item : Key
  maxConcurrency : Option Limit
  onItemFailure : ItemFailure C

inductive CheckSite where
  | graph
  | mapBody
  deriving DecidableEq, Repr

/-- A node: a host's, whose run is host code; a call of another graph, which resolves the state
and the configuration of the called graph before it runs it; or a map of a body over the items of
a list. -/
inductive Node (C : Type) [Conversation C] where
  | host (check : Schema C → CheckSite → Except (GraphError C) Unit)
  | call (check : Schema C → CheckSite → Except (GraphError C) Unit)
      (start : State C → Config C → Except (GraphError C) Unit)
  | map (fields : Map C) (body : Node C)

/-- `Map::check` of the map's own keys, limit and captures. -/
def Map.check (schema : Schema C) (fields : Map C) : Except (GraphError C) Unit :=
  let fits : Bool := match schema.stateKind fields.list, schema.stateKind fields.item with
    | some (.list element), some kind => element == kind
    | _, _ => false
  if fits then do
    match fields.maxConcurrency with
    | some limit => limit.check schema
    | none => .ok ()
    match fields.onItemFailure with
    | .capture captures => captures.forM (CaptureUpdate.check schema)
    | .finish | .failFast => .ok ()
  else .error (.MapKeyMismatch fields.list fields.item)

def Node.check (schema : Schema C) : Node C → CheckSite → Except (GraphError C) Unit
  | .host check, site => check schema site
  | .call check _, site => check schema site
  | .map fields body, _ => do
      fields.check schema
      body.check schema .mapBody

/-- An edge: the targets after its node, host code called at the moment `now`, and the targets it
declares. -/
structure Edge (C : Type) [Conversation C] where
  next : (now : Nat) → State C → Config C → Except (GraphError C) (List Target)
  declared : Option (List Target)

/-- The edge of a node, with the targets it declared when the graph was built. -/
structure EdgeEntry (C : Type) [Conversation C] where
  edge : Edge C
  declared : Option (List Target)

/-- A target declared twice is kept once, at its first place. -/
def EdgeEntry.new (edge : Edge C) : EdgeEntry C := ⟨edge, edge.declared.map (pushAll [])⟩

structure NodeEntry (C : Type) [Conversation C] where
  node : Node C
  isJoin : Bool

/-- A built graph: its nodes in registration order, each with its edge, and its entry one of
them. -/
structure Graph (C : Type) [Conversation C] where
  schema : Schema C
  privateKeys : List (Key × Kind)
  runSchema : Schema C
  entry : NodeId
  nodes : List (NodeId × NodeEntry C)
  edges : List (NodeId × EdgeEntry C)
  order_nodup : (nodes.map Prod.fst).Nodup
  entry_known : entry ∈ nodes.map Prod.fst
  edge_known : ∀ id ∈ nodes.map Prod.fst, (edges.lookup id).isSome
  declared_known : ∀ id ∈ nodes.map Prod.fst, ∀ entry, edges.lookup id = some entry →
    ∀ targets, entry.declared = some targets →
      ∀ target, .Node target ∈ targets → target ∈ nodes.map Prod.fst

namespace Graph

variable (graph : Graph C)

def order : List NodeId := graph.nodes.map Prod.fst

def node (id : NodeId) : Option (Node C) := (graph.nodes.lookup id).map NodeEntry.node

def isJoin (id : NodeId) : Bool := ((graph.nodes.lookup id).map NodeEntry.isJoin).getD false

def edge (id : NodeId) : Option (EdgeEntry C) := graph.edges.lookup id

def contains (id : NodeId) : Bool := (graph.nodes.lookup id).isSome

theorem contains_iff (id : NodeId) : graph.contains id = true ↔ id ∈ graph.order := by
  simp only [contains, order, List.lookup_isSome_iff, List.mem_map, beq_iff_eq]
  constructor
  · rintro ⟨entry, hmember, rfl⟩
    exact ⟨entry, hmember, rfl⟩
  · rintro ⟨entry, hmember, rfl⟩
    exact ⟨entry, hmember, rfl⟩

theorem node_isSome (id : NodeId) : (graph.node id).isSome = true ↔ id ∈ graph.order := by
  rw [node, Option.isSome_map]
  exact graph.contains_iff id

end Graph

/-- What a graph is built from: a schema, an entry, nodes, one edge per node, and the keys it
declares as inputs and outputs. -/
structure GraphBuilder (C : Type) [Conversation C] where
  schema : Schema C
  privateKeys : List (Key × Kind)
  entry : Option NodeId
  nodes : List (NodeId × NodeEntry C)
  edges : List (NodeId × Edge C)
  inputs : List Key
  outputs : List Key

namespace GraphBuilder

variable (builder : GraphBuilder C)

def order : List NodeId := builder.nodes.map Prod.fst

/-- `Signature::resolve` of the inputs or the outputs: each a state key, declared once. -/
def resolve (twice : Key → GraphError C) (held : List Key) : List Key → Except (GraphError C) Unit
  | [] => .ok ()
  | key :: rest =>
      if (builder.schema.stateKind key).isNone then .error (.UnknownKey key)
      else if key ∈ held then .error (twice key)
      else resolve twice (key :: held) rest

/-- The private keys may not be keys of the schema. -/
def checkPrivate : Except (GraphError C) Unit :=
  builder.privateKeys.forM fun (key, _) =>
    if (builder.schema.stateKind key).isSome then .error (.KeyCollision key) else .ok ()

def runSchema : Schema C := { builder.schema with
  state := builder.schema.state ++ builder.privateKeys }

/-- Every edge starts from a node, and no other starts from it. -/
def checkEdges (held : List NodeId) : List (NodeId × Edge C) → Except (GraphError C) Unit
  | [] => .ok ()
  | (id, _) :: rest =>
      if id ∉ builder.order then .error (.EdgeFromUnknownNode id)
      else if id ∈ held then .error (.DuplicateEdge id)
      else checkEdges (id :: held) rest

def edgeEntries : List (NodeId × EdgeEntry C) :=
  builder.edges.map fun (id, edge) => (id, EdgeEntry.new edge)

/-- The first node without an edge. -/
def edgeless : Option NodeId := builder.order.find? fun id => (builder.edgeEntries.lookup id).isNone

/-- The first node whose check fails. -/
def checkNodes : Except (GraphError C) Unit :=
  builder.nodes.forM fun (id, entry) =>
    match entry.node.check builder.runSchema .graph with
    | .error source => .error (.InvalidNode id source)
    | .ok () => .ok ()

/-- The node targets that the edge of a node declares. -/
def declaredNodes (id : NodeId) : List NodeId :=
  match builder.edgeEntries.lookup id with
  | some ⟨_, some targets⟩ => targets.filterMap fun target =>
      match target with
      | .Node id => some id
      | .End _ => none
  | _ => []

/-- The first node whose edge declares a node the graph does not hold, with that node. -/
def strayTarget : Option (NodeId × NodeId) :=
  (builder.order.flatMap fun id => (builder.declaredNodes id).map fun target => (id, target)).find?
    fun pair => pair.2 ∉ builder.order

private theorem edge_known (hall : builder.edgeless = none) (id : NodeId)
    (hmember : id ∈ builder.order) : (builder.edgeEntries.lookup id).isSome = true := by
  have hpresent := List.find?_eq_none.mp hall id hmember
  simpa using hpresent

private theorem declared_known (hall : builder.strayTarget = none) (id : NodeId)
    (hmember : id ∈ builder.order) (entry : EdgeEntry C)
    (hfound : builder.edgeEntries.lookup id = some entry) (targets : List Target)
    (hdeclared : entry.declared = some targets) (target : NodeId)
    (hnamed : .Node target ∈ targets) : target ∈ builder.order := by
  have hlisted : target ∈ builder.declaredNodes id := by
    obtain ⟨edge, given⟩ := entry
    cases hdeclared
    simp only [declaredNodes, hfound, List.mem_filterMap]
    exact ⟨_, hnamed, rfl⟩
  have hchecked := List.find?_eq_none.mp hall (id, target)
    (List.mem_flatMap.mpr ⟨id, hmember, List.mem_map_of_mem hlisted⟩)
  simpa using hchecked

/-- The graph, or the first refusal, in the order of the source. -/
def build : Except (GraphError C) (Graph C) := do
  builder.schema.checkDefaults
  builder.resolve .DuplicateInput [] builder.inputs
  builder.resolve .DuplicateOutput [] builder.outputs
  builder.checkPrivate
  match hdistinct : firstTwice [] builder.order with
  | some id => .error (.DuplicateNode id)
  | none =>
      match builder.entry with
      | none => .error .MissingEntry
      | some entry =>
          if hknown : entry ∈ builder.order then do
            builder.checkEdges [] builder.edges
            match hcomplete : builder.edgeless with
            | some id => .error (.NodeWithoutEdge id)
            | none => do
                builder.checkNodes
                match hdeclared : builder.strayTarget with
                | some (node, target) => .error (.EdgeToUnknownNode node target)
                | none => .ok {
                    schema := builder.schema
                    privateKeys := builder.privateKeys
                    runSchema := builder.runSchema
                    entry := entry
                    nodes := builder.nodes
                    edges := builder.edgeEntries
                    order_nodup := (Lib.firstTwice_none hdistinct).1
                    entry_known := hknown
                    edge_known := builder.edge_known hcomplete
                    declared_known := builder.declared_known hdeclared }
          else .error (.UnknownEntry entry)

end GraphBuilder

/-- Where a run stands between two supersteps: the nodes to run next, and the join nodes deferred
while other nodes are left to run. -/
structure Cursor where
  active : List NodeId
  deferred : List NodeId
  deriving DecidableEq, Repr

def Cursor.isEmpty (cursor : Cursor) : Bool := cursor.active.isEmpty && cursor.deferred.isEmpty

namespace Graph

variable (graph : Graph C)

/-- The first node that a cursor names and the graph does not hold. -/
def validateCursor (cursor : Cursor) : Except (GraphError C) Unit :=
  match (cursor.active ++ cursor.deferred).find? fun id => !graph.contains id with
  | some id => .error (.UnknownNode id)
  | none => .ok ()

/-- A run takes a state and a configuration made from the graph's schema. -/
def checkSchemas [DecidableEq C] (state : State C) (config : Config C) :
    Except (GraphError C) Unit :=
  if state.schema ≠ graph.schema then .error .StateSchemaMismatch
  else if config.schema ≠ graph.schema.config then .error .ConfigSchemaMismatch
  else .ok ()

def hasPrivate : Bool := !graph.privateKeys.isEmpty

/-- The state a run works on: the private keys at their start values. -/
def enterPrivate [DecidableEq C] (state : State C) : State C :=
  if !graph.hasPrivate || state.schema = graph.runSchema then state
  else state.extended graph.runSchema

/-- What a run gives back of a state: the state without the private keys. -/
def leavePrivate [DecidableEq C] (state : State C) : State C :=
  if !graph.hasPrivate || state.schema = graph.schema then state
  else state.restricted graph.schema

/-- The cursor a checkpoint names: the entry for a graph with private keys, unless the run has
ended. -/
def checkpointCursor (cursor : Cursor) : Cursor :=
  if !graph.hasPrivate || cursor.isEmpty then cursor else ⟨[graph.entry], []⟩

variable {graph}

theorem validateCursor_ok {cursor : Cursor} (hvalid : graph.validateCursor cursor = .ok ()) :
    ∀ id ∈ cursor.active ++ cursor.deferred, id ∈ graph.order := by
  unfold validateCursor at hvalid
  split at hvalid
  · cases hvalid
  · rename_i hall
    intro id hmember
    have hheld := List.find?_eq_none.mp hall id hmember
    exact (graph.contains_iff id).mp (by simpa using hheld)

theorem leavePrivate_of_none [DecidableEq C] (hopen : graph.hasPrivate = false) (state : State C) :
    graph.leavePrivate state = state := by
  simp [leavePrivate, hopen]

theorem checkpointCursor_of_none (hopen : graph.hasPrivate = false) (cursor : Cursor) :
    graph.checkpointCursor cursor = cursor := by
  simp [checkpointCursor, hopen]

end Graph

end LlmGraph.Superstep
