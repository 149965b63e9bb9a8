/- digest: Checkpoints and their wire form, what a run reports, and the checks before a start or
   a resume. -/

import LlmGraph.Contract.Instance
import LlmGraph.Contract.Wire

set_option autoImplicit false
set_option relaxedAutoImplicit false

namespace LlmGraph.Executor

open Lib (Attempt Json JsonText ReadError)
open Contract

structure Checkpoint where
  state : String
  structureOf : Structure
  nodes : List String
  deriving DecidableEq

variable {F : Type} [Fields F]

namespace Checkpoint

def toJson (checkpoint : Checkpoint) : Json :=
  .obj [("state", .str checkpoint.state), ("structure", checkpoint.structureOf.toJson),
    ("nodes", .arr (checkpoint.nodes.map .str))]

/-- The slots of `WireIn`. -/
structure Slots where
  state : Option String
  structureOf : Option Structure
  nodes : Option (List String)

def readField (describe : BuildError → String) (field : String) (value : Json) :
    Except ReadError (Slots → Slots) :=
  if field = "state" then do
    let state ← value.readString
    return fun slots => { slots with state := state }
  else if field = "structure" then do
    let structureOf ← Structure.ofJson describe value
    return fun slots => { slots with structureOf := structureOf }
  else do
    let nodes ← value.readArray Json.readString
    return fun slots => { slots with nodes := nodes }

/-- `WireIn::deserialize`: a record of the three fields, or the sequence of their values. -/
def ofJson (describe : BuildError → String) : Json → Except ReadError Checkpoint
  | .obj fields => do
      let slots ← Json.readFields ["state", "structure", "nodes"] (readField describe) []
        ⟨none, none, none⟩ fields
      let state ← Json.required slots.state "state"
      let structureOf ← Json.required slots.structureOf "structure"
      let nodes ← Json.required slots.nodes "nodes"
      return ⟨state, structureOf, nodes⟩
  | .arr [state, structureOf, nodes] => do
      let state ← state.readString
      let structureOf ← Structure.ofJson describe structureOf
      let nodes ← nodes.readArray Json.readString
      return ⟨state, structureOf, nodes⟩
  | .arr items => .error (.invalidLength items.length "struct WireIn with 3 elements")
  | _ => .error (.invalidType "struct WireIn")

theorem ofJson_toJson (describe : BuildError → String) (checkpoint : Checkpoint) :
    ofJson describe checkpoint.toJson = .ok checkpoint := by
  have hstructureOf := Structure.ofJson_toJson describe checkpoint.structureOf
  have hnodes : (Json.arr (checkpoint.nodes.map .str)).readArray Json.readString =
      .ok checkpoint.nodes := Json.readArray_map fun _ _ => rfl
  simp [ofJson, toJson, Json.readFields, readField, Json.readString, Json.required, hstructureOf,
    hnodes, bind, Except.bind, pure, Except.pure]

/-- `Checkpoint::build`: serialise the state; a panic of the host's serialiser is an error. -/
def build (now : Nat) (state : State F) (structureOf : Structure) (nodes : List String) :
    Except String Checkpoint :=
  match state.toJson now with
  | .ok text => .ok ⟨text, structureOf, nodes⟩
  | .error error => .error error.display
  | .panicked text => .error text

def unreadable (structureOf : Structure) (nodes : List String) : Checkpoint :=
  ⟨"", structureOf, nodes⟩

theorem build_nodes {now : Nat} {state : State F} {structureOf : Structure} {nodes : List String}
    {checkpoint : Checkpoint} (hbuilt : build now state structureOf nodes = .ok checkpoint) :
    checkpoint.nodes = nodes ∧ state.toJson now = .ok checkpoint.state := by
  unfold build at hbuilt
  split at hbuilt <;> cases hbuilt
  rename_i text hwritten
  exact ⟨rfl, hwritten⟩

theorem build_structureOf {now : Nat} {state : State F} {structureOf : Structure}
    {nodes : List String} {checkpoint : Checkpoint}
    (hbuilt : build now state structureOf nodes = .ok checkpoint) :
    checkpoint.structureOf = structureOf := by
  unfold build at hbuilt
  split at hbuilt <;> cases hbuilt
  rfl

end Checkpoint

inductive StartError where
  | NoNodes
  | UnknownNode (name : String)
  | DuplicateNode (name : String)
  deriving DecidableEq, Repr

inductive ResumeError where
  | VersionMismatch (checkpoint graph : String)
  | StructureMismatch (reason : String)
  | StateRejected (reason : String)
  | UnknownNode (name : String)
  | DuplicateNode (name : String)
  | NoNodes
  | Malformed (reason : String)
  deriving DecidableEq, Repr

/-- `Checkpoint::from_json_slice`. -/
def Checkpoint.fromJsonSlice (text : JsonText) (describe : BuildError → String) (json : String) :
    Except ResumeError Checkpoint :=
  match text.parse json with
  | .error error => .error (.Malformed error)
  | .ok tree =>
      match ofJson describe tree with
      | .error error => .error (.Malformed (text.explain json error))
      | .ok checkpoint => .ok checkpoint

/-- A serialised checkpoint is read back as it was. -/
theorem Checkpoint.fromJsonSlice_print (text : JsonText) (describe : BuildError → String)
    {checkpoint : Checkpoint} (hreads : text.Reads checkpoint.toJson) :
    fromJsonSlice text describe (text.print checkpoint.toJson) = .ok checkpoint := by
  have hparsed : text.parse (text.print checkpoint.toJson) = .ok checkpoint.toJson := hreads
  simp only [fromJsonSlice, hparsed, ofJson_toJson]

inductive RunFailure where
  | NodeFailed (node reason : String) (cause : Option Cause)
  | NodeRefusedInput (node reason : String)
  | NodeCouldNotStart (node reason : String) (cause : Option Cause)
  | NodeVanished (node reason : String)
  | UpdateRefused (node reason : String)
  | EdgeFailed (node reason : String) (cause : Option Cause)
  | SinkRefused (reason : String) (checkpoint : Checkpoint)
  | CheckpointNotBuilt (reason : String)
  deriving DecidableEq

inductive ObservedEvent where
  | Result
  | Failed
  | Refused
  | Cancelled
  deriving DecidableEq, Repr

inductive OutcomeKind where
  | RunEnded
  | RunFailed
  | RunCancelled
  deriving DecidableEq, Repr

inductive Observation where
  | InstanceCreated (instanceId : InstanceId) (node kind subkind : String)
  | InputHandedOver (node : String) (instanceId : InstanceId)
  | EventHandled (node : String) (instanceId : InstanceId) (event : ObservedEvent)
  | UpdateApplied (node : String)
  | EdgeEvaluated (node : String) (targets : List Target)
  | Outcome (kind : OutcomeKind)
  deriving DecidableEq, Repr

inductive Outcome (F : Type) [Fields F] where
  | RunEnded (state : State F)
  | RunFailed (failures : List RunFailure) (checkpoint : Checkpoint)
  | RunCancelled (failures : List RunFailure) (checkpoint : Checkpoint)

/-- The checkpoint an outcome carries; an ended run carries none. -/
def Outcome.checkpoint : Outcome F → Option Checkpoint
  | .RunEnded _ => none
  | .RunFailed _ checkpoint => some checkpoint
  | .RunCancelled _ checkpoint => some checkpoint

/-! The node list of a start or a resume (`node_names.rs`). -/

inductive NameFault where
  | Empty
  | Duplicate (name : String)
  | Unknown (name : String)
  deriving DecidableEq, Repr

def NameFault.toStartError : NameFault → StartError
  | .Empty => .NoNodes
  | .Duplicate name => .DuplicateNode name
  | .Unknown name => .UnknownNode name

def NameFault.toResumeError : NameFault → ResumeError
  | .Empty => .NoNodes
  | .Duplicate name => .DuplicateNode name
  | .Unknown name => .UnknownNode name

def checkNamesFrom (graph : Graph F) (seen : List String) :
    List String → Except NameFault Unit
  | [] => .ok ()
  | name :: rest =>
      if name ∈ seen then .error (.Duplicate name)
      else if (graph.node name).isNone then .error (.Unknown name)
      else checkNamesFrom graph (name :: seen) rest

def checkNames (graph : Graph F) (names : List String) : Except NameFault Unit :=
  if names.isEmpty then .error .Empty else checkNamesFrom graph [] names

private theorem checkNamesFrom_ok (graph : Graph F) (seen names : List String) :
    checkNamesFrom graph seen names = .ok () ↔
      names.Nodup ∧ (∀ name ∈ names, name ∉ seen) ∧ ∀ name ∈ names, name ∈ graph.shape.names := by
  induction names generalizing seen with
  | nil => simp [checkNamesFrom]
  | cons name rest hstep =>
      have hknown := graph.node_known name
      unfold checkNamesFrom
      split
      · rename_i hrepeated
        simp [hrepeated]
      · rename_i hunseen
        split
        · rename_i habsent
          have hunknown : name ∉ graph.shape.names := by
            rw [← hknown, Option.isNone_iff_eq_none.mp habsent]
            simp
          simp [hunknown]
        · rename_i hpresent
          have hmember : name ∈ graph.shape.names := by
            rw [← hknown]
            simpa [Option.isSome_iff_ne_none] using hpresent
          rw [hstep]
          simp only [List.nodup_cons, List.mem_cons, forall_eq_or_imp, hunseen, hmember,
            not_false_eq_true, true_and, not_or]
          constructor
          · rintro ⟨hnodup, hfresh, hall⟩
            exact ⟨⟨fun hrepeated => (hfresh _ hrepeated).1 rfl, hnodup⟩,
              fun other hlater => (hfresh other hlater).2, hall⟩
          · rintro ⟨⟨honce, hnodup⟩, hfresh, hall⟩
            refine ⟨hnodup, fun other hlater => ⟨?_, hfresh other hlater⟩, hall⟩
            rintro rfl
            exact honce hlater

/-- A node list is accepted exactly when it is non-empty, names nodes of the graph only, and
names each of them once. -/
theorem checkNames_ok (graph : Graph F) (names : List String) :
    checkNames graph names = .ok () ↔
      names ≠ [] ∧ names.Nodup ∧ ∀ name ∈ names, name ∈ graph.shape.names := by
  unfold checkNames
  rcases names with _ | ⟨name, rest⟩
  · simp
  · simp only [List.isEmpty_cons, Bool.false_eq_true, ↓reduceIte, checkNamesFrom_ok]
    simp

/-- `check_structure`: version, node names and edges must be those of the graph. -/
def checkStructure (graph : Graph F) (checkpoint : Checkpoint) : Except ResumeError Unit :=
  let wanted := graph.shape
  let given := checkpoint.structureOf
  if given.version ≠ wanted.version then .error (.VersionMismatch given.version wanted.version)
  else if given.names ≠ wanted.names then .error (.StructureMismatch "the node names differ")
  else if given.edges ≠ wanted.edges then .error (.StructureMismatch "the edges differ")
  else .ok ()

/-- `rebuild_state`. -/
def rebuildState (now : Nat) (checkpoint : Checkpoint) (limit : ℕ+) :
    Except ResumeError (State F) :=
  match State.rebuildWithLimit now checkpoint.state limit with
  | .ok state => .ok state
  | .error error => .error (.StateRejected error.display)
  | .panicked text => .error (.StateRejected text)

/-- The checks of `resume` before it drives: the node list, the structure, then the state. -/
def checkResume (graph : Graph F) (now : Nat) (checkpoint : Checkpoint) (limit : ℕ+) :
    Except ResumeError (State F) :=
  match checkNames graph checkpoint.nodes with
  | .error fault => .error fault.toResumeError
  | .ok () =>
      match checkStructure graph checkpoint with
      | .error error => .error error
      | .ok () => rebuildState now checkpoint limit

end LlmGraph.Executor
