/- digest: The slot of a node, the record of a run, and the changes the driver makes to it. -/

import Std.Data.TreeMap.Lemmas
import LlmGraph.Executor.World

set_option autoImplicit false
set_option relaxedAutoImplicit false

namespace LlmGraph.Executor

open Contract

variable {F : Type} [Fields F]

inductive Live (F : Type) [Fields F] where
  | Absent
  | Creating (id : InstanceId) (firstInput : Shared F)
  | Running (id : InstanceId) (core : Address)

inductive Presence where
  | Absent
  | Creating
  | Running
  deriving DecidableEq, Repr

structure NodeSlot (F : Type) [Fields F] where
  kind : String
  subkind : String
  live : Live F
  held : Bool
  untaken : Bool

namespace NodeSlot

def new (kind subkind : String) : NodeSlot F := ⟨kind, subkind, .Absent, false, false⟩

def presence (slot : NodeSlot F) : Presence :=
  match slot.live with
  | .Absent => .Absent
  | .Creating .. => .Creating
  | .Running .. => .Running

def isLive (slot : NodeSlot F) : Bool := slot.presence != .Absent

def isIdle (slot : NodeSlot F) : Bool := !slot.isLive && !slot.held && !slot.untaken

def runningId (slot : NodeSlot F) : Option InstanceId :=
  match slot.live with
  | .Running id _ => some id
  | _ => none

def firstInputOfCreation (slot : NodeSlot F) (id : InstanceId) : Option (Shared F) :=
  match slot.live with
  | .Creating creating firstInput => if creating = id then some firstInput else none
  | _ => none

def hold (slot : NodeSlot F) : NodeSlot F := { slot with held := true }

def release (slot : NodeSlot F) : NodeSlot F := { slot with held := false }

def leaveUntaken (slot : NodeSlot F) : NodeSlot F := { slot with untaken := true }

def beginCreating (slot : NodeSlot F) (id : InstanceId) (firstInput : Shared F) : NodeSlot F :=
  { slot with live := .Creating id firstInput }

def becomeRunning (slot : NodeSlot F) (id : InstanceId) (core : Address) : NodeSlot F :=
  { slot with live := .Running id core }

def endInstance (slot : NodeSlot F) : NodeSlot F := { slot with live := .Absent }

def abandon (slot : NodeSlot F) : NodeSlot F := slot.endInstance.leaveUntaken

theorem isLive_iff (slot : NodeSlot F) : slot.isLive ↔ slot.live ≠ .Absent := by
  rcases slot with ⟨_, _, _ | _ | _, _, _⟩ <;> simp [isLive, presence]

theorem isIdle_iff (slot : NodeSlot F) :
    slot.isIdle ↔ slot.live = .Absent ∧ slot.held = false ∧ slot.untaken = false := by
  rcases slot with ⟨_, _, _ | _ | _, _, _⟩ <;> simp [isIdle, isLive, presence]

theorem runningId_eq_some (slot : NodeSlot F) (id : InstanceId) :
    slot.runningId = some id ↔ ∃ core, slot.live = .Running id core := by
  rcases slot with ⟨_, _, _ | _ | _, _, _⟩ <;> simp [runningId]

theorem firstInputOfCreation_eq_some (slot : NodeSlot F) (id : InstanceId) (input : Shared F) :
    slot.firstInputOfCreation id = some input ↔ slot.live = .Creating id input := by
  rcases slot with ⟨_, _, _ | ⟨creating, first⟩ | _, _, _⟩ <;> simp [firstInputOfCreation]

end NodeSlot

set_option linter.dupNamespace false in
inductive Trigger where
  | Host
  | Executor
  deriving DecidableEq, Repr

inductive Phase where
  | Running
  | Stopping (deadline : Nat) (trigger : Trigger)
  deriving DecidableEq, Repr

/-- An entry of the log of a run: what the observer is told, and beside it what the driver did,
for the statements about runs.  No function of the program reads the log. -/
inductive Fact (F : Type) [Fields F] where
  | told (observation : Observation)
  | started (names : List String)
  | creating (node : String) (id : InstanceId)
  | accepted (node : String) (id : InstanceId) (input : Shared F)
  | handled (node : String) (id : InstanceId) (result : Except EventEndError (Event F))
  | applied (node : String) (id : InstanceId) (update : Fields.Update F) (state : Shared F)
      (targets : List Target)
  | offered (checkpoint : Checkpoint)
  /-- A failure was recorded, when the token stood as told. -/
  | failed (failure : RunFailure) (triggered : Bool)
  | stopped (trigger : Trigger)
  | concluded (outcome : Outcome F)

structure Run (F : Type) [Fields F] where
  graph : Graph F
  grace : Nat
  sink : Bool
  state : Shared F
  slots : Std.TreeMap String (NodeSlot F)
  failures : List RunFailure
  phase : Phase
  /-- How many ids this run has minted; each is a value no other instance carries. -/
  minted : Nat
  log : List (Fact F)

namespace Run

/-- A node of the structure gets an idle slot when the graph holds it. -/
def addSlot (graph : Graph F) (slots : Std.TreeMap String (NodeSlot F))
    (described : StructureNode) : Std.TreeMap String (NodeSlot F) :=
  match graph.node described.name with
  | some _ => slots.insert described.name (.new described.kind described.subkind)
  | none => slots

/-- `Run::new`: one idle slot for every node of the structure that the graph holds. -/
def new (graph : Graph F) (state : State F) (grace : Nat) (sink : Bool) : Run F where
  graph := graph
  grace := grace
  sink := sink
  state := ⟨0, state⟩
  slots := graph.shape.nodes.foldl (addSlot graph) ∅
  failures := []
  phase := .Running
  minted := 0
  log := []

def note (run : Run F) (fact : Fact F) : Run F := { run with log := fact :: run.log }

def tell (run : Run F) (observation : Observation) : Run F := run.note (.told observation)

def slot (run : Run F) (name : String) : Option (NodeSlot F) := run.slots[name]?

def change (run : Run F) (name : String) (change : NodeSlot F → NodeSlot F) : Run F :=
  { run with slots := run.slots.modify name change }

def isStopping (run : Run F) : Bool :=
  match run.phase with
  | .Stopping .. => true
  | .Running => false

def stoppedByExecutor (run : Run F) : Bool :=
  match run.phase with
  | .Stopping _ .Executor => true
  | _ => false

def allIdle (run : Run F) : Bool := run.slots.toList.all (·.2.isIdle)

def anyLive (run : Run F) : Bool := run.slots.toList.any (·.2.isLive)

def nonIdleNames (run : Run F) : List String :=
  (run.slots.toList.filter (!·.2.isIdle)).map (·.1)

/-- The names whose held flag is set, in the order of the slots. -/
def heldNames (run : Run F) : List String := (run.slots.toList.filter (·.2.held)).map (·.1)

def beginStopping (run : Run F) (deadline : Nat) (trigger : Trigger) : Run F :=
  { run with phase := .Stopping deadline trigger }.note (.stopped trigger)

/-- The part of `fail` on the run itself, with the token read as `triggered`. -/
def fail (run : Run F) (triggered : Bool) (deadline : Nat) (failure : RunFailure) : Run F :=
  let run := { run with failures := run.failures ++ [failure] }.note (.failed failure triggered)
  if run.isStopping then run
  else run.beginStopping deadline (if triggered then .Host else .Executor)

def abandonAllLive (run : Run F) : Run F :=
  { run with slots := run.slots.map fun _ slot => if slot.isLive then slot.abandon else slot }

/-- An input of an instance was accepted. -/
def accept (run : Run F) (name : String) (id : InstanceId) (input : Shared F) : Run F :=
  (run.note (.accepted name id input)).tell (.InputHandedOver name id)

/-- A creation was started with the current state as the first input. -/
def create (run : Run F) (name : String) : Run F :=
  { run with minted := run.minted + 1 }.change name
    (fun slot => slot.release.beginCreating run.minted run.state) |>.note
      (.creating name run.minted)

def instanceCreated (run : Run F) (name : String) (id : InstanceId) (core : Address)
    (slot : NodeSlot F) : Run F :=
  (run.change name (·.becomeRunning id core)).tell (.InstanceCreated id name slot.kind slot.subkind)

/-- Set the held flag of every named node that has a slot. -/
def holdAll (run : Run F) (names : List String) : Run F :=
  names.foldl (fun run name => run.change name (·.hold)) run

/-- The state and the held flags after an applied step. -/
def step (run : Run F) (name : String) (id : InstanceId) (update : Fields.Update F)
    (newState : State F) (targets : List Target) : Run F :=
  let state : Shared F := ⟨run.state.step + 1, newState⟩
  let run := { run with state }.note (.applied name id update state targets)
  let run := (run.tell (.UpdateApplied name)).tell (.EdgeEvaluated name targets)
  run.holdAll (Target.names targets)

@[simp] theorem slot_note (run : Run F) (fact : Fact F) (name : String) :
    (run.note fact).slot name = run.slot name := rfl

@[simp] theorem slot_tell (run : Run F) (observation : Observation) (name : String) :
    (run.tell observation).slot name = run.slot name := rfl

@[simp] theorem slot_accept (run : Run F) (node : String) (id : InstanceId) (input : Shared F)
    (name : String) : (run.accept node id input).slot name = run.slot name := rfl

@[simp] theorem slot_beginStopping (run : Run F) (deadline : Nat) (trigger : Trigger)
    (name : String) : (run.beginStopping deadline trigger).slot name = run.slot name := rfl

@[simp] theorem slot_fail (run : Run F) (triggered : Bool) (deadline : Nat)
    (failure : RunFailure) (name : String) :
    (run.fail triggered deadline failure).slot name = run.slot name := by
  unfold fail
  dsimp only
  split <;> rfl

theorem slot_change (run : Run F) (changed : String) (change : NodeSlot F → NodeSlot F)
    (name : String) :
    (run.change changed change).slot name =
      if changed = name then (run.slot name).map change else run.slot name := by
  simp only [slot, Run.change, Std.TreeMap.getElem?_modify, Std.LawfulEqCmp.compare_eq_iff_eq]
  split
  · rename_i hsame
    rw [hsame]
  · rfl

@[simp] theorem slot_change_self (run : Run F) (name : String)
    (change : NodeSlot F → NodeSlot F) :
    (run.change name change).slot name = (run.slot name).map change := by
  simp [slot_change]

theorem slot_change_of_ne (run : Run F) {changed name : String} (hdiffers : changed ≠ name)
    (change : NodeSlot F → NodeSlot F) : (run.change changed change).slot name = run.slot name := by
  simp [slot_change, hdiffers]

theorem slot_change_at (run : Run F) {name : String} {slot : NodeSlot F}
    (hatName : run.slot name = some slot) (change : NodeSlot F → NodeSlot F) (other : String) :
    (run.change name change).slot other =
      if name = other then some (change slot) else run.slot other := by
  rw [slot_change]
  split
  · rename_i hsame
    rw [← hsame, hatName]
    rfl
  · rfl

theorem slot_abandonAllLive (run : Run F) (name : String) :
    run.abandonAllLive.slot name =
      (run.slot name).map fun slot => if slot.isLive then slot.abandon else slot := by
  simp [slot, abandonAllLive]

theorem slot_holdAll (run : Run F) (names : List String) (name : String) :
    (run.holdAll names).slot name =
      (run.slot name).map fun slot => if name ∈ names then slot.hold else slot := by
  induction names generalizing run with
  | nil => simp [holdAll]
  | cons first rest hstep =>
      have hhead : (run.holdAll (first :: rest)) = (run.change first (·.hold)).holdAll rest := rfl
      rw [hhead, hstep, slot_change]
      by_cases hsame : first = name
      · subst hsame
        rcases run.slot first with _ | slot
        · simp
        · by_cases hlater : first ∈ rest <;> simp [hlater, NodeSlot.hold]
      · have hother : name ≠ first := fun hequal => hsame hequal.symm
        simp [hsame, hother]

/-- Holding nodes touches nothing but the slots. -/
theorem holdAll_eq (run : Run F) (names : List String) :
    run.holdAll names = { run with slots := (run.holdAll names).slots } := by
  induction names generalizing run with
  | nil => rfl
  | cons first rest hstep => exact hstep (run.change first (·.hold))

@[simp] theorem holdAll_state (run : Run F) (names : List String) :
    (run.holdAll names).state = run.state := by rw [holdAll_eq]

@[simp] theorem holdAll_log (run : Run F) (names : List String) :
    (run.holdAll names).log = run.log := by rw [holdAll_eq]

@[simp] theorem holdAll_failures (run : Run F) (names : List String) :
    (run.holdAll names).failures = run.failures := by rw [holdAll_eq]

@[simp] theorem holdAll_phase (run : Run F) (names : List String) :
    (run.holdAll names).phase = run.phase := by rw [holdAll_eq]

@[simp] theorem holdAll_minted (run : Run F) (names : List String) :
    (run.holdAll names).minted = run.minted := by rw [holdAll_eq]

@[simp] theorem holdAll_graph (run : Run F) (names : List String) :
    (run.holdAll names).graph = run.graph := by rw [holdAll_eq]

/-- A new run has an idle slot for every node of its graph and no other. -/
theorem slot_new (graph : Graph F) (state : State F) (grace : Nat) (sink : Bool)
    (name : String) :
    (name ∈ graph.shape.names ↔ ((new graph state grace sink).slot name).isSome) ∧
      ∀ slot, (new graph state grace sink).slot name = some slot → slot.isIdle := by
  have hwalk : ∀ (nodes : List StructureNode) (slots : Std.TreeMap String (NodeSlot F)),
      (∀ node ∈ nodes, (graph.node node.name).isSome) →
      (∀ slot, slots[name]? = some slot → slot.isIdle) →
      ((nodes.foldl (addSlot graph) slots)[name]?.isSome ↔
        slots[name]?.isSome ∨ name ∈ nodes.map StructureNode.name) ∧
      ∀ slot, (nodes.foldl (addSlot graph) slots)[name]? = some slot → slot.isIdle := by
    intro nodes
    induction nodes with
    | nil => exact fun slots _ hidle => ⟨by simp, hidle⟩
    | cons node rest hstep =>
        intro slots hknown hidle
        obtain ⟨found, hlocated⟩ := Option.isSome_iff_exists.mp (hknown node List.mem_cons_self)
        have hadded : addSlot graph slots node =
            slots.insert node.name (.new node.kind node.subkind) := by
          simp only [addSlot, hlocated]
        rw [List.foldl_cons, hadded]
        have hinserted : ∀ slot,
            (slots.insert node.name (NodeSlot.new node.kind node.subkind))[name]? = some slot →
              slot.isIdle := by
          intro slot hatName
          rw [Std.TreeMap.getElem?_insert] at hatName
          split at hatName
          · cases hatName
            rfl
          · exact hidle slot hatName
        obtain ⟨hsomeIff, hall⟩ := hstep _ (fun other hmember =>
          hknown other (List.mem_cons_of_mem _ hmember)) hinserted
        refine ⟨?_, hall⟩
        rw [hsomeIff, Std.TreeMap.getElem?_insert, List.map_cons, List.mem_cons]
        simp only [Std.LawfulEqCmp.compare_eq_iff_eq]
        split
        · rename_i hsame
          simp [hsame]
        · rename_i hdiffers
          have hother : name ≠ node.name := fun hequal => hdiffers hequal.symm
          simp [hother]
  have hknown : ∀ node ∈ graph.shape.nodes, (graph.node node.name).isSome := by
    intro node hmember
    rw [graph.node_known]
    exact List.mem_map_of_mem hmember
  obtain ⟨hsomeIff, hidle⟩ := hwalk graph.shape.nodes ∅ hknown (by simp)
  refine ⟨?_, hidle⟩
  rw [slot, new, hsomeIff]
  simp [Structure.names]

private theorem mem_slots (run : Run F) (name : String) (slot : NodeSlot F) :
    (name, slot) ∈ run.slots.toList ↔ run.slot name = some slot := by
  simp [Run.slot, Std.TreeMap.mem_toList_iff_getElem?_eq_some]

theorem allIdle_iff (run : Run F) :
    run.allIdle ↔ ∀ name slot, run.slot name = some slot → slot.isIdle := by
  simp only [allIdle, List.all_eq_true, Prod.forall, mem_slots]

theorem anyLive_iff (run : Run F) :
    run.anyLive ↔ ∃ name slot, run.slot name = some slot ∧ slot.isLive := by
  simp only [anyLive, List.any_eq_true, Prod.exists, mem_slots]

theorem mem_nonIdleNames (run : Run F) (name : String) :
    name ∈ run.nonIdleNames ↔ ∃ slot, run.slot name = some slot ∧ slot.isIdle = false := by
  simp [nonIdleNames, slot]

/-- The nodes with some property of their slots are listed once each. -/
theorem names_nodup (run : Run F) (chosen : String × NodeSlot F → Bool) :
    ((run.slots.toList.filter chosen).map (·.1)).Nodup := by
  have hall : (run.slots.toList.map (·.1)).Nodup := by
    have hkeys := run.slots.nodup_keys
    rw [← Std.TreeMap.map_fst_toList_eq_keys] at hkeys
    exact hkeys
  exact hall.sublist (List.filter_sublist.map _)

theorem mem_heldNames (run : Run F) (name : String) :
    name ∈ run.heldNames ↔ ∃ slot, run.slot name = some slot ∧ slot.held := by
  simp [heldNames, slot]

end Run

end LlmGraph.Executor
