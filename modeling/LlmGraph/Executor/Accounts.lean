/- digest: The slots of a run remember exactly what its nodes owe: the invariant behind every
   checkpoint, kept by each change of a run. -/

import LlmGraph.Executor.Refines
import LlmGraph.Lib.Debts
import LlmGraph.Lib.History

set_option autoImplicit false
set_option relaxedAutoImplicit false

namespace LlmGraph.Executor

open Contract
open Lib (Ledger Post Stage)

variable {F : Type} [Fields F]

/-- The targets, accepted inputs and applied results a log tells of, with the steps their states
were made at. -/
def ledgerOf (log : List (Fact F)) : Ledger String InstanceId Nat where
  Targeted name k :=
    (k = 0 ∧ ∃ names, Fact.started names ∈ log ∧ name ∈ names) ∨
      ∃ node id update state targets,
        Fact.applied node id update state targets ∈ log ∧ state.step = k ∧
          Target.Node name ∈ targets
  Accepted name id j := ∃ input, Fact.accepted name id input ∈ log ∧ input.step = j
  Settled name id := ∃ update state targets, Fact.applied name id update state targets ∈ log

section Entries

variable (log : List (Fact F))

@[simp] theorem ledgerOf_told (observation : Observation) :
    ledgerOf (.told observation :: log) = ledgerOf log := by
  simp [ledgerOf]

@[simp] theorem ledgerOf_creating (name : String) (id : InstanceId) :
    ledgerOf (.creating name id :: log) = ledgerOf log := by
  simp [ledgerOf]

@[simp] theorem ledgerOf_handled (name : String) (id : InstanceId)
    (result : Except EventEndError (Event F)) :
    ledgerOf (.handled name id result :: log) = ledgerOf log := by
  simp [ledgerOf]

@[simp] theorem ledgerOf_offered (checkpoint : Checkpoint) :
    ledgerOf (.offered checkpoint :: log) = ledgerOf log := by
  simp [ledgerOf]

@[simp] theorem ledgerOf_failed (failure : RunFailure) (triggered : Bool) :
    ledgerOf (.failed failure triggered :: log) = ledgerOf log := by
  simp [ledgerOf]

@[simp] theorem ledgerOf_stopped (trigger : Trigger) :
    ledgerOf (.stopped trigger :: log) = ledgerOf log := by
  simp [ledgerOf]

@[simp] theorem ledgerOf_concluded (outcome : Outcome F) :
    ledgerOf (.concluded outcome :: log) = ledgerOf log := by
  simp [ledgerOf]

@[simp] theorem ledgerOf_accepted (name : String) (id : InstanceId) (input : Shared F) :
    ledgerOf (.accepted name id input :: log) = (ledgerOf log).accept name id input.step := by
  ext n i
  · simp [ledgerOf, Ledger.accept]
  · simp only [ledgerOf, Ledger.accept, List.mem_cons, Fact.accepted.injEq]
    constructor
    · rintro ⟨given, ⟨rfl, rfl, rfl⟩ | hmember, hsame⟩
      · exact Or.inr ⟨rfl, rfl, hsame.symm⟩
      · exact Or.inl ⟨given, hmember, hsame⟩
    · rintro (⟨given, hmember, hsame⟩ | ⟨rfl, rfl, rfl⟩)
      · exact ⟨given, Or.inr hmember, hsame⟩
      · exact ⟨input, Or.inl ⟨rfl, rfl, rfl⟩, rfl⟩
  · simp [ledgerOf, Ledger.accept]

@[simp] theorem ledgerOf_applied (name : String) (id : InstanceId) (update : Fields.Update F)
    (state : Shared F) (targets : List Target) :
    ledgerOf (.applied name id update state targets :: log) =
      ((ledgerOf log).settle name id).target (fun m => Target.Node m ∈ targets) state.step := by
  ext n i
  · simp only [ledgerOf, Ledger.target, Ledger.settle, List.mem_cons, reduceCtorEq, false_or,
      Fact.applied.injEq]
    constructor
    · rintro (hstarted | ⟨node, other, given, next, chosen, hmember, rfl, hmemberN⟩)
      · exact Or.inl (Or.inl hstarted)
      · rcases hmember with ⟨rfl, rfl, rfl, rfl, rfl⟩ | hmember
        · exact Or.inr ⟨hmemberN, rfl⟩
        · exact Or.inl (Or.inr ⟨node, other, given, next, chosen, hmember, rfl, hmemberN⟩)
    · rintro ((hstarted | ⟨node, other, given, next, chosen, hmember, rfl, hmemberN⟩) |
        ⟨hmemberN, rfl⟩)
      · exact Or.inl hstarted
      · exact Or.inr ⟨node, other, given, next, chosen, Or.inr hmember, rfl, hmemberN⟩
      · exact Or.inr ⟨name, id, update, state, targets, Or.inl ⟨rfl, rfl, rfl, rfl, rfl⟩, rfl,
          hmemberN⟩
  · simp [ledgerOf, Ledger.target, Ledger.settle]
  · simp only [ledgerOf, Ledger.target, Ledger.settle, List.mem_cons, Fact.applied.injEq]
    constructor
    · rintro ⟨given, next, chosen, ⟨rfl, rfl, -⟩ | hmember⟩
      · exact Or.inr ⟨rfl, rfl⟩
      · exact Or.inl ⟨given, next, chosen, hmember⟩
    · rintro (⟨given, next, chosen, hmember⟩ | ⟨rfl, rfl⟩)
      · exact ⟨given, next, chosen, Or.inr hmember⟩
      · exact ⟨update, state, targets, Or.inl ⟨rfl, rfl, rfl, rfl, rfl⟩⟩

end Entries

/-- The ledger of a log that starts with the held names. -/
theorem ledgerOf_started (names : List String) (name : String) (k : Nat) :
    ((ledgerOf [(.started names : Fact F)]).Targeted name k ↔ k = 0 ∧ name ∈ names) := by
  simp [ledgerOf]

section Fields

variable (run : Run F)

@[simp] theorem ledgerOf_fail (triggered : Bool) (deadline : Nat) (failure : RunFailure) :
    ledgerOf (run.fail triggered deadline failure).log = ledgerOf run.log := by
  unfold Run.fail
  dsimp only
  split <;> simp [Run.note, Run.beginStopping]

@[simp] theorem ledgerOf_ending (name : String) (id : InstanceId)
    (result : Except EventEndError (Event F)) :
    ledgerOf (run.ending name id result).log = ledgerOf run.log := by
  rcases result with _ | _ <;> simp [Run.ending, Run.note, Run.tell, Run.change]

@[simp] theorem fail_isStopping (triggered : Bool) (deadline : Nat) (failure : RunFailure) :
    (run.fail triggered deadline failure).isStopping = true := by
  unfold Run.fail
  dsimp only
  split
  · assumption
  · rfl

@[simp] theorem fail_state (triggered : Bool) (deadline : Nat) (failure : RunFailure) :
    (run.fail triggered deadline failure).state = run.state := by
  unfold Run.fail
  dsimp only
  split <;> rfl

@[simp] theorem fail_graph (triggered : Bool) (deadline : Nat) (failure : RunFailure) :
    (run.fail triggered deadline failure).graph = run.graph := by
  unfold Run.fail
  dsimp only
  split <;> rfl

@[simp] theorem fail_minted (triggered : Bool) (deadline : Nat) (failure : RunFailure) :
    (run.fail triggered deadline failure).minted = run.minted := by
  unfold Run.fail
  dsimp only
  split <;> rfl

@[simp] theorem ending_minted (name : String) (id : InstanceId)
    (result : Except EventEndError (Event F)) :
    (run.ending name id result).minted = run.minted := by
  rcases result with _ | _ <;> rfl

@[simp] theorem ending_isStopping (name : String) (id : InstanceId)
    (result : Except EventEndError (Event F)) :
    (run.ending name id result).isStopping = run.isStopping := by
  rcases result with _ | _ <;> rfl

@[simp] theorem slot_ending (name : String) (id : InstanceId)
    (result : Except EventEndError (Event F)) (other : String) :
    (run.ending name id result).slot other = (run.change name (·.endInstance)).slot other := by
  rcases result with _ | _ <;> rfl

/-- The slots after the instance of a node is lost and its work left behind. -/
theorem Run.slot_lost {name : String} {slot : NodeSlot F} (hatName : run.slot name = some slot)
    (id : InstanceId) (result : Except EventEndError (Event F)) (other : String) :
    ((run.ending name id result).change name (·.leaveUntaken)).slot other =
      if name = other then some slot.endInstance.leaveUntaken else run.slot other := by
  have hended := run.slot_change_at hatName (·.endInstance)
  have hatEnded : (run.ending name id result).slot name = some slot.endInstance :=
    (slot_ending _ _ _ _ _).trans ((hended name).trans (if_pos rfl))
  rw [Run.slot_change_at _ hatEnded (·.leaveUntaken) other, slot_ending, hended]
  split <;> rfl

end Fields

/-- The slot as the ledger sees it. -/
def NodeSlot.post (slot : NodeSlot F) : Post InstanceId Nat where
  stage := match slot.live with
    | .Absent => .absent
    | .Creating id firstInput => .creating id firstInput.step
    | .Running id _ => .running id
  held := slot.held = true
  untaken := slot.untaken = true

def NodeSlot.liveId (slot : NodeSlot F) : Option InstanceId :=
  match slot.live with
  | .Absent => none
  | .Creating id _ => some id
  | .Running id _ => some id

theorem NodeSlot.post_idle (slot : NodeSlot F) : slot.post.Idle ↔ slot.isIdle = true := by
  rcases slot with ⟨_, _, _ | _ | _, held, untaken⟩ <;>
    simp [Post.Idle, NodeSlot.post, NodeSlot.isIdle, NodeSlot.isLive, NodeSlot.presence]

/-- The accounts of a run are in order. -/
structure Accounts (run : Run F) : Prop where
  keeps : ∀ name slot, run.slot name = some slot →
    slot.post.Keeps (ledgerOf run.log) run.state.step name
  bounded : (ledgerOf run.log).Bounded run.state.step
  fresh : ∀ name id, run.minted ≤ id → (ledgerOf run.log).Fresh name id
  ids : ∀ name slot id, run.slot name = some slot → slot.liveId = some id → id < run.minted
  slots : ∀ name, name ∈ run.graph.shape.names ↔ (run.slot name).isSome = true
  known : ∀ name k, (ledgerOf run.log).Targeted name k → name ∈ run.graph.shape.names
  taken : ∀ name slot, run.slot name = some slot → slot.untaken = true → run.isStopping = true

namespace Accounts

/-- A node is idle exactly when it owes nothing. -/
theorem idle_iff {run : Run F} (haccounts : Accounts run) {name : String} {slot : NodeSlot F}
    (hatName : run.slot name = some slot) :
    slot.isIdle = true ↔ ¬(ledgerOf run.log).Owes name := by
  rw [← slot.post_idle]
  exact (haccounts.keeps name slot hatName).idle_iff

/-- The names a checkpoint takes are those of the nodes that owe work. -/
theorem mem_nonIdleNames {run : Run F} (haccounts : Accounts run) (name : String) :
    name ∈ run.nonIdleNames ↔ (ledgerOf run.log).Owes name := by
  rw [Run.mem_nonIdleNames]
  constructor
  · rintro ⟨slot, hatName, hbusy⟩
    by_contra hclear
    rw [(haccounts.idle_iff hatName).mpr hclear] at hbusy
    cases hbusy
  · intro howes
    obtain ⟨k, htargeted, hunresolved⟩ := howes
    obtain ⟨slot, hatName⟩ := Option.isSome_iff_exists.mp
      ((haccounts.slots name).mp (haccounts.known name k htargeted))
    refine ⟨slot, hatName, ?_⟩
    rcases hidle : slot.isIdle with _ | _
    · rfl
    · exact absurd ⟨k, htargeted, hunresolved⟩ ((haccounts.idle_iff hatName).mp hidle)

/-- Under the fresh id of a creation in progress nothing was accepted yet. -/
theorem nothing_accepted {run : Run F} (haccounts : Accounts run) {name : String}
    {slot : NodeSlot F} {id : InstanceId} {firstInput : Shared F}
    (hatName : run.slot name = some slot) (hcreating : slot.live = .Creating id firstInput)
    (input : Shared F) : .accepted name id input ∉ run.log := by
  intro haccepted
  have hkeeps := haccounts.keeps name slot hatName
  rcases slot with ⟨kind, subkind, live, isHeld, isUntaken⟩
  cases hcreating
  exact hkeeps.2.2.1.accepted input.step ⟨input, haccepted, rfl⟩

/-- A change that concerns neither slots nor ledger. -/
theorem quiet {run run' : Run F} (haccounts : Accounts run)
    (hslots : ∀ name, run'.slot name = run.slot name)
    (hledger : ledgerOf run'.log = ledgerOf run.log) (hstate : run'.state = run.state)
    (hgraph : run'.graph = run.graph) (hminted : run'.minted = run.minted)
    (hstopping : run.isStopping = true → run'.isStopping = true) : Accounts run' where
  keeps name slot hatName := by
    rw [hledger, hstate]
    exact haccounts.keeps name slot (hslots name ▸ hatName)
  bounded := by
    rw [hledger, hstate]
    exact haccounts.bounded
  fresh name id habove := by
    rw [hledger]
    exact haccounts.fresh name id (hminted ▸ habove)
  ids name slot id hatName halive := by
    rw [hminted]
    exact haccounts.ids name slot id (hslots name ▸ hatName) halive
  slots name := by
    rw [hgraph, hslots]
    exact haccounts.slots name
  known name k htargeted := by
    rw [hgraph]
    exact haccounts.known name k (hledger ▸ htargeted)
  taken name slot hatName huntaken :=
    hstopping (haccounts.taken name slot (hslots name ▸ hatName) huntaken)

/-- A change of one slot, with an accepted input of its own instance at most. -/
theorem one {run run' : Run F} (haccounts : Accounts run) {name : String}
    {slot : NodeSlot F} (hatName : run.slot name = some slot) (slot' : NodeSlot F)
    (hslots : ∀ other, run'.slot other = if name = other then some slot' else run.slot other)
    (hledger : ledgerOf run'.log = ledgerOf run.log ∨
      ∃ id j, id < run'.minted ∧ j ≤ run.state.step ∧
        ledgerOf run'.log = (ledgerOf run.log).accept name id j)
    (hstate : run'.state = run.state) (hgraph : run'.graph = run.graph)
    (hminted : run.minted ≤ run'.minted)
    (hstopping : run.isStopping = true → run'.isStopping = true)
    (hkeeps : slot'.post.Keeps (ledgerOf run'.log) run.state.step name)
    (hids : ∀ id, slot'.liveId = some id → id < run'.minted)
    (htaken : slot'.untaken = true → run'.isStopping = true) : Accounts run' where
  keeps other found hatOther := by
    rw [hslots] at hatOther
    rw [hstate]
    split at hatOther
    · rename_i hsame
      cases hatOther
      exact hsame ▸ hkeeps
    · rename_i hdiffers
      refine (haccounts.keeps other found hatOther).frame le_rfl ?_ ?_ ?_
      all_goals
        rcases hledger with hsame | ⟨id, j, -, -, hsame⟩
        · simp [hsame]
        · have hdistinct : other ≠ name := fun hequal => hdiffers hequal.symm
          simp [hsame, Ledger.accept, hdistinct]
  bounded := by
    rw [hstate]
    rcases hledger with hsame | ⟨id, j, -, hearly, hsame⟩
    · rw [hsame]
      exact haccounts.bounded
    · rw [hsame]
      refine ⟨haccounts.bounded.targeted, ?_⟩
      rintro n i x (haccepted | ⟨-, -, rfl⟩)
      · exact haccounts.bounded.accepted n i x haccepted
      · exact hearly
  fresh other id habove := by
    have hold := haccounts.fresh other id (hminted.trans habove)
    rcases hledger with hsame | ⟨used, j, hbelow, -, hsame⟩
    · rw [hsame]
      exact hold
    · rw [hsame]
      refine ⟨?_, hold.settled⟩
      rintro x (haccepted | ⟨-, rfl, -⟩)
      · exact hold.accepted x haccepted
      · omega
  ids other found id hatOther halive := by
    rw [hslots] at hatOther
    split at hatOther
    · cases hatOther
      exact hids id halive
    · exact (haccounts.ids other found id hatOther halive).trans_le hminted
  slots other := by
    rw [hgraph, hslots]
    split
    · rename_i hsame
      rw [haccounts.slots, ← hsame, hatName]
      rfl
    · exact haccounts.slots other
  known other k htargeted := by
    rw [hgraph]
    apply haccounts.known other k
    rcases hledger with hsame | ⟨id, j, -, -, hsame⟩
    · exact hsame ▸ htargeted
    · rw [hsame] at htargeted
      exact htargeted
  taken other found hatOther huntaken := by
    rw [hslots] at hatOther
    split at hatOther
    · cases hatOther
      exact htaken huntaken
    · exact hstopping (haccounts.taken other found hatOther huntaken)

/-- The creation of a held node without a worker. -/
theorem create {run : Run F} (haccounts : Accounts run) {name : String} {slot : NodeSlot F}
    (hatName : run.slot name = some slot) (habsent : slot.live = .Absent)
    (hheld : slot.held = true) (hrunning : run.isStopping = false) : Accounts (run.create name) := by
  have htaken : ¬slot.untaken = true := by
    intro huntaken
    rw [haccounts.taken name slot hatName huntaken] at hrunning
    cases hrunning
  have hkeeps := haccounts.keeps name slot hatName
  rcases slot with ⟨kind, subkind, live, isHeld, isUntaken⟩
  cases habsent
  have hbegun := hkeeps.create run.minted hheld htaken
    (haccounts.fresh name _ le_rfl) haccounts.bounded
  have hlog : ledgerOf (run.create name).log = ledgerOf run.log := ledgerOf_creating _ _ _
  refine haccounts.one hatName _ (Run.slot_change_at _ hatName _) (.inl hlog) rfl rfl (Nat.le_succ _)
    (fun hstopping => hstopping) ?_ ?_ ?_
  · rw [hlog]
    simpa [NodeSlot.post, NodeSlot.beginCreating, NodeSlot.release] using hbegun
  · intro id halive
    cases halive
    exact Nat.lt_succ_self _
  · exact fun huntaken => absurd huntaken htaken

/-- A slot is left behind as the run fails. -/
theorem leave {run run₁ : Run F} (haccounts : Accounts run) {name : String}
    {slot : NodeSlot F} (triggered : Bool) (deadline : Nat) (failure : RunFailure)
    (hatName : run.slot name = some slot) (slot' : NodeSlot F)
    (hslots : ∀ other, run₁.slot other = if name = other then some slot' else run.slot other)
    (hledger : ledgerOf run₁.log = ledgerOf run.log) (hstate : run₁.state = run.state)
    (hgraph : run₁.graph = run.graph) (hminted : run₁.minted = run.minted)
    (hkeeps : slot'.post.Keeps (ledgerOf run.log) run.state.step name)
    (hdead : slot'.liveId = none) : Accounts (run₁.fail triggered deadline failure) := by
  have hlog : ledgerOf (run₁.fail triggered deadline failure).log = ledgerOf run.log := by
    rw [ledgerOf_fail, hledger]
  refine haccounts.one hatName slot' (fun other => by rw [Run.slot_fail, hslots]) (.inl hlog) ?_ ?_
    ?_ ?_ ?_ ?_ ?_
  · rw [fail_state, hstate]
  · rw [fail_graph, hgraph]
  · rw [fail_minted, hminted]
  · exact fun _ => fail_isStopping _ _ _ _
  · exact hlog ▸ hkeeps
  · intro id halive
    rw [hdead] at halive
    cases halive
  · exact fun _ => fail_isStopping _ _ _ _

theorem notMinted {run : Run F} (haccounts : Accounts run) {name : String} {slot : NodeSlot F}
    (triggered : Bool) (deadline : Nat) (failure : RunFailure)
    (hatName : run.slot name = some slot) (habsent : slot.live = .Absent)
    (hheld : slot.held = true) :
    Accounts ((run.change name (·.leaveUntaken)).fail triggered deadline failure) := by
  have hkeeps := haccounts.keeps name slot hatName
  rcases slot with ⟨kind, subkind, live, isHeld, isUntaken⟩
  cases habsent
  refine haccounts.leave triggered deadline failure hatName _
    (Run.slot_change_at _ hatName _) rfl rfl rfl
    rfl ?_ rfl
  simpa [NodeSlot.post, NodeSlot.leaveUntaken] using hkeeps.leave hheld

theorem notCreated {run : Run F} (haccounts : Accounts run) {name : String} {slot : NodeSlot F}
    {id : InstanceId} {firstInput : Shared F} (triggered : Bool) (deadline : Nat)
    (failure : RunFailure) (hatName : run.slot name = some slot)
    (hcreating : slot.live = .Creating id firstInput) :
    Accounts (((run.change name (·.endInstance.hold)).change name (·.leaveUntaken)).fail
      triggered deadline failure) := by
  have hkeeps := haccounts.keeps name slot hatName
  rcases slot with ⟨kind, subkind, live, isHeld, isUntaken⟩
  cases hcreating
  have hended := run.slot_change_at hatName (·.endInstance.hold)
  refine haccounts.leave triggered deadline failure hatName
    (NodeSlot.endInstance ⟨kind, subkind, .Creating id firstInput, isHeld, isUntaken⟩).hold.leaveUntaken
    (fun other => ?_) rfl rfl rfl rfl ?_ rfl
  · rw [Run.slot_change_at _ ((hended name).trans (if_pos rfl)) (·.leaveUntaken) other, hended]
    split <;> rfl
  · simpa [NodeSlot.post, NodeSlot.leaveUntaken, NodeSlot.endInstance, NodeSlot.hold] using
      hkeeps.notCreated

/-- The running instance of a node ends and leaves its work behind. -/
theorem lose {run : Run F} (haccounts : Accounts run) {name : String} {slot : NodeSlot F}
    {id : InstanceId} {core : Address} (result : Except EventEndError (Event F))
    (hatName : run.slot name = some slot) (halive : slot.live = .Running id core)
    {run' : Run F} (hslots : ∀ other,
      run'.slot other = ((run.ending name id result).change name (·.leaveUntaken)).slot other)
    (hledger : ledgerOf run'.log = ledgerOf run.log) (hstate : run'.state = run.state)
    (hgraph : run'.graph = run.graph) (hminted : run'.minted = run.minted)
    (hstopping : run'.isStopping = true) : Accounts run' := by
  have hkeeps := haccounts.keeps name slot hatName
  have hlost := run.slot_lost hatName id result
  rcases slot with ⟨kind, subkind, live, isHeld, isUntaken⟩
  cases halive
  refine haccounts.one hatName
    (NodeSlot.endInstance ⟨kind, subkind, .Running id core, isHeld, isUntaken⟩).leaveUntaken
    (fun other => (hslots other).trans (hlost other)) (.inl hledger) hstate hgraph hminted.ge
    (fun _ => hstopping) ?_ (fun _ hdead => (by cases hdead)) (fun _ => hstopping)
  · rw [hledger]
    simpa [NodeSlot.post, NodeSlot.leaveUntaken, NodeSlot.endInstance] using
      hkeeps.lose (by simp)

theorem created {run : Run F} (haccounts : Accounts run) {name : String} {slot : NodeSlot F}
    {id : InstanceId} {firstInput : Shared F} (core : Address)
    (hatName : run.slot name = some slot) (hcreating : slot.live = .Creating id firstInput) :
    Accounts ((run.instanceCreated name id core slot).accept name id firstInput) := by
  have hkeeps := haccounts.keeps name slot hatName
  have hbelow : id < run.minted :=
    haccounts.ids name slot id hatName (by simp [NodeSlot.liveId, hcreating])
  have htaken := haccounts.taken name slot hatName
  have hledger : ledgerOf ((run.instanceCreated name id core slot).accept name id firstInput).log =
      (ledgerOf run.log).accept name id firstInput.step := by
    simp [Run.accept, Run.instanceCreated, Run.note, Run.tell, Run.change]
  rcases slot with ⟨kind, subkind, live, isHeld, isUntaken⟩
  cases hcreating
  refine haccounts.one hatName _ (Run.slot_change_at _ hatName _)
    (.inr ⟨id, firstInput.step, hbelow, hkeeps.2.1, hledger⟩) rfl rfl le_rfl
    (fun hstopping => hstopping) ?_ ?_ htaken
  · rw [hledger]
    simpa [NodeSlot.post, NodeSlot.becomeRunning] using hkeeps.created
  · intro other halive
    cases halive
    exact hbelow

theorem createdShut {run : Run F} (haccounts : Accounts run) {name : String} {slot : NodeSlot F}
    {id : InstanceId} {firstInput : Shared F} (core : Address)
    (hatName : run.slot name = some slot) (hcreating : slot.live = .Creating id firstInput) :
    Accounts ((run.instanceCreated name id core slot).change name (·.hold)) := by
  have hkeeps := haccounts.keeps name slot hatName
  have hbelow : id < run.minted :=
    haccounts.ids name slot id hatName (by simp [NodeSlot.liveId, hcreating])
  have htaken := haccounts.taken name slot hatName
  have hledger : ledgerOf ((run.instanceCreated name id core slot).change name (·.hold)).log =
      ledgerOf run.log := ledgerOf_told _ _
  have hborn := run.slot_change_at hatName (·.becomeRunning id core)
  rcases slot with ⟨kind, subkind, live, isHeld, isUntaken⟩
  cases hcreating
  refine haccounts.one hatName
    (NodeSlot.becomeRunning ⟨kind, subkind, .Creating id firstInput, isHeld, isUntaken⟩ id core).hold
    (fun other => ?_) (.inl hledger) rfl rfl le_rfl (fun hstopping => hstopping) ?_ ?_ htaken
  · refine (Run.slot_change_at (run.instanceCreated name id core _) ((hborn name).trans (if_pos rfl))
      (·.hold) other).trans ?_
    split
    · rfl
    · rename_i hdiffers
      exact (hborn other).trans (if_neg hdiffers)
  · rw [hledger]
    simpa [NodeSlot.post, NodeSlot.becomeRunning, NodeSlot.hold] using hkeeps.createdShut
  · intro other halive
    cases halive
    exact hbelow

theorem give {run : Run F} (haccounts : Accounts run) {name : String} {slot : NodeSlot F}
    {id : InstanceId} {core : Address} (hatName : run.slot name = some slot)
    (halive : slot.live = .Running id core) :
    Accounts ((run.accept name id run.state).change name (·.release)) := by
  have hkeeps := haccounts.keeps name slot hatName
  have hbelow : id < run.minted :=
    haccounts.ids name slot id hatName (by simp [NodeSlot.liveId, halive])
  have htaken := haccounts.taken name slot hatName
  have hledger : ledgerOf ((run.accept name id run.state).change name (·.release)).log =
      (ledgerOf run.log).accept name id run.state.step := by
    simp [Run.accept, Run.note, Run.tell, Run.change]
  rcases slot with ⟨kind, subkind, live, isHeld, isUntaken⟩
  cases halive
  refine haccounts.one hatName _ (Run.slot_change_at _ hatName _)
    (.inr ⟨id, run.state.step, hbelow, le_rfl, hledger⟩) rfl rfl le_rfl
    (fun hstopping => hstopping) ?_ ?_ htaken
  · rw [hledger]
    simpa [NodeSlot.post, NodeSlot.release] using hkeeps.give haccounts.bounded
  · intro other hsame
    cases hsame
    exact hbelow

/-- Every live instance is abandoned. -/
theorem abandon {run : Run F} (haccounts : Accounts run) (hstopping : run.isStopping = true) :
    Accounts run.abandonAllLive where
  keeps name slot' hatName := by
    rw [Run.slot_abandonAllLive] at hatName
    obtain ⟨slot, hfound, rfl⟩ := Option.map_eq_some_iff.mp hatName
    have hkeeps := haccounts.keeps name slot hfound
    change Post.Keeps _ (ledgerOf run.log) run.state.step name
    split
    · rename_i hlive
      have halive : slot.post.stage ≠ .absent := by
        rcases slot with ⟨_, _, _ | _ | _, _, _⟩ <;>
          simp_all [NodeSlot.isLive, NodeSlot.presence, NodeSlot.post]
      simpa [NodeSlot.post, NodeSlot.abandon, NodeSlot.endInstance, NodeSlot.leaveUntaken] using
        hkeeps.lose halive
    · exact hkeeps
  bounded := haccounts.bounded
  fresh := haccounts.fresh
  ids name slot' id hatName halive := by
    rw [Run.slot_abandonAllLive] at hatName
    obtain ⟨slot, hfound, rfl⟩ := Option.map_eq_some_iff.mp hatName
    split at halive
    · cases halive
    · exact haccounts.ids name slot id hfound halive
  slots name := by
    rw [Run.slot_abandonAllLive, Option.isSome_map]
    exact haccounts.slots name
  known := haccounts.known
  taken _ _ _ _ := hstopping

/-- A result is applied: its instance settles, and its targets are held from the new step on. -/
theorem apply {run : Run F} (haccounts : Accounts run) {name : String} {slot : NodeSlot F}
    {id : InstanceId} {core : Address} {update : Fields.Update F} {newState : State F}
    {targets : List Target} {later : Nat} (hatName : run.slot name = some slot)
    (halive : slot.live = .Running id core)
    (hevaluated : run.graph.evaluateEdge later name newState = .ok targets) :
    Accounts ((run.ending name id (.ok (.Result update))).step name id update newState
      targets) := by
  have hledger : ledgerOf ((run.ending name id (.ok (.Result update))).step name id update newState
      targets).log = ((ledgerOf run.log).settle name id).target
        (fun m => Target.Node m ∈ targets) (run.state.step + 1) := by
    simp [Run.step, Run.note, Run.tell]
  have hstep : ((run.ending name id (.ok (.Result update))).step name id update newState
      targets).state.step = run.state.step + 1 := by
    simp [Run.step, Run.note, Run.tell]
  have hended := run.slot_change_at hatName (·.endInstance)
  have hslots (other : String) : ((run.ending name id (.ok (.Result update))).step name id update
      newState targets).slot other = ((run.change name (·.endInstance)).slot other).map
        fun slot => if other ∈ Target.names targets then slot.hold else slot :=
    Run.slot_holdAll _ _ _
  have hsettled : ((ledgerOf run.log).settle name id).Bounded run.state.step :=
    ⟨haccounts.bounded.targeted, haccounts.bounded.accepted⟩
  refine ⟨?_, ?_, ?_, ?_, ?_, ?_, ?_⟩
  · intro other found hatOther
    rw [hslots] at hatOther
    obtain ⟨before, hatBefore, rfl⟩ := Option.map_eq_some_iff.mp hatOther
    rw [hledger, hstep]
    have hkeeps : before.post.Keeps ((ledgerOf run.log).settle name id) run.state.step other := by
      rw [hended] at hatBefore
      split at hatBefore
      · rename_i hsame
        cases hatBefore
        have hrunning := haccounts.keeps name slot hatName
        rcases slot with ⟨kind, subkind, live, isHeld, isUntaken⟩
        cases halive
        exact hsame ▸ hrunning.settle
      · rename_i hdiffers
        refine (haccounts.keeps other before hatBefore).frame le_rfl (fun _ => Iff.rfl)
          (fun _ _ => Iff.rfl) fun i => ?_
        have hdistinct : other ≠ name := fun hequal => hdiffers hequal.symm
        simp [Ledger.settle, hdistinct]
    have htargeted := hkeeps.target (fun m => Target.Node m ∈ targets) hsettled (Nat.lt_succ_self _)
    by_cases hchosen : Target.Node other ∈ targets
    · simpa [hchosen, NodeSlot.post, NodeSlot.hold] using htargeted
    · simpa [hchosen, NodeSlot.post] using htargeted
  · rw [hledger, hstep]
    refine ⟨?_, fun n i j haccepted => (haccounts.bounded.accepted n i j haccepted).trans
      (Nat.le_succ _)⟩
    rintro n k (htargeted | ⟨-, rfl⟩)
    · exact (haccounts.bounded.targeted n k htargeted).trans (Nat.le_succ _)
    · exact le_rfl
  · intro n i habove
    have hminted : run.minted ≤ i := by
      simpa [Run.step, Run.note, Run.tell] using habove
    have hold := haccounts.fresh n i hminted
    rw [hledger]
    refine ⟨hold.accepted, ?_⟩
    rintro (hsettled | ⟨-, rfl⟩)
    · exact hold.settled hsettled
    · have hbelow := haccounts.ids name slot i hatName (by simp [NodeSlot.liveId, halive])
      exact absurd hminted (Nat.not_le.mpr hbelow)
  · intro other found i hatOther halive'
    rw [hslots] at hatOther
    obtain ⟨before, hatBefore, rfl⟩ := Option.map_eq_some_iff.mp hatOther
    have hminted : ((run.ending name id (.ok (.Result update))).step name id update newState
        targets).minted = run.minted := by
      simp [Run.step, Run.note, Run.tell]
    rw [hminted]
    have haliveBefore : before.liveId = some i := by
      split at halive' <;> exact halive'
    rw [hended] at hatBefore
    split at hatBefore
    · cases hatBefore
      cases haliveBefore
    · exact haccounts.ids other before i hatBefore haliveBefore
  · intro other
    have hgraph : ((run.ending name id (.ok (.Result update))).step name id update newState
        targets).graph = run.graph := by
      simp [Run.step, Run.note, Run.tell]
    rw [hgraph, hslots, Option.isSome_map, Run.slot_change, haccounts.slots]
    split <;> simp
  · intro other k htargeted
    have hgraph : ((run.ending name id (.ok (.Result update))).step name id update newState
        targets).graph = run.graph := by
      simp [Run.step, Run.note, Run.tell]
    rw [hgraph]
    rw [hledger] at htargeted
    rcases htargeted with htargeted | ⟨hmember, -⟩
    · exact haccounts.known other k htargeted
    · exact Graph.target_known hevaluated hmember
  · intro other found hatOther huntaken
    have hstopping : ((run.ending name id (.ok (.Result update))).step name id update newState
        targets).isStopping = run.isStopping := by
      simp [Run.isStopping, Run.step, Run.note, Run.tell, Run.ending, Run.change]
    rw [hstopping]
    rw [hslots] at hatOther
    obtain ⟨before, hatBefore, rfl⟩ := Option.map_eq_some_iff.mp hatOther
    have huntakenBefore : before.untaken = true := by
      split at huntaken <;> exact huntaken
    rw [hended] at hatBefore
    split at hatBefore
    · cases hatBefore
      exact haccounts.taken name slot hatName huntakenBefore
    · exact haccounts.taken other before hatBefore huntakenBefore

/-- Every change of a run keeps its accounts in order. -/
theorem effect {origin : Origin} {triggered : Bool} {run run' : Run F}
    (hchange : Effect origin triggered run run') (haccounts : Accounts run) : Accounts run' := by
  cases hchange with
  | idle => exact haccounts
  | stop deadline hrunning hread =>
      exact haccounts.quiet (fun _ => rfl) (ledgerOf_stopped _ _) rfl rfl rfl fun _ => rfl
  | create name slot hatName habsent hheld hrunning =>
      exact haccounts.create hatName habsent hheld hrunning
  | notMinted name slot reason deadline hatName habsent hheld hrunning =>
      exact haccounts.notMinted _ _ _ hatName habsent hheld
  | created name slot id firstInput core hatName hcreating =>
      exact haccounts.created core hatName hcreating
  | createdShut name slot id firstInput core hatName hcreating =>
      exact haccounts.createdShut core hatName hcreating
  | notCreated name slot id firstInput reason cause deadline hatName hcreating =>
      exact haccounts.notCreated _ _ _ hatName hcreating
  | give name slot id core hatName halive hheld hrunning => exact haccounts.give hatName halive
  | fail name slot id core result failure deadline hatName halive hfailing =>
      refine haccounts.lose result hatName halive (fun _ => Run.slot_fail _ _ _ _ _) ?_ ?_ ?_ ?_ ?_
      · exact (ledgerOf_fail _ _ _ _).trans (ledgerOf_ending _ _ _ _)
      · exact (fail_state _ _ _ _).trans (Run.ending_state _ _ _ _)
      · exact (fail_graph _ _ _ _).trans (Run.ending_graph _ _ _ _)
      · exact (fail_minted _ _ _ _).trans (ending_minted _ _ _ _)
      · exact fail_isStopping _ _ _ _
  | cancel name slot id core deadline hatName halive hread =>
      unfold Run.stopByHost
      split
      · rename_i hstopping
        exact haccounts.lose (.ok .Cancelled) hatName halive (fun _ => rfl)
          (ledgerOf_ending run name id (.ok .Cancelled)) rfl rfl rfl hstopping
      · refine haccounts.lose (.ok .Cancelled) hatName halive (fun _ => rfl) ?_ rfl rfl rfl rfl
        exact (ledgerOf_stopped _ _).trans (ledgerOf_ending run name id (.ok .Cancelled))
  | apply name slot id core update newState targets now later hatName halive happlied hevaluated =>
      exact haccounts.apply hatName halive hevaluated
  | offer now checkpoint hrunning hbusy hsunk hbuilt =>
      exact haccounts.quiet (fun _ => rfl) (ledgerOf_offered _ _) rfl rfl rfl
        fun hstopping => hstopping
  | sinkFailed failure deadline hrunning hunsunk =>
      exact haccounts.quiet (Run.slot_fail _ _ _ _) (ledgerOf_fail _ _ _ _) (fail_state _ _ _ _)
        (fail_graph _ _ _ _) (fail_minted _ _ _ _) fun _ => fail_isStopping _ _ _ _
  | abandon hstopping => exact haccounts.abandon hstopping
  | conclude kind outcome hover hconcluding =>
      exact haccounts.quiet (fun _ => rfl)
        ((ledgerOf_concluded _ _).trans (ledgerOf_told _ _)) rfl rfl rfl fun hstopping => hstopping

/-- The accounts of a run are in order when it begins. -/
theorem opened (graph : Graph F) (state : State F) (config : RunConfig) (names : List String)
    (hknown : ∀ name ∈ names, name ∈ graph.shape.names) :
    Accounts (Run.opened graph state config names) := by
  have hlog : (Run.opened graph state config names).log = [.started names] := by
    simp [Run.opened, Run.note, Run.new]
  have hstep : (Run.opened graph state config names).state.step = 0 := by
    simp [Run.opened, Run.note, Run.new]
  have hsame : (Run.opened graph state config names).graph = graph := by
    simp [Run.opened, Run.note, Run.new]
  have hnothing (n : String) (i : InstanceId) (j : Nat) :
      ¬(ledgerOf [(.started names : Fact F)]).Accepted n i j := by
    simp [ledgerOf]
  refine ⟨?_, ?_, ?_, ?_, ?_, ?_, ?_⟩
  · intro name slot hatName
    obtain ⟨habsent, htaken, hheld⟩ := (Run.slot_opened graph state config names name).1 slot hatName
    rw [hlog, hstep]
    have hkeeps : Post.Keeps ⟨.absent, slot.held = true, False⟩
        (ledgerOf [(.started names : Fact F)]) 0 name :=
      Lib.Post.keeps_initial
        (fun x htargeted => by
          obtain ⟨hfirst, hmember⟩ := (ledgerOf_started names name x).mp htargeted
          exact ⟨hheld.mpr hmember, hfirst⟩)
        (fun hheld' => (ledgerOf_started names name 0).mpr ⟨rfl, hheld.mp hheld'⟩)
        (hnothing name)
    simpa [NodeSlot.post, habsent, htaken] using hkeeps
  · rw [hlog, hstep]
    refine ⟨?_, fun n i j haccepted => absurd haccepted (hnothing n i j)⟩
    intro n k htargeted
    rw [((ledgerOf_started names n k).mp htargeted).1]
  · intro n i _
    rw [hlog]
    exact ⟨hnothing n i, by simp [ledgerOf]⟩
  · intro name slot id hatName halive
    obtain ⟨habsent, -⟩ := (Run.slot_opened graph state config names name).1 slot hatName
    simp [NodeSlot.liveId, habsent] at halive
  · intro name
    rw [hsame]
    exact (Run.slot_opened graph state config names name).2
  · intro name k htargeted
    rw [hlog] at htargeted
    rw [hsame]
    exact hknown name ((ledgerOf_started names name k).mp htargeted).2
  · intro name slot hatName huntaken
    obtain ⟨-, htaken, -⟩ := (Run.slot_opened graph state config names name).1 slot hatName
    rw [htaken] at huntaken
    cases huntaken

end Accounts

/-- The accounts of every launched run are in order at each of its waits and at its end. -/
theorem Launch.accounts {out : Outside F} {graph : Graph F} {config : RunConfig}
    {origin : Origin} {state : State F} {control : Control F}
    (hlaunch : Launch out graph config origin state control) (polls : Nat) :
    Accounts (control.after out polls).sys.run := by
  obtain ⟨s, hopened, hmoves⟩ := hlaunch.moves polls
  refine hmoves.keeps (fun _ _ _ hchange haccounts => Accounts.effect hchange haccounts) ?_
  rw [hopened]
  exact Accounts.opened graph state config _ hlaunch.names_known

end LlmGraph.Executor
