/- digest: The changes a run goes through, one relation for all of them, and the proof that the
   driver makes no others. -/

import Mathlib.Logic.Relation
import LlmGraph.Executor.Drive
import LlmGraph.Lib.History

set_option autoImplicit false
set_option relaxedAutoImplicit false

namespace LlmGraph.Executor

open Contract
open Lib (Throughout)
open Relation (ReflTransGen)

variable {F : Type} [Fields F]

def ObservedEvent.of : Event F → ObservedEvent
  | .Result _ => .Result
  | .Failed _ => .Failed
  | .Refused _ => .Refused
  | .Cancelled => .Cancelled

/-- The running instance of a node has ended, and what it ended with was handled. -/
def Run.ending (run : Run F) (name : String) (id : InstanceId)
    (result : Except EventEndError (Event F)) : Run F :=
  let run := (run.change name (·.endInstance)).note (.handled name id result)
  match result with
  | .ok event => run.tell (.EventHandled name id (.of event))
  | .error _ => run

/-- The stop of a run whose token was read as triggered, unless it is stopping already. -/
def Run.stopByHost (run : Run F) (deadline : Nat) : Run F :=
  if run.isStopping then run else run.beginStopping deadline .Host

/-- The update of a result is refused, or the edge behind it gives no targets. -/
inductive Declined (run : Run F) (name : String) (update : Fields.Update F) : RunFailure → Prop
  | update (now : Nat) (reason : String)
      (hrefused : ∀ state, run.state.state.apply now update ≠ .ok state) :
      Declined run name update (.UpdateRefused name reason)
  | edge (now later : Nat) (state : State F) (reason : String) (cause : Option Cause)
      (happlied : run.state.state.apply now update = .ok state)
      (hrefused : ∀ targets, run.graph.evaluateEdge later name state ≠ .ok targets) :
      Declined run name update (.EdgeFailed name reason cause)

/-- The failure an instance that ended without an applied result leaves behind. -/
inductive Failing (run : Run F) (name : String) :
    Except EventEndError (Event F) → RunFailure → Prop
  | failed (cause : Cause) :
      Failing run name (.ok (.Failed cause)) (.NodeFailed name cause.displayOf (some cause))
  | refused (reason : Reason) :
      Failing run name (.ok (.Refused reason)) (.NodeRefusedInput name reason)
  | cancelled : Failing run name (.ok .Cancelled)
      (.NodeFailed name "cancelled without a cancel request" none)
  | gone (error : EventEndError) (reason : String) :
      Failing run name (.error error) (.NodeVanished name reason)
  | declined (update : Fields.Update F) (failure : RunFailure)
      (hdeclined : Declined run name update failure) :
      Failing run name (.ok (.Result update)) failure

/-- The failure a step checkpoint that was not built or not taken leaves behind. -/
inductive Unsunk : RunFailure → Prop
  | refused (reason : String) (checkpoint : Checkpoint) : Unsunk (.SinkRefused reason checkpoint)
  | notBuilt (reason : String) : Unsunk (.CheckpointNotBuilt reason)

/-- The checkpoint that an outcome other than `RunEnded` carries, with the failure of one that
could not be built. -/
inductive Carried (origin : Origin) (run : Run F) : Checkpoint → Option RunFailure → Prop
  | given (checkpoint : Checkpoint) (hsame : origin.intoCheckpoint = some checkpoint)
      (hunmoved : run.state.step = 0)
      (hnames : ∀ name, name ∈ checkpoint.nodes ↔ name ∈ run.nonIdleNames) :
      Carried origin run checkpoint none
  | built (now : Nat) (checkpoint : Checkpoint)
      (hbuilt : Checkpoint.build now run.state.state run.graph.shape run.nonIdleNames =
        .ok checkpoint) :
      Carried origin run checkpoint none
  | unreadable (now : Nat) (reason : String)
      (hfailed : Checkpoint.build now run.state.state run.graph.shape run.nonIdleNames =
        .error reason) :
      Carried origin run (.unreadable run.graph.shape run.nonIdleNames)
        (some (.CheckpointNotBuilt reason))

theorem Carried.mem_nodes {origin : Origin} {run : Run F} {checkpoint : Checkpoint}
    {notBuilt : Option RunFailure} (hcarried : Carried origin run checkpoint notBuilt)
    (name : String) : name ∈ checkpoint.nodes ↔ name ∈ run.nonIdleNames := by
  cases hcarried with
  | given _ _ _ hnames => exact hnames name
  | built now _ hbuilt => rw [(Checkpoint.build_nodes hbuilt).1]
  | unreadable => exact Iff.rfl

inductive Concluding (origin : Origin) (run : Run F) : OutcomeKind → Outcome F → Prop
  | ended (hidle : run.allIdle) (hclean : run.failures = []) :
      Concluding origin run .RunEnded (.RunEnded run.state.state)
  | failed (checkpoint : Checkpoint) (notBuilt : Option RunFailure)
      (hunfinished : ¬(run.allIdle ∧ run.failures = [])) (hown : run.stoppedByExecutor)
      (hcarried : Carried origin run checkpoint notBuilt) :
      Concluding origin run .RunFailed
        (.RunFailed (run.failures ++ notBuilt.toList) checkpoint)
  | cancelled (checkpoint : Checkpoint) (notBuilt : Option RunFailure)
      (hunfinished : ¬(run.allIdle ∧ run.failures = []))
      (hhost : run.stoppedByExecutor = false) (hcarried : Carried origin run checkpoint notBuilt) :
      Concluding origin run .RunCancelled
        (.RunCancelled (run.failures ++ notBuilt.toList) checkpoint)

/-- One change of a run, with the token as the driver read it in that change. -/
inductive Effect (origin : Origin) (triggered : Bool) (run : Run F) : Run F → Prop
  | idle : Effect origin triggered run run
  | stop (deadline : Nat) (hrunning : run.isStopping = false) (hread : triggered = true) :
      Effect origin triggered run (run.beginStopping deadline .Host)
  | create (name : String) (slot : NodeSlot F) (hatName : run.slot name = some slot)
      (habsent : slot.live = .Absent) (hheld : slot.held = true)
      (hrunning : run.isStopping = false) :
      Effect origin triggered run (run.create name)
  | notMinted (name : String) (slot : NodeSlot F) (reason : String) (deadline : Nat)
      (hatName : run.slot name = some slot) (habsent : slot.live = .Absent)
      (hheld : slot.held = true) (hrunning : run.isStopping = false) :
      Effect origin triggered run ((run.change name (·.leaveUntaken)).fail triggered deadline
        (.NodeCouldNotStart name reason none))
  | created (name : String) (slot : NodeSlot F) (id : InstanceId) (firstInput : Shared F)
      (core : Address) (hatName : run.slot name = some slot)
      (hcreating : slot.live = .Creating id firstInput) :
      Effect origin triggered run
        ((run.instanceCreated name id core slot).accept name id firstInput)
  | createdShut (name : String) (slot : NodeSlot F) (id : InstanceId) (firstInput : Shared F)
      (core : Address) (hatName : run.slot name = some slot)
      (hcreating : slot.live = .Creating id firstInput) :
      Effect origin triggered run
        ((run.instanceCreated name id core slot).change name (·.hold))
  | notCreated (name : String) (slot : NodeSlot F) (id : InstanceId) (firstInput : Shared F)
      (reason : String) (cause : Option Cause) (deadline : Nat)
      (hatName : run.slot name = some slot) (hcreating : slot.live = .Creating id firstInput) :
      Effect origin triggered run
        (((run.change name (·.endInstance.hold)).change name (·.leaveUntaken)).fail triggered
          deadline (.NodeCouldNotStart name reason cause))
  | give (name : String) (slot : NodeSlot F) (id : InstanceId) (core : Address)
      (hatName : run.slot name = some slot) (halive : slot.live = .Running id core)
      (hheld : slot.held = true) (hrunning : run.isStopping = false) :
      Effect origin triggered run ((run.accept name id run.state).change name (·.release))
  | fail (name : String) (slot : NodeSlot F) (id : InstanceId) (core : Address)
      (result : Except EventEndError (Event F)) (failure : RunFailure) (deadline : Nat)
      (hatName : run.slot name = some slot) (halive : slot.live = .Running id core)
      (hfailing : Failing run name result failure) :
      Effect origin triggered run
        (((run.ending name id result).change name (·.leaveUntaken)).fail triggered deadline
          failure)
  | cancel (name : String) (slot : NodeSlot F) (id : InstanceId) (core : Address)
      (deadline : Nat) (hatName : run.slot name = some slot)
      (halive : slot.live = .Running id core) (hread : triggered = true) :
      Effect origin triggered run
        (((run.ending name id (.ok .Cancelled)).change name (·.leaveUntaken)).stopByHost deadline)
  | apply (name : String) (slot : NodeSlot F) (id : InstanceId) (core : Address)
      (update : Fields.Update F) (newState : State F) (targets : List Target) (now later : Nat)
      (hatName : run.slot name = some slot) (halive : slot.live = .Running id core)
      (happlied : run.state.state.apply now update = .ok newState)
      (hevaluated : run.graph.evaluateEdge later name newState = .ok targets) :
      Effect origin triggered run
        ((run.ending name id (.ok (.Result update))).step name id update newState targets)
  | offer (now : Nat) (checkpoint : Checkpoint) (hrunning : run.isStopping = false)
      (hbusy : run.allIdle = false) (hsunk : run.sink = true)
      (hbuilt : Checkpoint.build now run.state.state run.graph.shape run.nonIdleNames =
        .ok checkpoint) :
      Effect origin triggered run (run.note (.offered checkpoint))
  | sinkFailed (failure : RunFailure) (deadline : Nat) (hrunning : run.isStopping = false)
      (hunsunk : Unsunk failure) :
      Effect origin triggered run (run.fail triggered deadline failure)
  | abandon (hstopping : run.isStopping = true) : Effect origin triggered run run.abandonAllLive
  | conclude (kind : OutcomeKind) (outcome : Outcome F)
      (hover : run.isStopping = true ∨ run.allIdle)
      (hconcluding : Concluding origin run kind outcome) :
      Effect origin triggered run ((run.tell (.Outcome kind)).note (.concluded outcome))

/-- One change of a run among its surroundings, where a triggered token stays triggered. -/
def Move (origin : Origin) (s s' : Sys F) : Prop :=
  ∃ triggered : Bool, (s.world.triggered = true → triggered = true) ∧
    (triggered = true → s'.world.triggered = true) ∧ Effect origin triggered s.run s'.run

abbrev Moves (origin : Origin) : Sys F → Sys F → Prop := ReflTransGen (Move origin)

/-- A property of runs that every change keeps holds after any number of changes. -/
theorem Moves.keeps {origin : Origin} {P : Run F → Prop}
    (hstep : ∀ triggered run run', Effect origin triggered run run' → P run → P run')
    {s s' : Sys F} (hmoves : Moves origin s s') (hfirst : P s.run) : P s'.run := by
  induction hmoves with
  | refl => exact hfirst
  | tail _ hmove hknown =>
      obtain ⟨triggered, -, -, heffect⟩ := hmove
      exact hstep triggered _ _ heffect hknown

/-- Entries that neither hand anything over nor show anything. -/
def Fact.Plain : Fact F → Prop
  | .accepted .. => False
  | .applied .. => False
  | .offered _ => False
  | .concluded _ => False
  | _ => True

/-- What a property of log entries needs to hold throughout the log of a run: the four kinds of
entry that say something, each in the change that adds it. -/
theorem Effect.throughout {origin : Origin} {triggered : Bool} {run run' : Run F}
    {P : Fact F → List (Fact F) → Prop} (hchange : Effect origin triggered run run')
    (hall : Throughout P run.log) (hplain : ∀ fact past, fact.Plain → P fact past)
    (haccept : ∀ name slot id input past, run.slot name = some slot →
      slot.live = .Creating id input ∨ (∃ core, slot.live = .Running id core ∧ input = run.state) →
      (past = run.log ∨ ∃ observation, past = .told observation :: run.log) →
      P (.accepted name id input) past)
    (happly : ∀ name slot id update newState targets now later, run.slot name = some slot →
      run.state.state.apply now update = .ok newState ∧
        run.graph.evaluateEdge later name newState = .ok targets →
      P (.applied name id update ⟨run.state.step + 1, newState⟩ targets)
        (.told (.EventHandled name id .Result) :: .handled name id (.ok (.Result update)) :: run.log))
    (hoffer : ∀ now checkpoint, run.allIdle = false →
      Checkpoint.build now run.state.state run.graph.shape run.nonIdleNames = .ok checkpoint →
      P (.offered checkpoint) run.log)
    (hconclude : ∀ kind outcome, Concluding origin run kind outcome →
      P (.concluded outcome) (.told (.Outcome kind) :: run.log)) : Throughout P run'.log := by
  have hfailing {run₁ : Run F} {triggered : Bool} {deadline : Nat} {failure : RunFailure}
      (hknown : Throughout P run₁.log) :
      Throughout P (run₁.fail triggered deadline failure).log := by
    unfold Run.fail
    dsimp only
    split
    · exact ⟨hplain _ _ trivial, hknown⟩
    · exact ⟨hplain _ _ trivial, hplain _ _ trivial, hknown⟩
  have hended (name : String) (id : InstanceId) (result : Except EventEndError (Event F)) :
      Throughout P (run.ending name id result).log := by
    rcases result with error | event
    · exact ⟨hplain _ _ trivial, hall⟩
    · exact ⟨hplain _ _ trivial, hplain _ _ trivial, hall⟩
  cases hchange with
  | idle => exact hall
  | stop => exact ⟨hplain _ _ trivial, hall⟩
  | create => exact ⟨hplain _ _ trivial, hall⟩
  | notMinted => exact hfailing hall
  | created name slot id firstInput core hatName hcreating =>
      refine ⟨hplain _ _ trivial, ?_, hplain _ _ trivial, hall⟩
      exact haccept name slot id firstInput _ hatName (.inl hcreating) (.inr ⟨_, rfl⟩)
  | createdShut => exact ⟨hplain _ _ trivial, hall⟩
  | notCreated => exact hfailing hall
  | give name slot id core hatName halive =>
      refine ⟨hplain _ _ trivial, ?_, hall⟩
      exact haccept name slot id run.state _ hatName (.inr ⟨core, halive, rfl⟩) (.inl rfl)
  | fail name slot id core result => exact hfailing (hended name id result)
  | cancel name slot id core deadline =>
      have hcancelled := hended name id (.ok .Cancelled)
      unfold Run.stopByHost
      split
      · exact hcancelled
      · exact ⟨hplain _ _ trivial, hcancelled⟩
  | apply name slot id core update newState targets now later hatName halive happlied hevaluated =>
      rw [Run.step, Run.holdAll_log]
      refine ⟨hplain _ _ trivial, hplain _ _ trivial, ?_, hended name id (.ok (.Result update))⟩
      exact happly name slot id update newState targets now later hatName ⟨happlied, hevaluated⟩
  | offer now checkpoint hrunning hbusy hsunk hbuilt =>
      exact ⟨hoffer now checkpoint hbusy hbuilt, hall⟩
  | sinkFailed => exact hfailing hall
  | abandon => exact hall
  | conclude kind outcome hover hconcluding =>
      exact ⟨hconclude kind outcome hconcluding, hplain _ _ trivial, hall⟩

namespace Sys

variable {origin : Origin} (out : Outside F)

@[simp] theorem run_tick (s : Sys F) : (s.tick out).run = s.run := rfl

@[simp] theorem run_withRun (s : Sys F) (change : Run F → Run F) :
    (s.withRun change).run = change s.run := rfl

@[simp] theorem world_withRun (s : Sys F) (change : Run F → Run F) :
    (s.withRun change).world = s.world := rfl

/-- Anything that leaves the run alone is an idle move. -/
theorem move_world {s : Sys F} (world : World F)
    (hkept : s.world.triggered = true → world.triggered = true) :
    Move origin s { s with world } :=
  ⟨s.world.triggered, id, hkept, .idle⟩

theorem move_tick (s : Sys F) : Move origin s (s.tick out) :=
  move_world _ (World.tick_triggered out s.world)

/-- The token is read once and an effect follows from what was read. -/
theorem move_read {s : Sys F} {s' : Sys F} (hsame : s'.world.triggered = (s.tick out).world.triggered)
    (heffect : Effect origin (s.tick out).world.triggered s.run s'.run) : Move origin s s' :=
  ⟨(s.tick out).world.triggered, World.tick_triggered out s.world, fun hread => hsame ▸ hread, heffect⟩

theorem move_readToken (s : Sys F) : Move origin s (s.readToken out) := by
  unfold readToken
  dsimp only
  split
  · rename_i hboth
    rw [Bool.and_eq_true, Bool.not_eq_true'] at hboth
    exact move_read out rfl (.stop _ hboth.1 hboth.2)
  · exact move_tick out s

/-- A failure after a change of the run: the failing function reads the token for itself. -/
theorem move_fail {s s₁ : Sys F} {failure : RunFailure}
    (hkept : s.world.triggered = true → s₁.world.triggered = true)
    (heffect : ∀ triggered deadline, Effect origin triggered s.run
      (s₁.run.fail triggered deadline failure)) :
    Move origin s (s₁.fail out failure) := by
  refine ⟨(s₁.tick out).world.triggered, fun hfirst => ?_, fun hread => ?_, heffect _ _⟩
  · exact World.tick_triggered out s₁.world (hkept hfirst)
  · change ((s₁.tick out).world.triggered || _) = true
    rw [hread, Bool.true_or]

end Sys

end LlmGraph.Executor
