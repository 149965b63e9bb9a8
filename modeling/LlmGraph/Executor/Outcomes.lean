/- digest: Which outcome a run reports: the driver keeps what holds of its phase, its token and its
   recorded failures together, and the end of the loop reads them. -/

import LlmGraph.Executor.Completeness
import LlmGraph.Executor.Faults

set_option autoImplicit false
set_option relaxedAutoImplicit false

namespace LlmGraph.Executor

open Contract

variable {F : Type} [Fields F]

namespace World

/-- The core at the address takes no input. -/
def Shut (world : World F) (address : Address) : Prop :=
  ∃ core, world.cores[address]? = some core ∧ core.acceptsInput = false

/-- No core has come, none takes inputs again, and no message has come. -/
structure Steady (world world' : World F) : Prop where
  length : world'.cores.length = world.cores.length
  shut : ∀ address, world.Shut address → world'.Shut address
  mail : ∀ message ∈ world'.mailbox, message ∈ world.mailbox

/-- A change of neither the cores nor the mailbox. -/
theorem Steady.of_same {world world' : World F} (hcores : world'.cores = world.cores)
    (hmail : world'.mailbox = world.mailbox) : world.Steady world' where
  length := congrArg List.length hcores
  shut address hshut := by
    rw [Shut, hcores]
    exact hshut
  mail message hmem := hmail ▸ hmem

theorem Steady.refl (world : World F) : world.Steady world := .of_same rfl rfl

/-- A changed core stays shut where the change opens none. -/
theorem steady_updateCore (world : World F) (address : Address) {update : Core F → Core F}
    (hshut : ∀ core, world.cores[address]? = some core → core.acceptsInput = false →
      (update core).acceptsInput = false) : world.Steady (world.updateCore address update) where
  length := List.length_modify ..
  shut other := by
    rintro ⟨core, hcore, hclosed⟩
    by_cases hsame : address = other
    · subst hsame
      refine ⟨update core, ?_, hshut core hcore hclosed⟩
      simp [updateCore, hcore]
    · refine ⟨core, ?_, hclosed⟩
      rw [updateCore, List.getElem?_modify_ne _ _ hsame, hcore]
  mail _ hmem := hmem

theorem steady_dropInstance (world : World F) (address : Address) :
    world.Steady (world.dropInstance address) := by
  refine world.steady_updateCore address fun core _ _ => ?_
  rcases core with ⟨id, queue, (_ | _) | _ | _ | _, executor, reader, event, waiters⟩ <;> rfl

theorem steady_dropRunning (world : World F) (address : Address) :
    world.Steady (world.dropRunning address) := by
  have hdropped : world.Steady (world.updateCore address (·.inputEndDropped.1)) := by
    refine world.steady_updateCore address fun core _ _ => ?_
    rcases core with ⟨id, queue, (_ | _) | _ | _ | _, executor, reader, event, waiters⟩ <;> rfl
  exact ⟨hdropped.length, hdropped.shut, hdropped.mail⟩

end World

namespace Sys

/-- Neither the stop of the run, nor its failures, nor the token and its clock have changed, and
the world is steady. -/
structure SameStop (s s' : Sys F) : Prop where
  phase : s'.run.phase = s.run.phase
  failures : s'.run.failures = s.run.failures
  recorded : s'.run.log.filterMap Fact.recorded = s.run.log.filterMap Fact.recorded
  triggered : s'.world.triggered = s.world.triggered
  clock : s'.world.clock = s.world.clock
  now : s'.world.now = s.world.now
  steady : s.world.Steady s'.world

/-- What the four ways the driver touches its stop keep: the others move, the token is read, a
failure is recorded, or nothing of it changes. -/
structure Kept (out : Outside F) (P : Sys F → Prop) : Prop where
  tick : ∀ s, P s → P (s.tick out)
  stop : ∀ s, P s → s.run.isStopping = false → s.world.triggered = true →
    P (s.beginStopping .Host)
  fail : ∀ s failure, P s → P (s.fail out failure)
  same : ∀ s s', P s → SameStop s s' → P s'

namespace Kept

variable {out : Outside F} {P : Sys F → Prop} (hkept : Kept out P)
include hkept

theorem change {s : Sys F} (hs : P s) (name : String) (change : NodeSlot F → NodeSlot F) :
    P (s.withRun (·.change name change)) :=
  hkept.same s _ hs ⟨rfl, rfl, rfl, rfl, rfl, rfl, .refl _⟩

theorem world {s : Sys F} (hs : P s) {world : World F}
    (htriggered : world.triggered = s.world.triggered) (hclock : world.clock = s.world.clock)
    (hnow : world.now = s.world.now) (hsteady : s.world.Steady world) : P { s with world } :=
  hkept.same s _ hs ⟨rfl, rfl, rfl, htriggered, hclock, hnow, hsteady⟩

theorem readToken {s : Sys F} (hs : P s) : P (s.readToken out) := by
  have hticked := hkept.tick s hs
  rw [Sys.readToken]
  split
  · rename_i hboth
    rw [Bool.and_eq_true, Bool.not_eq_true'] at hboth
    exact hkept.stop _ hticked hboth.1 hboth.2
  · exact hticked

theorem failNode {s : Sys F} (hs : P s) (node : String) (failure : RunFailure) :
    P (s.failNode out node failure) :=
  hkept.fail _ failure (hkept.change hs node _)

theorem giveInput {s : Sys F} (hs : P s) (name : String) (state : Shared F) :
    P (s.giveInput out name state).2 := by
  have hticked := hkept.tick s hs
  rcases giveInput_cases out s name state with hrefused | ⟨slot, id, core, world, -, -, -, hgiven⟩
  · rw [hrefused]
    exact hticked
  · rw [Sys.giveInput]
    split
    · split
      · rename_i given woken hgive
        refine hkept.same _ _ hticked ⟨rfl, rfl, rfl, rfl, rfl, rfl, ?_⟩
        refine World.steady_updateCore _ _ fun core hcore hclosed => ?_
        rw [hcore, Option.bind_some, Core.give, hclosed] at hgive
        cases hgive
      · exact hticked
    · exact hticked

theorem giveHeld {s : Sys F} (hs : P s) (name : String) : P (s.giveHeld out name) := by
  have hgiven := hkept.giveInput hs name s.run.state
  rw [Sys.giveHeld]
  dsimp only
  split
  · exact hkept.change hgiven name _
  · exact hgiven

theorem beginCreation {s : Sys F} (hs : P s) (name : String) : P (s.beginCreation out name) := by
  rw [Sys.beginCreation]
  split
  · exact hs
  · split
    · exact hkept.failNode hs name _
    · exact hkept.same s _ hs ⟨rfl, rfl, rfl, rfl, rfl, rfl, .of_same rfl rfl⟩

theorem handTo {s : Sys F} (hs : P s) (name : String) : P (s.handTo out name) := by
  rw [Sys.handTo]
  split
  · exact hs
  · split
    · exact hs
    · split
      · exact hs
      · exact hkept.giveHeld hs name
      · exact hkept.beginCreation hs name

theorem handOver {s : Sys F} (hs : P s) (targets : List String) : P (s.handOver out targets) := by
  rw [Sys.handOver]
  generalize handOrder s.run targets = order
  induction order generalizing s with
  | nil => exact hs
  | cons name rest ih =>
    rw [List.foldl_cons]
    apply ih
    split
    · exact hs
    · exact hkept.handTo hs name

theorem takeStepCheckpoint {s : Sys F} (hs : P s) : P (s.takeStepCheckpoint out) := by
  have hticked := hkept.tick s hs
  rw [Sys.takeStepCheckpoint]
  dsimp only
  split
  · exact hkept.fail _ _ hticked
  · rename_i checkpoint _
    split
    · exact hticked
    · have hoffered : P (((s.tick out).withRun (·.note (.offered checkpoint))).tick out) :=
        hkept.tick _ (hkept.same _ _ hticked ⟨rfl, rfl, rfl, rfl, rfl, rfl, .refl _⟩)
      split
      · exact hoffered
      · exact hkept.fail _ _ hoffered
      · exact hkept.fail _ _ hoffered
      · exact hkept.fail _ _ hoffered

theorem settleCreated {s : Sys F} (hs : P s) (node : String) (made : Instance)
    (firstInput : Shared F) : P (s.settleCreated out node made firstInput) := by
  rw [Sys.settleCreated]
  split
  · exact hkept.world hs rfl rfl rfl (World.steady_dropInstance _ _)
  · rename_i slot _
    have hcreated : P ⟨s.run.instanceCreated node made.id made.core slot,
        s.world.spawnForwarder node made.id made.core⟩ :=
      hkept.same s _ hs ⟨rfl, rfl, rfl, rfl, rfl, rfl, .of_same rfl rfl⟩
    have hgiven := hkept.giveInput hcreated node firstInput
    dsimp only
    split
    · exact hkept.change hgiven node _
    · split
      · exact hkept.giveHeld hgiven node
      · exact hgiven

theorem onCreated {s : Sys F} (hs : P s) (node : String) (id : InstanceId)
    (result : Except CreationFailure Instance) : P (s.onCreated out node id result) := by
  have hdropped : P { s with world := dropResult s.world result } := by
    cases result with
    | error failure => exact hs
    | ok made => exact hkept.world hs rfl rfl rfl (World.steady_dropInstance _ _)
  rw [Sys.onCreated]
  split
  · exact hdropped
  · dsimp only
    split
    · split
      · exact hkept.settleCreated hs node _ _
      · exact hkept.failNode (hkept.change hdropped node _) node _
    · exact hkept.failNode (hkept.change hdropped node _) node _

theorem resultStep {s : Sys F} (hs : P s) (node : String) (id : InstanceId)
    (update : Fields.Update F) : P (s.resultStep out node id update) := by
  have hticked := hkept.tick s hs
  have htwice := hkept.tick _ hticked
  rw [Sys.resultStep]
  dsimp only
  split
  · exact hkept.failNode hticked node _
  · exact hkept.failNode hticked node _
  · rename_i newState _
    split
    · exact hkept.failNode htwice node _
    · exact hkept.failNode htwice node _
    · exact hkept.failNode htwice node _
    · rename_i targets _
      have hstepped : P (((s.tick out).tick out).withRun
          (·.step node id update newState targets)) := by
        refine hkept.same _ _ htwice ⟨?_, ?_, ?_, rfl, rfl, rfl, .refl _⟩
        · exact Run.holdAll_phase _ _
        · exact Run.holdAll_failures _ _
        · rw [run_withRun, Run.step, Run.holdAll_log]
          rfl
      split
      · exact hstepped
      · split
        · have hread := hkept.readToken (hkept.takeStepCheckpoint hstepped)
          split
          · exact hkept.handOver hread _
          · exact hread
        · exact hstepped

theorem dropLive {s : Sys F} (hs : P s) (node : String) (slot : NodeSlot F) :
    P { s with world := Sys.dropLive s.world node slot } := by
  rcases slot with ⟨kind, subkind, _ | ⟨id, input⟩ | ⟨id, core⟩, held, untaken⟩
  · exact hs
  · exact hkept.world hs rfl rfl rfl (.of_same rfl rfl)
  · exact hkept.world hs rfl rfl rfl (World.steady_dropRunning _ _)

theorem onEnded {s : Sys F} (hs : P s) (node : String) (id : InstanceId)
    (result : Except EventEndError (Event F)) : P (s.onEnded out node id result) := by
  rw [Sys.onEnded]
  split
  · exact hs
  · rename_i slot _
    split
    · exact hs
    · have hended : P ⟨(s.run.change node (·.endInstance)).note (.handled node id result),
          Sys.dropLive s.world node slot⟩ :=
        hkept.same _ _ (hkept.dropLive hs node slot) ⟨rfl, rfl, rfl, rfl, rfl, rfl, .refl _⟩
      have htold : ∀ event, P ((⟨(s.run.change node (·.endInstance)).note
          (.handled node id result), Sys.dropLive s.world node slot⟩ : Sys F).reportEvent node id
            event) :=
        fun event => hkept.same _ _ hended ⟨rfl, rfl, rfl, rfl, rfl, rfl, .refl _⟩
      dsimp only
      split
      · exact hkept.resultStep (htold .Result) node id _
      · exact hkept.failNode (htold .Failed) node _
      · exact hkept.failNode (htold .Refused) node _
      · have hcancelled := hkept.tick _ (htold .Cancelled)
        split
        · exact hkept.change hcancelled node _
        · exact hkept.failNode hcancelled node _
      · exact hkept.failNode hended node _
      · exact hkept.failNode hended node _

theorem step {s : Sys F} (hs : P s) (message : Message F) : P (s.step out message) := by
  have hread := hkept.readToken hs
  cases message with
  | Created node id result => exact hkept.onCreated hread node id result
  | Ended node id result => exact hkept.onEnded hread node id result

theorem report {s : Sys F} (hs : P s) (kind : OutcomeKind) (outcome : Outcome F) :
    P (s.report kind outcome).1 :=
  hkept.same s _ hs ⟨rfl, rfl, rfl, rfl, rfl, rfl, .refl _⟩

theorem finish {s : Sys F} (hs : P s) (starting : Option Checkpoint) :
    P (s.finish out starting).sys := by
  show P (s.conclude out starting).1
  have hticked := hkept.tick s hs
  unfold Sys.conclude
  split
  · exact hkept.report hs _ _
  · cases starting with
    | some checkpoint =>
      dsimp only
      split
      · exact hkept.report hs _ _
      · exact hkept.report hs _ _
    | none =>
      dsimp only [outcomeCheckpoint]
      split
      · split
        · exact hkept.report hticked _ _
        · exact hkept.report hticked _ _
      · split
        · exact hkept.report hticked _ _
        · exact hkept.report hticked _ _

theorem abandonAllLive {s : Sys F} (hs : P s) : P s.abandonAllLive := by
  have hworld : ∀ (entries : List (String × NodeSlot F)) (world : World F), P { s with world } →
      P { s with world := entries.foldl (fun world entry =>
        Sys.dropLive world entry.1 entry.2) world } := by
    intro entries
    induction entries with
    | nil => exact fun _ hheld => hheld
    | cons entry rest ih => exact fun world hheld => ih _ (hkept.dropLive hheld entry.1 entry.2)
  exact hkept.same _ _ (hworld s.run.slots.toList s.world hs)
    ⟨rfl, rfl, rfl, rfl, rfl, rfl, .refl _⟩

theorem loopHead {s : Sys F} (hs : P s) : P (s.loopHead out).sys := by
  have hread := hkept.readToken hs
  rw [Sys.loopHead]
  split
  · exact hkept.finish hread none
  · split
    · exact hkept.finish (hkept.abandonAllLive hread) none
    · exact hread

theorem receive {s s' : Sys F} {message : Message F} (hs : P s)
    (hreceived : s.receive = some (message, s')) : P s' := by
  rw [Sys.receive] at hreceived
  split at hreceived
  · cases hreceived
  · rename_i message' rest hmail
    cases hreceived
    refine hkept.world hs rfl rfl rfl ⟨rfl, fun _ hshut => hshut, fun other hmem => ?_⟩
    rw [hmail]
    exact List.mem_cons_of_mem _ hmem

theorem poll {s : Sys F} (hs : P s) : P (s.poll out).sys := by
  have hticked := hkept.tick s hs
  have htwice := hkept.tick _ hticked
  rw [Sys.poll]
  split
  · split
    · exact hkept.loopHead (hkept.readToken hticked)
    · dsimp only
      split
      · rename_i message s' hreceived
        exact hkept.loopHead (hkept.step (hkept.receive htwice hreceived) message)
      · exact htwice
  · split
    · rename_i message s' hreceived
      exact hkept.loopHead (hkept.step (hkept.receive hticked hreceived) message)
    · dsimp only
      split
      · exact hkept.finish (hkept.abandonAllLive htwice) none
      · exact htwice

theorem begin {s : Sys F} (origin : Origin)
    (hs : P (s.withRun fun run =>
      (run.holdAll origin.heldNames).note (.started origin.heldNames))) :
    P (s.begin out origin).sys := by
  have hread := hkept.readToken hs
  rw [Sys.begin]
  split
  · exact hkept.finish hread _
  · exact hkept.loopHead (hkept.handOver hread _)

theorem after {control : Control F} (hcontrol : P control.sys) (polls : Nat) :
    P (control.after out polls).sys := by
  induction polls with
  | zero => exact hcontrol
  | succ polls ih =>
    show P ((control.after out polls).next out).sys
    cases hnow : control.after out polls with
    | waiting s =>
      rw [hnow] at ih
      exact hkept.poll ih
    | done s outcome =>
      rw [hnow] at ih
      exact ih

/-- What the driver keeps holds of a launched run at each of its waits and at its end. -/
theorem launched {graph : Graph F} {config : RunConfig} {origin : Origin} {state : State F}
    {control : Control F} (hlaunch : Launch out graph config origin state control)
    (hopened : P ⟨Run.opened graph state config origin.heldNames, .fresh config.triggered⟩)
    (polls : Nat) : P (control.after out polls).sys := by
  apply hkept.after
  rw [hlaunch.begins.1]
  exact hkept.begin origin hopened

end Kept

end Sys

/-- The host has triggered the token before the moment: before the run, or during it. -/
def HostTriggered (out : Outside F) (config : RunConfig) (clock : Nat) : Prop :=
  config.triggered = true ∨ ∃ moment < clock, .trigger ∈ (out moment).acts

theorem HostTriggered.later {out : Outside F} {config : RunConfig} {clock clock' : Nat}
    (hhost : HostTriggered out config clock) (hle : clock ≤ clock') :
    HostTriggered out config clock' := by
  rcases hhost with hbefore | ⟨moment, hmoment, htrigger⟩
  · exact .inl hbefore
  · exact .inr ⟨moment, by omega, htrigger⟩

/-- The phase of a run tells its failures and who has triggered its token. -/
structure Classified (out : Outside F) (config : RunConfig) (s : Sys F) : Prop where
  failures : s.run.failures = (recordedFailures s.run.log).map Prod.fst
  some : s.run.failures ≠ [] → s.run.isStopping = true
  stopping : s.run.isStopping = true → s.world.triggered = true
  own : s.run.stoppedByExecutor = true ↔
    ∃ failure, (failure, false) ∈ recordedFailures s.run.log
  host : s.run.stoppedByExecutor = false → s.world.triggered = true →
    HostTriggered out config s.world.clock

namespace Run

/-- Who stops a run, by its phase. -/
theorem stoppedByExecutor_running {run : Run F} (hrunning : run.isStopping = false) :
    run.stoppedByExecutor = false := by
  rw [isStopping] at hrunning
  rw [stoppedByExecutor]
  split at hrunning
  · cases hrunning
  · rename_i hphase
    rw [hphase]

theorem fail_of_stopping {run : Run F} (hstopping : run.isStopping = true) (triggered : Bool)
    (deadline : Nat) (failure : RunFailure) :
    run.fail triggered deadline failure =
      { run with failures := run.failures ++ [failure] }.note (.failed failure triggered) := by
  have hsame : ({ run with failures := run.failures ++ [failure] }.note
      (.failed failure triggered)).isStopping = true := hstopping
  simp only [fail, hsame, if_true]

theorem fail_of_running {run : Run F} (hrunning : run.isStopping = false) (triggered : Bool)
    (deadline : Nat) (failure : RunFailure) :
    run.fail triggered deadline failure =
      ({ run with failures := run.failures ++ [failure] }.note
        (.failed failure triggered)).beginStopping deadline
          (if triggered then .Host else .Executor) := by
  have hsame : ({ run with failures := run.failures ++ [failure] }.note
      (.failed failure triggered)).isStopping = false := hrunning
  simp only [fail, hsame, Bool.false_eq_true, if_false]

end Run

namespace Classified

variable {out : Outside F} {config : RunConfig} {s : Sys F}

theorem tick (hs : Classified out config s) : Classified out config (s.tick out) := by
  refine ⟨hs.failures, hs.some, ?_, hs.own, ?_⟩
  · intro hstopping
    exact World.tick_triggered out s.world (hs.stopping hstopping)
  · intro hnot htriggered
    have hclock : (s.tick out).world.clock = s.world.clock + 1 := rfl
    rw [hclock]
    by_cases hbefore : s.world.triggered = true
    · exact (hs.host hnot hbefore).later (by omega)
    · have hact : Act.trigger ∈ (out s.world.clock).acts := by
        by_contra habsent
        have hsame : (s.tick out).world.triggered = s.world.triggered :=
          World.acts_triggered_eq habsent s.world
        exact hbefore (hsame ▸ htriggered)
      exact .inr ⟨s.world.clock, by omega, hact⟩

theorem stop (hs : Classified out config s) (hrunning : s.run.isStopping = false)
    (htriggered : s.world.triggered = true) :
    Classified out config (s.beginStopping .Host) := by
  have hexecutor := Run.stoppedByExecutor_running hrunning
  have hlog : recordedFailures (s.beginStopping .Host).run.log = recordedFailures s.run.log :=
    recordedFailures_stopped _ _
  refine ⟨?_, fun _ => rfl, fun _ => htriggered, ?_, fun _ => hs.host hexecutor⟩
  · rw [hlog]
    exact hs.failures
  · rw [hlog, ← hs.own, hexecutor]
    rfl

theorem fail (hs : Classified out config s) (failure : RunFailure) :
    Classified out config (s.fail out failure) := by
  have ht := hs.tick
  rw [Sys.fail]
  generalize s.tick out = t at ht
  have htoken : (t.world.triggered || !t.run.isStopping) = true := by
    cases hstopping : t.run.isStopping with
    | true =>
      rw [ht.stopping hstopping]
      rfl
    | false => simp
  cases hstopping : t.run.isStopping with
  | true =>
    have htriggered := ht.stopping hstopping
    dsimp only
    rw [Run.fail_of_stopping hstopping, htriggered]
    have hlog : recordedFailures (.failed failure true :: t.run.log) =
        recordedFailures t.run.log ++ [(failure, true)] := recordedFailures_failed _ _ _
    refine ⟨?_, fun _ => hstopping, fun _ => by simp, ?_, fun hnot _ => ht.host hnot htriggered⟩
    · show t.run.failures ++ [failure] =
        (recordedFailures (.failed failure true :: t.run.log)).map Prod.fst
      rw [hlog, List.map_append, ← ht.failures]
      rfl
    · show t.run.stoppedByExecutor = true ↔
        ∃ other, (other, false) ∈ recordedFailures (.failed failure true :: t.run.log)
      rw [hlog, ht.own]
      simp
  | false =>
    have hexecutor := Run.stoppedByExecutor_running hstopping
    have hnone : ¬∃ other, (other, false) ∈ recordedFailures t.run.log := by
      rw [← ht.own, hexecutor]
      simp
    dsimp only
    rw [Run.fail_of_running hstopping]
    cases htriggered : t.world.triggered with
    | true =>
      have hlog : recordedFailures (.stopped .Host :: .failed failure true :: t.run.log) =
          recordedFailures t.run.log ++ [(failure, true)] := by simp
      refine ⟨?_, fun _ => rfl, fun _ => by simp, ?_, fun _ _ => ht.host hexecutor htriggered⟩
      · show t.run.failures ++ [failure] =
          (recordedFailures (.stopped .Host :: .failed failure true :: t.run.log)).map Prod.fst
        rw [hlog, List.map_append, ← ht.failures]
        rfl
      · show false = true ↔ ∃ other, (other, false) ∈
          recordedFailures (.stopped .Host :: .failed failure true :: t.run.log)
        rw [hlog]
        simpa using hnone
    | false =>
      have hlog : recordedFailures (.stopped .Executor :: .failed failure false :: t.run.log) =
          recordedFailures t.run.log ++ [(failure, false)] := by simp
      refine ⟨?_, fun _ => rfl, fun _ => by simp, ?_, fun hnot => by cases hnot⟩
      · show t.run.failures ++ [failure] =
          (recordedFailures (.stopped .Executor :: .failed failure false :: t.run.log)).map Prod.fst
        rw [hlog, List.map_append, ← ht.failures]
        rfl
      · show true = true ↔ ∃ other, (other, false) ∈
          recordedFailures (.stopped .Executor :: .failed failure false :: t.run.log)
        rw [hlog]
        simp

/-- A run without failures is not stopped by the executor. -/
theorem clean (hs : Classified out config s) (hempty : s.run.failures = []) :
    s.run.stoppedByExecutor = false := by
  refine Bool.eq_false_iff.mpr fun hown => ?_
  obtain ⟨failure, hfailure⟩ := hs.own.mp hown
  have hnone : (recordedFailures s.run.log).map Prod.fst = [] := hs.failures ▸ hempty
  rw [List.map_eq_nil_iff.mp hnone] at hfailure
  cases hfailure

/-- The driver keeps a run classified. -/
theorem kept (out : Outside F) (config : RunConfig) :
    Sys.Kept out (Classified (F := F) out config) where
  tick _ hs := hs.tick
  stop _ hs := hs.stop
  fail _ failure hs := hs.fail failure
  same s s' hs hsame := by
    have hlog : recordedFailures s'.run.log = recordedFailures s.run.log :=
      congrArg List.reverse hsame.recorded
    have hstopping : s'.run.isStopping = s.run.isStopping := by
      simp only [Run.isStopping, hsame.phase]
    have hexecutor : s'.run.stoppedByExecutor = s.run.stoppedByExecutor := by
      simp only [Run.stoppedByExecutor, hsame.phase]
    refine ⟨?_, ?_, ?_, ?_, ?_⟩
    · rw [hsame.failures, hlog]
      exact hs.failures
    · rw [hsame.failures, hstopping]
      exact hs.some
    · rw [hstopping, hsame.triggered]
      exact hs.stopping
    · rw [hexecutor, hlog]
      exact hs.own
    · rw [hexecutor, hsame.triggered, hsame.clock]
      exact hs.host

end Classified

/-! The end of the loop. -/

/-- A run that is over has reported what it concluded from where it stood. -/
def Reported (origin : Origin) : Control F → Prop
  | .waiting _ => True
  | .done s outcome => ∃ (t : Sys F) (kind : OutcomeKind), s = (t.report kind outcome).1 ∧
      (t.run.isStopping = true ∨ t.run.allIdle = true) ∧ Concluding origin t.run kind outcome

namespace Sys

variable {origin : Origin} (out : Outside F)

theorem finish_reported (s : Sys F) (starting : Option Checkpoint)
    (hover : s.run.isStopping = true ∨ s.run.allIdle = true)
    (hgiven : ∀ checkpoint, starting = some checkpoint → Carried origin s.run checkpoint none) :
    Reported origin (s.finish out starting) := by
  obtain ⟨t, kind, outcome, hreported, hsame, hconcluding⟩ :=
    conclude_reports out s starting hgiven
  rw [finish, hreported]
  refine ⟨t, kind, rfl, ?_⟩
  rcases hsame with rfl | rfl
  · exact ⟨hover, hconcluding⟩
  · exact ⟨hover, hconcluding⟩

theorem loopHead_reported (s : Sys F) : Reported origin (s.loopHead out) := by
  rw [loopHead]
  split
  · rename_i hidle
    exact finish_reported out _ none (.inr hidle) fun _ hnone => by cases hnone
  · split
    · rename_i hboth
      rw [Bool.and_eq_true] at hboth
      exact finish_reported out _ none (.inl hboth.1) fun _ hnone => by cases hnone
    · trivial

theorem poll_reported (s : Sys F) : Reported origin (s.poll out) := by
  rw [poll]
  split
  · split
    · exact loopHead_reported out _
    · dsimp only
      split
      · exact loopHead_reported out _
      · trivial
  · rename_i deadline trigger hphase
    have hstopping : s.run.isStopping = true := by
      have hsame : s.run.phase = .Stopping deadline trigger := hphase
      simp only [Run.isStopping, hsame]
    split
    · exact loopHead_reported out _
    · dsimp only
      split
      · exact finish_reported out _ none (.inl hstopping) fun _ hnone => by cases hnone
      · trivial

end Sys

section Launched

variable {out : Outside F} {graph : Graph F} {config : RunConfig} {origin : Origin}
  {state : State F} {control : Control F}

theorem Launch.reported (hlaunch : Launch out graph config origin state control) (polls : Nat) :
    Reported origin (control.after out polls) := by
  induction polls with
  | zero =>
    rw [hlaunch.begins.1]
    show Reported origin (Sys.begin out _ origin)
    rw [Sys.begin]
    split
    · rename_i hstopping
      exact Sys.finish_reported out _ _ (.inl hstopping) (hlaunch.given rfl)
    · exact Sys.loopHead_reported out _
  | succ polls ih =>
    show Reported origin ((control.after out polls).next out)
    cases hnow : control.after out polls with
    | waiting s => exact Sys.poll_reported out s
    | done s outcome =>
      rw [hnow] at ih
      exact ih

theorem Launch.classified (hlaunch : Launch out graph config origin state control)
    (polls : Nat) : Classified out config (control.after out polls).sys := by
  refine (Classified.kept out config).launched hlaunch ?_ polls
  have hlog : recordedFailures (Run.opened graph state config origin.heldNames).log = [] := by
    rw [Run.opened, Run.note, Run.holdAll_log]
    rfl
  have hphase : (Run.opened graph state config origin.heldNames).phase = .Running :=
    Run.holdAll_phase _ _
  have hfailures : (Run.opened graph state config origin.heldNames).failures = [] :=
    Run.holdAll_failures _ _
  refine ⟨?_, ?_, ?_, ?_, ?_⟩
  · rw [hfailures, hlog]
    rfl
  · intro hsome
    exact absurd hfailures hsome
  · intro hstopping
    simp only [Run.isStopping, hphase] at hstopping
    cases hstopping
  · simp only [Run.stoppedByExecutor, hphase, hlog]
    simp
  · intro _ htriggered
    exact .inl htriggered

def Outcome.kind : Outcome F → OutcomeKind
  | .RunEnded _ => .RunEnded
  | .RunFailed .. => .RunFailed
  | .RunCancelled .. => .RunCancelled

private theorem mem_recordedFailures (log : List (Fact F)) (failure : RunFailure)
    (triggered : Bool) :
    (failure, triggered) ∈ recordedFailures log ↔ .failed failure triggered ∈ log := by
  rw [recordedFailures, List.mem_reverse, List.mem_filterMap]
  constructor
  · rintro ⟨fact, hmem, hfact⟩
    cases fact with
    | failed other read =>
      cases hfact
      exact hmem
    | _ => cases hfact
  · intro hmem
    exact ⟨_, hmem, rfl⟩

/-- What a checkpoint takes of a run is not in its log. -/
theorem Carried.note {run : Run F} {checkpoint : Checkpoint} {notBuilt : Option RunFailure}
    (hcarried : Carried origin run checkpoint notBuilt) (fact : Fact F) :
    Carried origin (run.note fact) checkpoint notBuilt := by
  cases hcarried with
  | given _ hsame hunmoved hnames => exact .given checkpoint hsame hunmoved hnames
  | built now _ hbuilt => exact .built now checkpoint hbuilt
  | unreadable now reason hfailed => exact .unreadable now reason hfailed

/-- The kind of an outcome, read off the run it was concluded from. -/
theorem Concluding.classify {run : Run F} {kind : OutcomeKind} {outcome : Outcome F}
    (hconcluding : Concluding origin run kind outcome)
    (hclean : run.failures = [] → run.stoppedByExecutor = false) :
    outcome.kind = kind ∧ (kind = .RunEnded ↔ run.allIdle = true ∧ run.failures = []) ∧
      (kind = .RunFailed ↔ run.stoppedByExecutor = true) ∧
      (kind ≠ .RunEnded → ∃ checkpoint notBuilt, outcome.checkpoint = some checkpoint ∧
        outcome.failures = run.failures ++ notBuilt.toList ∧
          Carried origin run checkpoint notBuilt) := by
  cases hconcluding with
  | ended hidle hnone =>
    refine ⟨rfl, ?_, ?_, fun hended => absurd rfl hended⟩
    · simp only [hidle, hnone, and_self]
    · simp only [hclean hnone, reduceCtorEq, Bool.false_eq_true]
  | failed checkpoint notBuilt hunfinished hown hcarried =>
    refine ⟨rfl, ?_, ?_, fun _ => ⟨checkpoint, notBuilt, rfl, rfl, hcarried⟩⟩
    · simp only [reduceCtorEq, false_iff]
      exact hunfinished
    · simp only [hown]
  | cancelled checkpoint notBuilt hunfinished hhost hcarried =>
    refine ⟨rfl, ?_, ?_, fun _ => ⟨checkpoint, notBuilt, rfl, rfl, hcarried⟩⟩
    · simp only [reduceCtorEq, false_iff]
      exact hunfinished
    · simp only [hhost, reduceCtorEq, Bool.false_eq_true]

/-- The run and its surroundings before its first moment. -/
def Sys.launched (graph : Graph F) (state : State F) (config : RunConfig) : Sys F where
  run := .new graph state config.grace config.sink
  world := .fresh config.triggered

/-- A stopping run is polled with no message there and its deadline past. -/
def Sys.PastDeadline (out : Outside F) (s : Sys F) : Prop :=
  ∃ deadline trigger, s.run.phase = .Stopping deadline trigger ∧ (s.tick out).receive = none ∧
    deadline ≤ ((s.tick out).tick out).world.now

/-- A launched run has recorded what it has met, and nothing else. -/
theorem Launch.recorded (hlaunch : Launch out graph config origin state control) (polls : Nat) :
    recordedFailures (control.after out polls).sys.run.log =
      (Sys.launched graph state config).met out origin polls := by
  have hbegins : control = (Sys.launched graph state config).begin out origin := hlaunch.begins.1
  have hmet := Sys.records_met out (Sys.launched graph state config) origin polls
  have hnone : recordedFailures (Sys.launched graph state config).run.log = [] := rfl
  rw [Sys.Records, ← hbegins, hnone, List.nil_append] at hmet
  exact hmet

/-- At its deadline a stopping run is over.  The end of its instances is no failure, and their
nodes stay with the checkpoint. -/
theorem Launch.abandoned (hlaunch : Launch out graph config origin state control) (polls : Nat)
    {s : Sys F} (hwaiting : control.after out polls = .waiting s) (hpast : s.PastDeadline out) :
    ∃ t outcome, control.after out (polls + 1) = .done t outcome ∧
      recordedFailures t.run.log = recordedFailures s.run.log ∧
      ∀ name slot, s.run.slot name = some slot → slot.isLive →
        ∃ checkpoint, outcome.checkpoint = some checkpoint ∧ name ∈ checkpoint.nodes := by
  obtain ⟨deadline, trigger, hphase, hnone, hdeadline⟩ := hpast
  have hclassified : Classified out config s := by
    have hlaunched := hlaunch.classified polls
    rw [hwaiting] at hlaunched
    exact hlaunched
  have hpolled : s.poll out = ((s.tick out).tick out).abandonAllLive.finish out none := by
    have hticked : (s.tick out).run.phase = .Stopping deadline trigger := hphase
    rw [Sys.poll]
    dsimp only
    rw [hticked]
    dsimp only
    rw [hnone]
    dsimp only
    rw [if_pos hdeadline]
  have hafter : control.after out (polls + 1) = s.poll out := by
    show (control.after out polls).next out = _
    rw [hwaiting]
    rfl
  generalize hleft : ((s.tick out).tick out).abandonAllLive = left at hpolled
  have hrun : left.run = s.run.abandonAllLive := by
    rw [← hleft]
    rfl
  obtain ⟨t, kind, outcome, hreported, hsame, hconcluding⟩ :=
    @Sys.conclude_reports _ _ origin out left none fun _ hgiven => by cases hgiven
  have hlog : t.run.log = s.run.log := by
    have hkept : t.run = left.run := by
      rcases hsame with rfl | rfl <;> rfl
    rw [hkept, hrun]
    rfl
  refine ⟨(t.report kind outcome).1, outcome, ?_, ?_, ?_⟩
  · rw [hafter, hpolled, Sys.finish, hreported]
    rfl
  · show recordedFailures t.run.log = _
    rw [hlog]
  · intro name slot hslot hlive
    have hmem : name ∈ left.run.nonIdleNames := by
      rw [hrun]
      refine (Run.mem_nonIdleNames _ name).mpr ⟨slot.abandon, ?_, ?_⟩
      · rw [Run.slot_abandonAllLive, hslot, Option.map_some, if_pos hlive]
      · simp [NodeSlot.isIdle, NodeSlot.abandon, NodeSlot.leaveUntaken]
    have hclean : left.run.failures = [] → left.run.stoppedByExecutor = false := by
      rw [hrun]
      exact hclassified.clean
    obtain ⟨-, hended, -, hcarries⟩ := hconcluding.classify hclean
    have hunended : kind ≠ .RunEnded := by
      intro hkind
      obtain ⟨slot', hslot', hidle⟩ := (Run.mem_nonIdleNames _ name).mp hmem
      have hall := (Run.allIdle_iff _).mp (hended.mp hkind).1 name slot' hslot'
      rw [hidle] at hall
      cases hall
    obtain ⟨checkpoint, notBuilt, hcheckpoint, -, hcarried⟩ := hcarries hunended
    exact ⟨checkpoint, hcheckpoint, (hcarried.mem_nodes name).mpr hmem⟩

/-- A run records each failure that its surroundings deal it, in either phase and in order, and no
other: a creation, an instance, an update, an edge, a checkpoint or a sink.  It ends when every node
is idle and there was none.  It fails when it met one with the token untriggered, and is cancelled
otherwise, which takes a host that triggered the token.  Both carry the recorded failures in order,
and last that of a checkpoint that could not be built.  The token is triggered by the host, or by
the executor for a recorded failure, and then before the next wait.  What the deadline abandons is
no failure: it stays in the checkpoint. -/
theorem outcome_classified (hlaunch : Launch out graph config origin state control)
    (polls : Nat) :
    recordedFailures (control.after out polls).sys.run.log =
        (Sys.launched graph state config).met out origin polls ∧
    ((∃ failure, (failure, false) ∈ (Sys.launched graph state config).met out origin polls) →
      (control.after out polls).sys.world.triggered = true) ∧
    ((control.after out polls).sys.world.triggered = true →
      HostTriggered out config (control.after out polls).sys.world.clock ∨
        ∃ failure, .failed failure false ∈ (control.after out polls).sys.run.log) ∧
    (∀ s, control.after out polls = .waiting s → s.PastDeadline out →
      ∃ t outcome, control.after out (polls + 1) = .done t outcome ∧
        recordedFailures t.run.log = recordedFailures s.run.log ∧
        ∀ name slot, s.run.slot name = some slot → slot.isLive →
          ∃ checkpoint, outcome.checkpoint = some checkpoint ∧ name ∈ checkpoint.nodes) ∧
    ∀ s outcome, control.after out polls = .done s outcome →
      (∃ past, s.run.log = .concluded outcome :: .told (.Outcome outcome.kind) :: past) ∧
      (outcome.kind = .RunEnded ↔ s.run.allIdle = true ∧ recordedFailures s.run.log = []) ∧
      (outcome.kind = .RunFailed ↔ ∃ failure, .failed failure false ∈ s.run.log) ∧
      (outcome.kind = .RunCancelled ↔
        ¬(s.run.allIdle = true ∧ recordedFailures s.run.log = []) ∧
          ¬∃ failure, .failed failure false ∈ s.run.log) ∧
      (outcome.kind = .RunCancelled → HostTriggered out config s.world.clock) ∧
      (outcome.kind ≠ .RunEnded → ∃ checkpoint notBuilt,
        outcome.checkpoint = some checkpoint ∧
          outcome.failures = (recordedFailures s.run.log).map Prod.fst ++ notBuilt.toList ∧
          Carried origin s.run checkpoint notBuilt) := by
  have hclassified := hlaunch.classified polls
  have hrecorded := hlaunch.recorded polls
  refine ⟨hrecorded, ?_, ?_, fun s hwaiting => hlaunch.abandoned polls hwaiting, ?_⟩
  · rw [← hrecorded]
    intro hmet
    have hown := hclassified.own.mpr hmet
    apply hclassified.stopping
    rw [Run.isStopping]
    rw [Run.stoppedByExecutor] at hown
    split at hown
    · rename_i hphase
      rw [hphase]
    · cases hown
  · intro htriggered
    cases hown : (control.after out polls).sys.run.stoppedByExecutor with
    | false => exact .inl (hclassified.host hown htriggered)
    | true =>
      obtain ⟨failure, hfailure⟩ := hclassified.own.mp hown
      exact .inr ⟨failure, (mem_recordedFailures _ _ _).mp hfailure⟩
  · intro s outcome hover
    have hreported := hlaunch.reported polls
    rw [hover] at hreported hclassified
    obtain ⟨t, kind, rfl, hstopped, hconcluding⟩ := hreported
    have hown : t.run.stoppedByExecutor = true ↔
        ∃ failure, .failed failure false ∈ (t.report kind outcome).1.run.log := by
      have hfailed := hclassified.own
      simp only [mem_recordedFailures] at hfailed
      exact hfailed
    have hfailures : t.run.failures =
        (recordedFailures (t.report kind outcome).1.run.log).map Prod.fst := hclassified.failures
    have hnone : recordedFailures (t.report kind outcome).1.run.log = [] ↔
        t.run.failures = [] := by
      rw [hfailures, List.map_eq_nil_iff]
    obtain ⟨hkind, hended, hexecutor, hcarries⟩ := hconcluding.classify hclassified.clean
    have hidle : (t.report kind outcome).1.run.allIdle = t.run.allIdle := rfl
    rw [hkind, hnone, ← hown, hidle, ← hfailures]
    have hcancelled : kind = .RunCancelled ↔ ¬(t.run.allIdle = true ∧ t.run.failures = []) ∧
        ¬t.run.stoppedByExecutor = true := by
      rw [← hended, ← hexecutor]
      cases kind <;> simp
    refine ⟨⟨t.run.log, rfl⟩, hended, hexecutor, hcancelled, ?_, ?_⟩
    · intro hcancel
      obtain ⟨hunfinished, hnot⟩ := hcancelled.mp hcancel
      have hstopping : t.run.isStopping = true := by
        rcases hstopped with hstopping | hidle
        · exact hstopping
        · exact hclassified.some fun hempty => hunfinished ⟨hidle, hempty⟩
      have hhost : t.run.stoppedByExecutor = false := by simpa using hnot
      exact hclassified.host hhost (hclassified.stopping hstopping)
    · intro hunended
      obtain ⟨checkpoint, notBuilt, hcheckpoint, hcarry, hcarried⟩ := hcarries hunended
      exact ⟨checkpoint, notBuilt, hcheckpoint, hcarry, (hcarried.note _).note _⟩

end Launched

/-- The kind of the outcome of a run that is over. -/
def Control.kind : Control F → Option OutcomeKind
  | .waiting _ => none
  | .done _ outcome => some outcome.kind

/-- The small graph cancelled by the host while `n` was being created. -/
theorem outcome_classified_pair :
    ∃ s outcome,
      (pairRun (fun _ => .doing [.trigger]) ⟨false, 0, true⟩).after
        (fun _ => .doing [.trigger]) 2 = .done s outcome ∧
      ¬(s.run.allIdle = true ∧ recordedFailures s.run.log = []) ∧
      HostTriggered (F := Tally) (fun _ => .doing [.trigger]) ⟨false, 0, true⟩ s.world.clock := by
  have hkind : ((pairRun (fun _ => .doing [.trigger]) ⟨false, 0, true⟩).after
      (fun _ => .doing [.trigger]) 2).kind = some .RunCancelled := by
    decide +kernel
  have hclassified := (outcome_classified
    (pair_launch (fun _ => .doing [.trigger]) ⟨false, 0, true⟩) 2).2.2.2.2
  cases hover : (pairRun (fun _ => .doing [.trigger]) ⟨false, 0, true⟩).after
      (fun _ => .doing [.trigger]) 2 with
  | waiting s =>
    rw [hover] at hkind
    cases hkind
  | done s outcome =>
    rw [hover, Control.kind, Option.some.injEq] at hkind
    obtain ⟨-, -, -, hcancelled, hhost, -⟩ := hclassified s outcome hover
    exact ⟨s, outcome, rfl, (hcancelled.mp hkind).1, hhost hkind⟩

end LlmGraph.Executor
