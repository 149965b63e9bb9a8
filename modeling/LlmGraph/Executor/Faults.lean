/- digest: The failures that a run meets, read off what its surroundings answer, each with the token as
   it stands when it is met; the log of the run records these and no others, in their order. -/

import LlmGraph.Executor.Undisturbed

set_option autoImplicit false
set_option relaxedAutoImplicit false

namespace LlmGraph.Executor

open Contract

variable {F : Type} [Fields F]

/-- The failure an entry records, with the token as it stood then. -/
def Fact.recorded : Fact F → Option (RunFailure × Bool)
  | .failed failure triggered => some (failure, triggered)
  | _ => none

/-- The failures a log records, in the order they occurred. -/
def recordedFailures (log : List (Fact F)) : List (RunFailure × Bool) :=
  (log.filterMap Fact.recorded).reverse

@[simp] theorem recordedFailures_failed (failure : RunFailure) (triggered : Bool)
    (log : List (Fact F)) :
    recordedFailures (.failed failure triggered :: log) =
      recordedFailures log ++ [(failure, triggered)] := by
  simp [recordedFailures, Fact.recorded]

@[simp] theorem recordedFailures_stopped (trigger : Trigger) (log : List (Fact F)) :
    recordedFailures (.stopped trigger :: log) = recordedFailures log := rfl

def Act.isTrigger : Act F → Bool
  | .trigger => true
  | _ => false

/-- The token as it stands after the others have moved once more. -/
def World.tokenNext (out : Outside F) (world : World F) : Bool :=
  world.triggered || (out world.clock).acts.any Act.isTrigger

theorem World.tick_tokenNext (out : Outside F) (world : World F) :
    (world.tick out).triggered = world.tokenNext out := by
  have hacts (acts : List (Act F)) (world : World F) :
      (acts.foldl act world).triggered = (world.triggered || acts.any Act.isTrigger) := by
    induction acts generalizing world with
    | nil => simp
    | cons act rest ih =>
        rw [List.foldl_cons, ih, List.any_cons]
        cases act with
        | trigger => simp [World.act, Act.isTrigger]
        | _ => simp [World.act, Act.isTrigger, World.updateCore]
  exact hacts (out world.clock).acts world

/-- What a sink that does not accept a checkpoint is refused with. -/
def SinkAnswer.refusal : SinkAnswer → Option String
  | accepted => none
  | refused reason => some reason
  | panicked text => some text
  | cancelled => some "the sink call was cancelled"

namespace Sys

section Meeting

variable (out : Outside F)

/-- A failure that is met, with the token as it stands then. -/
def meets (s : Sys F) (failure : RunFailure) : List (RunFailure × Bool) :=
  [(failure, s.world.tokenNext out)]

/-- No id is minted for an instance. -/
def creationFaults (s : Sys F) (name : String) : List (RunFailure × Bool) :=
  match s.run.slot name, (out s.world.clock).mint with
  | some _, .error reason => s.meets out (.NodeCouldNotStart name reason none)
  | _, _ => []

/-- A held node without an instance is created. -/
def handToFaults (s : Sys F) (name : String) : List (RunFailure × Bool) :=
  if (s.run.slot name).any fun slot => slot.held && slot.presence = .Absent then
    s.creationFaults out name
  else []

def handOverFaults : Sys F → List String → List (RunFailure × Bool)
  | _, [] => []
  | s, name :: rest =>
      if s.run.isStopping then []
      else s.handToFaults out name ++ handOverFaults (s.handTo out name) rest

/-- The checkpoint of a step is not built, or not accepted. -/
def stepCheckpointFaults (s : Sys F) : List (RunFailure × Bool) :=
  let s := s.tick out
  match Checkpoint.build s.world.clock s.run.state.state s.run.graph.shape s.run.nonIdleNames with
  | .error reason => s.meets out (.CheckpointNotBuilt reason)
  | .ok checkpoint =>
      match s.run.sink, (out s.world.clock).sink.refusal with
      | true, some reason => (s.tick out).meets out (.SinkRefused reason checkpoint)
      | _, _ => []

/-- No instance was created, or one of another id. -/
def createdFaults (s : Sys F) (node : String) (id : InstanceId)
    (result : Except CreationFailure Instance) : List (RunFailure × Bool) :=
  match (s.run.slot node).bind (·.firstInputOfCreation id) with
  | none => []
  | some _ =>
      match result with
      | .error failure => s.meets out (.NodeCouldNotStart node failure.reason failure.cause)
      | .ok made =>
          if made.id = id then []
          else s.meets out (.NodeCouldNotStart node
            "the instance does not carry the instance id it was given" none)

/-- The update is refused, the edge fails, or what follows the step. -/
def resultFaults (s : Sys F) (node : String) (id : InstanceId) (update : Fields.Update F) :
    List (RunFailure × Bool) :=
  let s := s.tick out
  match s.run.state.state.apply s.world.clock update with
  | .error error => s.meets out (.UpdateRefused node error.display)
  | .panicked text => s.meets out (.UpdateRefused node text)
  | .ok newState =>
      let s := s.tick out
      match s.run.graph.evaluateEdge s.world.clock node newState with
      | .error (.Failed cause) => s.meets out (.EdgeFailed node cause.displayOf (some cause))
      | .error other => s.meets out (.EdgeFailed node other.display none)
      | .panicked text => s.meets out (.EdgeFailed node text none)
      | .ok targets =>
          let s := s.withRun (·.step node id update newState targets)
          if s.run.allIdle || s.run.isStopping then []
          else
            let next := (s.takeStepCheckpoint out).readToken out
            s.stepCheckpointFaults out ++
              next.handOverFaults out (handOrder next.run (Target.names targets))

/-- A running instance of the node has ended as its event, or the loss of it, tells. -/
def endedFaults (s : Sys F) (node : String) (id : InstanceId)
    (result : Except EventEndError (Event F)) : List (RunFailure × Bool) :=
  match s.run.slot node with
  | none => []
  | some slot =>
      if slot.runningId ≠ some id then []
      else
        match result with
        | .ok (.Result update) =>
            let s : Sys F :=
              { run := (s.run.change node (·.endInstance)).note (.handled node id result)
                world := dropLive s.world node slot }
            (s.reportEvent node id .Result).resultFaults out node id update
        | .ok (.Failed cause) => s.meets out (.NodeFailed node cause.displayOf (some cause))
        | .ok (.Refused reason) => s.meets out (.NodeRefusedInput node reason)
        | .ok .Cancelled =>
            if (s.tick out).world.triggered then []
            else (s.tick out).meets out (.NodeFailed node "cancelled without a cancel request" none)
        | .error .Vanished =>
            s.meets out (.NodeVanished node "the node side ended without a terminal event")
        | .error .Finished =>
            s.meets out (.NodeVanished node "the event end finished without an event")

def messageFaults (s : Sys F) : Message F → List (RunFailure × Bool)
  | .Created node id result => (s.readToken out).createdFaults out node id result
  | .Ended node id result => (s.readToken out).endedFaults out node id result

/-- What the message that a wait is woken by brings; a deadline brings nothing. -/
def pollFaults (s : Sys F) : List (RunFailure × Bool) :=
  let s := s.tick out
  match s.run.phase with
  | .Running =>
      if s.world.triggered then []
      else match (s.tick out).receive with
        | some (message, s) => s.messageFaults out message
        | none => []
  | .Stopping .. =>
      match s.receive with
      | some (message, s) => s.messageFaults out message
      | none => []

def beginFaults (s : Sys F) (origin : Origin) : List (RunFailure × Bool) :=
  let s := (s.withRun fun run =>
    (run.holdAll origin.heldNames).note (.started origin.heldNames)).readToken out
  s.handOverFaults out (handOrder s.run origin.firstTargets)

end Meeting

end Sys

/-- What the next poll meets. -/
def Control.faults (out : Outside F) : Control F → List (RunFailure × Bool)
  | .waiting s => s.pollFaults out
  | .done _ _ => []

/-- What a run has met from its begin to so many polls, in the order it was met. -/
def Sys.met (out : Outside F) (s : Sys F) (origin : Origin) : Nat → List (RunFailure × Bool)
  | 0 => s.beginFaults out origin
  | polls + 1 => s.met out origin polls ++ ((s.begin out origin).after out polls).faults out

namespace Sys

variable {out : Outside F} {s s' s'' : Sys F} {faults more : List (RunFailure × Bool)}

/-- What is recorded from one moment to another. -/
def Records (s s' : Sys F) (faults : List (RunFailure × Bool)) : Prop :=
  recordedFailures s'.run.log = recordedFailures s.run.log ++ faults

namespace Records

theorem same (hlog : s'.run.log.filterMap Fact.recorded = s.run.log.filterMap Fact.recorded) :
    Records s s' [] := by
  rw [Records, recordedFailures, hlog, List.append_nil]
  rfl

theorem refl (s : Sys F) : Records s s [] := .same rfl

theorem trans (hfirst : Records s s' faults) (hsecond : Records s' s'' more) :
    Records s s'' (faults ++ more) := by
  rw [Records, hsecond, hfirst, List.append_assoc]

/-- Nothing is recorded before. -/
theorem after (hfirst : Records s s' []) (hsecond : Records s' s'' faults) :
    Records s s'' faults := hfirst.trans hsecond

theorem before (hfirst : Records s s' faults) (hsecond : Records s' s'' []) :
    Records s s'' faults := by
  have hboth := hfirst.trans hsecond
  rwa [List.append_nil] at hboth

end Records

theorem records_fail (out : Outside F) (s : Sys F) (failure : RunFailure) :
    Records s (s.fail out failure) (s.meets out failure) := by
  rw [Records, meets, ← World.tick_tokenNext]
  show recordedFailures (s.run.fail _ _ failure).log = _
  rw [Run.fail]
  split
  · exact recordedFailures_failed _ _ _
  · exact recordedFailures_failed _ _ _

theorem records_failNode (out : Outside F) (s : Sys F) (node : String) (failure : RunFailure) :
    Records s (s.failNode out node failure) (s.meets out failure) :=
  Records.after (.same rfl : Records s (s.leaveUntaken node) [])
    (records_fail out (s.leaveUntaken node) failure)

theorem records_readToken (out : Outside F) (s : Sys F) : Records s (s.readToken out) [] := by
  rw [readToken]
  split
  · exact .same rfl
  · exact .same rfl

theorem records_giveInput (out : Outside F) (s : Sys F) (name : String) (state : Shared F) :
    Records s (s.giveInput out name state).2 [] := by
  rw [giveInput]
  split
  · split
    · exact .same rfl
    · exact .same rfl
  · exact .same rfl

theorem records_giveHeld (out : Outside F) (s : Sys F) (name : String) :
    Records s (s.giveHeld out name) [] := by
  have hgiven := records_giveInput out s name s.run.state
  rw [giveHeld]
  dsimp only
  split
  · exact hgiven.after (.same rfl)
  · exact hgiven

theorem records_beginCreation (out : Outside F) (s : Sys F) (name : String) :
    Records s (s.beginCreation out name) (s.creationFaults out name) := by
  rw [beginCreation, creationFaults]
  split
  · rename_i hslot
    rw [hslot]
    exact .refl s
  · rename_i slot hslot
    rw [hslot]
    split
    · rename_i reason hmint
      rw [hmint]
      exact records_failNode out s name _
    · rename_i hmint
      rw [hmint]
      exact .same rfl

theorem handOverFaults_stopping (out : Outside F) {s : Sys F} (hstopping : s.run.isStopping = true)
    (order : List String) : s.handOverFaults out order = [] := by
  cases order with
  | nil => rfl
  | cons name rest =>
    rw [handOverFaults, if_pos hstopping]

theorem records_handTo (out : Outside F) (s : Sys F) (name : String) :
    Records s (s.handTo out name) (s.handToFaults out name) := by
  rw [handTo, handToFaults]
  cases hslot : s.run.slot name with
  | none => exact .refl s
  | some slot =>
    rw [Option.any_some]
    dsimp only
    cases hheld : slot.held with
    | false => exact .refl s
    | true =>
      cases hpresence : slot.presence with
      | Absent => exact records_beginCreation out s name
      | Creating => exact .refl s
      | Running => exact records_giveHeld out s name

theorem records_handOver (out : Outside F) (s : Sys F) (targets : List String) :
    Records s (s.handOver out targets) (s.handOverFaults out (handOrder s.run targets)) := by
  rw [handOver]
  generalize handOrder s.run targets = order
  induction order generalizing s with
  | nil => exact .refl s
  | cons name rest ih =>
    rw [List.foldl_cons, handOverFaults]
    cases hstopping : s.run.isStopping with
    | true =>
      have hrest : rest.foldl (fun s name => if s.run.isStopping then s else s.handTo out name)
          s = s := by
        clear ih
        induction rest with
        | nil => rfl
        | cons other rest ih =>
          rw [List.foldl_cons, if_pos hstopping]
          exact ih
      rw [if_pos rfl, if_pos rfl, hrest]
      exact .refl s
    | false =>
      rw [if_neg Bool.false_ne_true, if_neg Bool.false_ne_true]
      exact (records_handTo out s name).trans (ih (s.handTo out name))

theorem records_takeStepCheckpoint (out : Outside F) (s : Sys F) :
    Records s (s.takeStepCheckpoint out) (s.stepCheckpointFaults out) := by
  have hticked : Records s (s.tick out) [] := .same rfl
  rw [takeStepCheckpoint, stepCheckpointFaults]
  dsimp only
  cases hbuilt : Checkpoint.build (s.tick out).world.clock (s.tick out).run.state.state
      (s.tick out).run.graph.shape (s.tick out).run.nonIdleNames with
  | error reason => exact hticked.after (records_fail out _ _)
  | ok checkpoint =>
    dsimp only
    cases hsink : (s.tick out).run.sink with
    | false => exact hticked
    | true =>
      have hoffered : Records s (((s.tick out).withRun (·.note (.offered checkpoint))).tick out) [] :=
        .same rfl
      cases hanswer : (out (s.tick out).world.clock).sink with
      | accepted => exact hoffered
      | refused reason => exact hoffered.after (records_fail out _ _)
      | panicked text => exact hoffered.after (records_fail out _ _)
      | cancelled => exact hoffered.after (records_fail out _ _)

theorem records_settleCreated (out : Outside F) (s : Sys F) (node : String) (made : Instance)
    (firstInput : Shared F) : Records s (s.settleCreated out node made firstInput) [] := by
  rw [settleCreated]
  split
  · exact .same rfl
  · rename_i slot hslot
    have hcreated : Records s ⟨s.run.instanceCreated node made.id made.core slot,
        s.world.spawnForwarder node made.id made.core⟩ [] := .same rfl
    have hgiven := hcreated.after (records_giveInput out _ node firstInput)
    dsimp only
    split
    · exact hgiven.after (.same rfl)
    · split
      · exact hgiven.after (records_giveHeld out _ node)
      · exact hgiven

/-- A failure is met alike where the token and the moment are the same. -/
theorem meets_same (htriggered : s'.world.triggered = s.world.triggered)
    (hclock : s'.world.clock = s.world.clock) (failure : RunFailure) :
    s'.meets out failure = s.meets out failure := by
  rw [meets, meets, World.tokenNext, World.tokenNext, htriggered, hclock]

theorem records_onCreated (out : Outside F) (s : Sys F) (node : String) (id : InstanceId)
    (result : Except CreationFailure Instance) :
    Records s (s.onCreated out node id result) (s.createdFaults out node id result) := by
  unfold onCreated createdFaults
  have hfails (failure : RunFailure) : Records s
      ((({ s with world := dropResult s.world result } : Sys F).withRun
        (·.change node (·.endInstance.hold))).failNode out node failure) (s.meets out failure) := by
    have hsame : (({ s with world := dropResult s.world result } : Sys F).withRun
        (·.change node (·.endInstance.hold))).meets out failure = s.meets out failure := by
      cases result with
      | error => exact meets_same rfl rfl failure
      | ok => exact meets_same rfl rfl failure
    have hfailed := records_failNode out (({ s with world := dropResult s.world result } :
      Sys F).withRun (·.change node (·.endInstance.hold))) node failure
    rw [hsame] at hfailed
    exact Records.after (.same rfl) hfailed
  cases hinput : (s.run.slot node).bind (·.firstInputOfCreation id) with
  | none => exact .same rfl
  | some firstInput =>
    cases result with
    | error failure => exact hfails _
    | ok made =>
      dsimp only
      split
      · exact records_settleCreated out s node made firstInput
      · exact hfails _

theorem records_resultStep (out : Outside F) (s : Sys F) (node : String) (id : InstanceId)
    (update : Fields.Update F) :
    Records s (s.resultStep out node id update) (s.resultFaults out node id update) := by
  have hticked : Records s (s.tick out) [] := .same rfl
  have htwice : Records s ((s.tick out).tick out) [] := .same rfl
  rw [resultStep, resultFaults]
  dsimp only
  cases happlied : (s.tick out).run.state.state.apply (s.tick out).world.clock update with
  | error error => exact hticked.after (records_failNode out _ node _)
  | panicked text => exact hticked.after (records_failNode out _ node _)
  | ok newState =>
    dsimp only
    cases hevaluated : ((s.tick out).tick out).run.graph.evaluateEdge
        ((s.tick out).tick out).world.clock node newState with
    | error error =>
      cases error with
      | Failed cause => exact htwice.after (records_failNode out _ node _)
      | _ => exact htwice.after (records_failNode out _ node _)
    | panicked text => exact htwice.after (records_failNode out _ node _)
    | ok targets =>
      dsimp only
      have hstepped : Records s (((s.tick out).tick out).withRun
          (·.step node id update newState targets)) [] := by
        refine .same ?_
        rw [run_withRun, Run.step, Run.holdAll_log]
        rfl
      generalize ((s.tick out).tick out).withRun (·.step node id update newState targets) = t
        at hstepped
      cases hidle : t.run.allIdle with
      | true => exact hstepped
      | false =>
        cases hstopping : t.run.isStopping with
        | true =>
          simp only [Bool.or_true, Bool.not_true, Bool.false_eq_true, if_false, if_true]
          rw [hstopping]
          exact hstepped
        | false =>
          have hcheckpoint := hstepped.after ((records_takeStepCheckpoint out t).before
            (records_readToken out _))
          simp only [Bool.or_false, Bool.not_false, Bool.false_eq_true, if_false, if_true]
          generalize (t.takeStepCheckpoint out).readToken out = next at hcheckpoint
          cases hstops : next.run.isStopping with
          | false => exact hcheckpoint.trans (records_handOver out next (Target.names targets))
          | true =>
            rw [handOverFaults_stopping out hstops, List.append_nil]
            exact hcheckpoint

theorem records_onEnded (out : Outside F) (s : Sys F) (node : String) (id : InstanceId)
    (result : Except EventEndError (Event F)) :
    Records s (s.onEnded out node id result) (s.endedFaults out node id result) := by
  rw [onEnded, endedFaults]
  cases hslot : s.run.slot node with
  | none => exact .refl s
  | some slot =>
    dsimp only
    split
    · exact .refl s
    have hdropped : (dropLive s.world node slot).triggered = s.world.triggered ∧
        (dropLive s.world node slot).clock = s.world.clock := by
      rcases slot with ⟨kind, subkind, _ | ⟨id, input⟩ | ⟨id, core⟩, held, untaken⟩
      · exact ⟨rfl, rfl⟩
      · exact ⟨rfl, rfl⟩
      · exact ⟨rfl, rfl⟩
    have hended : Records s ⟨(s.run.change node (·.endInstance)).note (.handled node id result),
        dropLive s.world node slot⟩ [] := .same rfl
    generalize hsys : (⟨(s.run.change node (·.endInstance)).note (.handled node id result),
      dropLive s.world node slot⟩ : Sys F) = t at hended
    have hworld : t.world = dropLive s.world node slot := by rw [← hsys]
    have hmeets (failure : RunFailure) : t.meets out failure = s.meets out failure :=
      meets_same (by rw [hworld, hdropped.1]) (by rw [hworld, hdropped.2]) failure
    have htold (event : ObservedEvent) : Records s (t.reportEvent node id event) [] :=
      hended.after (.same rfl)
    have hfails (event : ObservedEvent) (failure : RunFailure) :
        Records s ((t.reportEvent node id event).failNode out node failure)
          (s.meets out failure) := by
      rw [← hmeets]
      exact (htold event).after (records_failNode out _ node failure)
    have hlost (failure : RunFailure) :
        Records s (t.failNode out node failure) (s.meets out failure) := by
      rw [← hmeets]
      exact hended.after (records_failNode out t node failure)
    cases result with
    | error error =>
      cases error with
      | Vanished => exact hlost _
      | Finished => exact hlost _
    | ok event =>
      cases event with
      | Result update => exact (htold .Result).after (records_resultStep out _ node id update)
      | Failed cause => exact hfails .Failed _
      | Refused reason => exact hfails .Refused _
      | Cancelled =>
        have htoken : ((t.reportEvent node id .Cancelled).tick out).world.triggered =
            (s.tick out).world.triggered := by
          show (t.world.tick out).triggered = (s.world.tick out).triggered
          rw [World.tick_tokenNext, World.tick_tokenNext, World.tokenNext, World.tokenNext, hworld,
            hdropped.1, hdropped.2]
        have hclock : ((t.reportEvent node id .Cancelled).tick out).world.clock =
            (s.tick out).world.clock := by
          show t.world.clock + 1 = s.world.clock + 1
          rw [hworld, hdropped.2]
        have hticked : Records s ((t.reportEvent node id .Cancelled).tick out) [] :=
          (htold .Cancelled).after (.same rfl)
        dsimp only
        rw [htoken]
        split
        · exact hticked.after (.same rfl)
        · rw [← meets_same htoken hclock]
          exact hticked.after (records_failNode out _ node _)

theorem records_step (out : Outside F) (s : Sys F) (message : Message F) :
    Records s (s.step out message) (s.messageFaults out message) := by
  have hread := records_readToken out s
  cases message with
  | Created node id result => exact hread.after (records_onCreated out _ node id result)
  | Ended node id result => exact hread.after (records_onEnded out _ node id result)

theorem records_finish (out : Outside F) (s : Sys F) (starting : Option Checkpoint) :
    Records s (s.finish out starting).sys [] := by
  show Records s (s.conclude out starting).1 []
  unfold conclude
  split
  · exact .same rfl
  · cases starting with
    | some checkpoint =>
      dsimp only
      split
      · exact .same rfl
      · exact .same rfl
    | none =>
      dsimp only [outcomeCheckpoint]
      split
      · split
        · exact .same rfl
        · exact .same rfl
      · split
        · exact .same rfl
        · exact .same rfl

theorem records_loopHead (out : Outside F) (s : Sys F) : Records s (s.loopHead out).sys [] := by
  have hread := records_readToken out s
  rw [loopHead]
  split
  · exact hread.after (records_finish out _ none)
  · split
    · exact hread.after (Records.after (.same rfl) (records_finish out _ none))
    · exact hread

theorem records_receive {message : Message F} (hreceived : s.receive = some (message, s')) :
    Records s s' [] := by
  rw [receive] at hreceived
  split at hreceived
  · cases hreceived
  · cases hreceived
    exact .same rfl

theorem records_poll (out : Outside F) (s : Sys F) :
    Records s (s.poll out).sys (s.pollFaults out) := by
  have hticked : Records s (s.tick out) [] := .same rfl
  have htwice : Records s ((s.tick out).tick out) [] := .same rfl
  have hmessage (t t' : Sys F) (message : Message F) (ht : Records s t [])
      (hreceived : t.receive = some (message, t')) :
      Records s ((t'.step out message).loopHead out).sys (t'.messageFaults out message) :=
    ht.after ((records_receive hreceived).after ((records_step out t' message).before
      (records_loopHead out _)))
  rw [poll, pollFaults]
  dsimp only
  cases hphase : (s.tick out).run.phase with
  | Running =>
    dsimp only
    split
    · exact hticked.after ((records_readToken out _).after (records_loopHead out _))
    · cases hreceived : ((s.tick out).tick out).receive with
      | none => exact htwice
      | some received => exact hmessage _ received.2 received.1 htwice hreceived
  | Stopping deadline trigger =>
    dsimp only
    cases hreceived : (s.tick out).receive with
    | some received => exact hmessage _ received.2 received.1 hticked hreceived
    | none =>
      dsimp only
      split
      · exact htwice.after (Records.after (.same rfl) (records_finish out _ none))
      · exact htwice

theorem records_begin (out : Outside F) (s : Sys F) (origin : Origin) :
    Records s (s.begin out origin).sys (s.beginFaults out origin) := by
  have hstarted : Records s (s.withRun fun run =>
      (run.holdAll origin.heldNames).note (.started origin.heldNames)) [] := by
    refine .same ?_
    rw [run_withRun, Run.note, Run.holdAll_log]
    rfl
  have hread := hstarted.after (records_readToken out _)
  rw [begin, beginFaults]
  generalize (s.withRun fun run => (run.holdAll origin.heldNames).note
    (.started origin.heldNames)).readToken out = t at hread
  cases hstopping : t.run.isStopping with
  | true =>
    rw [handOverFaults_stopping out hstopping, if_pos rfl]
    exact hread.after (records_finish out t _)
  | false =>
    rw [if_neg Bool.false_ne_true]
    exact hread.after ((records_handOver out t _).before (records_loopHead out _))

/-- A run records what it meets, all of it and in order. -/
theorem records_met (out : Outside F) (s : Sys F) (origin : Origin) (polls : Nat) :
    Records s ((s.begin out origin).after out polls).sys (s.met out origin polls) := by
  induction polls with
  | zero => exact records_begin out s origin
  | succ polls ih =>
    refine ih.trans ?_
    show Records _ (((s.begin out origin).after out polls).next out).sys _
    cases hnow : (s.begin out origin).after out polls with
    | waiting t => exact records_poll out t
    | done t outcome => exact .refl t

end Sys

end LlmGraph.Executor
