/- digest: A stopping run comes to its end: what the others still owe its driver never grows, each
   message it handles takes some of it away, and with nothing left to wait for it concludes. -/

import LlmGraph.Executor.Stopping
import Mathlib.Algebra.GroupWithZero.Nat

set_option autoImplicit false
set_option relaxedAutoImplicit false

namespace LlmGraph.Executor

open Contract

variable {F : Type} [Fields F]

/-- What a message weighs: the end of a creation may leave a forwarder behind. -/
def Message.weight : Message F → Nat
  | .Created .. => 3
  | .Ended .. => 1

namespace World

/-- What the others still owe the driver: the messages it has to handle, and the tasks that will
send one. -/
def load (world : World F) : Nat :=
  4 * world.creations.length + 2 * world.forwarders.length +
    (world.mailbox.map Message.weight).sum

theorem complete_load (world : World F) (creation : Creation)
    (result : Except CreationFailure Address) :
    (world.complete creation result).load ≤ world.load := by
  have hsent : ∀ sent, creation ∈ world.creations →
      ({ world with
        creations := world.creations.erase creation
        mailbox := world.mailbox ++ [.Created creation.node creation.id sent] } : World F).load ≤
          world.load := by
    intro sent hmem
    have hlength := List.length_erase_of_mem hmem
    have hpos := List.length_pos_of_mem hmem
    simp only [load, List.map_append, List.sum_append, List.map_cons, List.map_nil,
      List.sum_cons, List.sum_nil, Message.weight, hlength]
    omega
  rw [complete]
  split
  · exact le_rfl
  · rename_i hmem
    rw [not_not] at hmem
    cases result with
    | error failure => exact hsent _ hmem
    | ok address =>
      dsimp only
      split
      · split
        · exact hsent _ hmem
        · exact le_rfl
      · exact le_rfl

theorem forward_load (world : World F) (address : Address) :
    (world.forward address).load ≤ world.load := by
  rw [forward]
  split
  · rename_i forwarder core hfound hcore
    dsimp only
    split
    · exact le_rfl
    · have hmem := List.mem_of_find?_eq_some hfound
      have hlength := List.length_erase_of_mem hmem
      have hpos := List.length_pos_of_mem hmem
      simp only [load, updateCore, List.map_append, List.sum_append, List.map_cons,
        List.map_nil, List.sum_cons, List.sum_nil, Message.weight, hlength]
      omega
  · exact le_rfl

theorem act_load (world : World F) (act : Act F) : (world.act act).load ≤ world.load := by
  cases act with
  | created creation result => exact world.complete_load creation result
  | forward core => exact world.forward_load core
  | letGo core =>
    show (world.letGo core).load ≤ world.load
    rw [letGo]
    split
    · exact le_rfl
    · exact le_rfl
  | _ => exact le_rfl

theorem tick_load (out : Outside F) (world : World F) : (world.tick out).load ≤ world.load := by
  have hall : ∀ (acts : List (Act F)) (world : World F),
      (acts.foldl act world).load ≤ world.load := by
    intro acts
    induction acts with
    | nil => exact fun world => le_rfl
    | cons act rest ih => exact fun world => (ih (world.act act)).trans (world.act_load act)
  exact hall (out world.clock).acts world

theorem dropResult_load (world : World F) (result : Except CreationFailure Instance) :
    (Sys.dropResult world result).load = world.load := by
  cases result with
  | error failure => rfl
  | ok made => rfl

theorem dropLive_load (world : World F) (node : String) (slot : NodeSlot F) :
    (Sys.dropLive world node slot).load ≤ world.load := by
  rcases slot with ⟨kind, subkind, _ | ⟨id, input⟩ | ⟨id, core⟩, held, untaken⟩
  · exact le_rfl
  · have hlength := List.length_erase_le (a := (⟨node, id⟩ : Creation)) (l := world.creations)
    simp only [Sys.dropLive, abortCreation, load]
    omega
  · have hlength := List.length_filter_le (fun forwarder : Forwarder => forwarder.core != core)
      world.forwarders
    simp only [Sys.dropLive, dropRunning, updateCore, load]
    omega

end World

namespace Sys

variable (out : Outside F)

theorem readToken_load (s : Sys F) : (s.readToken out).world.load ≤ s.world.load := by
  have hticked := World.tick_load out s.world
  rw [readToken]
  split
  · exact hticked
  · exact hticked

theorem failNode_load (s : Sys F) (node : String) (failure : RunFailure) :
    (s.failNode out node failure).world.load ≤ s.world.load := World.tick_load out s.world

theorem giveInput_load (s : Sys F) (name : String) (state : Shared F) :
    (s.giveInput out name state).2.world.load ≤ s.world.load := by
  have hticked := World.tick_load out s.world
  rw [giveInput]
  split
  · split
    · exact hticked
    · exact hticked
  · exact hticked

theorem giveHeld_load (s : Sys F) (name : String) :
    (s.giveHeld out name).world.load ≤ s.world.load := by
  have hgiven := giveInput_load out s name s.run.state
  rw [giveHeld]
  dsimp only
  split
  · exact hgiven
  · exact hgiven

/-- An instance that is there leaves a forwarder to wait for. -/
theorem settleCreated_load (s : Sys F) (node : String) (made : Instance) (firstInput : Shared F) :
    (s.settleCreated out node made firstInput).world.load ≤ s.world.load + 2 := by
  rw [settleCreated]
  split
  · show s.world.load ≤ s.world.load + 2
    omega
  · rename_i slot _
    have hspawned : (s.world.spawnForwarder node made.id made.core).load = s.world.load + 2 := by
      simp only [World.spawnForwarder, World.load, List.length_append, List.length_singleton]
      omega
    have hgiven := giveInput_load out ⟨s.run.instanceCreated node made.id made.core slot,
      s.world.spawnForwarder node made.id made.core⟩ node firstInput
    rw [hspawned] at hgiven
    dsimp only
    split
    · exact hgiven
    · split
      · exact (giveHeld_load out _ node).trans hgiven
      · exact hgiven

theorem onCreated_load (s : Sys F) (node : String) (id : InstanceId)
    (result : Except CreationFailure Instance) :
    (s.onCreated out node id result).world.load ≤ s.world.load + 2 := by
  have hdropped := World.dropResult_load s.world result
  have hfailed : ∀ (run : Run F) (failure : RunFailure),
      ((⟨run, dropResult s.world result⟩ : Sys F).failNode out node failure).world.load ≤
        s.world.load + 2 := by
    intro run failure
    have hfailed := failNode_load out ⟨run, dropResult s.world result⟩ node failure
    dsimp only at hfailed
    omega
  rw [onCreated]
  split
  · show (dropResult s.world result).load ≤ s.world.load + 2
    omega
  · dsimp only
    split
    · split
      · exact settleCreated_load out s node _ _
      · exact hfailed _ _
    · exact hfailed _ _

/-- Of a run that stops, a result starts nothing. -/
theorem resultStep_load {s : Sys F} (hstopping : s.run.isStopping = true) (node : String)
    (id : InstanceId) (update : Fields.Update F) :
    (s.resultStep out node id update).world.load ≤ s.world.load := by
  have hticked := World.tick_load out s.world
  have htwice := (World.tick_load out (s.world.tick out)).trans hticked
  rw [resultStep]
  dsimp only
  split
  · exact (failNode_load out _ node _).trans hticked
  · exact (failNode_load out _ node _).trans hticked
  · rename_i newState _
    split
    · exact (failNode_load out _ node _).trans htwice
    · exact (failNode_load out _ node _).trans htwice
    · exact (failNode_load out _ node _).trans htwice
    · rename_i targets _
      have hstill : (s.run.step node id update newState targets).isStopping = true := by
        have hphase : (s.run.step node id update newState targets).phase = s.run.phase :=
          Run.holdAll_phase _ _
        simp only [Run.isStopping, hphase]
        exact hstopping
      simp only [run_withRun, run_tick, hstill, Bool.not_true, Bool.false_eq_true, if_false,
        ite_self]
      exact htwice

theorem onEnded_load {s : Sys F} (hstopping : s.run.isStopping = true) (node : String)
    (id : InstanceId) (result : Except EventEndError (Event F)) :
    (s.onEnded out node id result).world.load ≤ s.world.load := by
  rw [onEnded]
  split
  · exact le_rfl
  · rename_i slot _
    split
    · exact le_rfl
    · have hdropped := World.dropLive_load s.world node slot
      generalize hended : (⟨(s.run.change node (·.endInstance)).note (.handled node id result),
        dropLive s.world node slot⟩ : Sys F) = ended
      have hstill : ended.run.isStopping = true := by
        rw [← hended]
        exact hstopping
      have hless : ended.world.load ≤ s.world.load := by
        rw [← hended]
        exact hdropped
      have htold : ∀ event, (ended.reportEvent node id event).world.load ≤ s.world.load :=
        fun _ => hless
      have hfailed : ∀ (event : ObservedEvent) (failure : RunFailure),
          ((ended.reportEvent node id event).failNode out node failure).world.load ≤
            s.world.load :=
        fun event failure => (failNode_load out _ node failure).trans (htold event)
      dsimp only
      split
      · exact (resultStep_load out (s := ended.reportEvent node id .Result) hstill node id _).trans
          (htold .Result)
      · exact hfailed .Failed _
      · exact hfailed .Refused _
      · have hticked := (World.tick_load out ended.world).trans hless
        split
        · exact hticked
        · exact (failNode_load out _ node _).trans hticked
      · exact (failNode_load out _ node _).trans hless
      · exact (failNode_load out _ node _).trans hless

/-- A message handled while the run stops leaves less to wait for than it weighed. -/
theorem step_load {s : Sys F} (hstopping : s.run.isStopping = true) (message : Message F) :
    (s.step out message).world.load < s.world.load + message.weight := by
  have hread := readToken_load out s
  rw [readToken_of_stopping out hstopping] at hread
  cases message with
  | Created node id result =>
    have hcreated := onCreated_load out (s.tick out) node id result
    show ((s.readToken out).onCreated out node id result).world.load < s.world.load + 3
    rw [readToken_of_stopping out hstopping]
    omega
  | Ended node id result =>
    have hended := onEnded_load out (s := s.tick out) hstopping node id result
    show ((s.readToken out).onEnded out node id result).world.load < s.world.load + 1
    rw [readToken_of_stopping out hstopping]
    omega

end Sys

/-! The time of the stop. -/

theorem World.act_now (world : World F) (act : Act F) : world.now ≤ (world.act act).now := by
  cases act with
  | pass duration => exact Nat.le_add_right world.now duration
  | created creation result =>
    show world.now ≤ (world.complete creation result).now
    rw [complete]
    split
    · exact le_rfl
    · cases result with
      | error failure => exact le_rfl
      | ok address =>
        dsimp only
        split
        · split
          · exact le_rfl
          · exact le_rfl
        · exact le_rfl
  | forward core =>
    show world.now ≤ (world.forward core).now
    rw [forward]
    split
    · dsimp only
      split
      · exact le_rfl
      · exact le_rfl
    · exact le_rfl
  | letGo core =>
    show world.now ≤ (world.letGo core).now
    rw [letGo]
    split
    · exact le_rfl
    · exact le_rfl
  | _ => exact le_rfl

theorem World.tick_now (out : Outside F) (world : World F) : world.now ≤ (world.tick out).now := by
  have hall : ∀ (acts : List (Act F)) (world : World F),
      world.now ≤ (acts.foldl World.act world).now := by
    intro acts
    induction acts with
    | nil => exact fun world => le_rfl
    | cons act rest ih => exact fun world => (world.act_now act).trans (ih (world.act act))
  exact hall (out world.clock).acts world

namespace Sys

variable (out : Outside F)

/-- A run that stops keeps its deadline and who stopped it. -/
theorem phase_kept (deadline : Nat) (trigger : Trigger) :
    Kept out (fun s : Sys F => s.run.phase = .Stopping deadline trigger) where
  tick _ hphase := hphase
  stop s hphase hrunning := by
    simp only [Run.isStopping, hphase] at hrunning
    cases hrunning
  fail s failure hphase := by
    have hstopping : (s.tick out).run.isStopping = true := by
      simp only [run_tick, Run.isStopping, hphase]
    rw [fail]
    dsimp only
    rw [Run.fail_of_stopping hstopping]
    exact hphase
  same s s' hphase hsame := hsame.phase.trans hphase

theorem loopHead_load (s : Sys F) :
    (s.loopHead out).isDone = true ∨
      ∃ s', s.loopHead out = .waiting s' ∧ s'.world.load ≤ s.world.load := by
  rw [loopHead]
  split
  · exact .inl rfl
  · split
    · exact .inl rfl
    · exact .inr ⟨_, rfl, readToken_load out s⟩

/-- One poll of a stopping driver: it concludes, or it leaves less to wait for, or there was no
message before the deadline. -/
theorem poll_stopping {s : Sys F} {deadline : Nat} {trigger : Trigger}
    (hphase : s.run.phase = .Stopping deadline trigger) :
    (s.poll out).isDone = true ∨ ∃ s', s.poll out = .waiting s' ∧
      s'.run.phase = .Stopping deadline trigger ∧ s'.world.load ≤ s.world.load ∧
      (s'.world.load < s.world.load ∨
        ((s.tick out).world.mailbox = [] ∧ (s.tick out).world.now < deadline)) := by
  have hkept : ∀ s', s.poll out = .waiting s' → s'.run.phase = .Stopping deadline trigger := by
    intro s' hpoll
    have hpolled := (phase_kept out deadline trigger).poll hphase
    rw [hpoll] at hpolled
    exact hpolled
  have hticked := World.tick_load out s.world
  cases hdone : (s.poll out).isDone with
  | true => exact .inl rfl
  | false =>
    right
    have hticks : (s.tick out).run.phase = .Stopping deadline trigger := hphase
    rw [poll] at hdone hkept ⊢
    simp only [hticks] at hdone hkept ⊢
    cases hmail : (s.tick out).world.mailbox with
    | cons message rest =>
      have hreceived : (s.tick out).receive =
          some (message, { s.tick out with world := { (s.tick out).world with
            mailbox := rest } }) := by
        rw [receive, hmail]
      rw [hreceived] at hdone hkept ⊢
      dsimp only at hdone hkept ⊢
      generalize hafter : ({ s.tick out with world := { (s.tick out).world with
        mailbox := rest } } : Sys F) = after at hdone hkept ⊢
      have hweight : after.world.load + message.weight = (s.tick out).world.load := by
        rw [← hafter]
        simp only [World.load, hmail, List.map_cons, List.sum_cons]
        omega
      have hstopping : after.run.isStopping = true := by
        rw [← hafter]
        simp only [Run.isStopping, run_tick, hphase]
      have hstep := step_load out hstopping message
      rcases loopHead_load out (after.step out message) with hover | ⟨s', hwaiting, hload⟩
      · rw [hover] at hdone
        cases hdone
      · have hless : s'.world.load < s.world.load := by
          have hsame : (s.tick out).world.load = (s.world.tick out).load := rfl
          omega
        exact ⟨s', hwaiting, hkept s' hwaiting, hless.le, .inl hless⟩
    | nil =>
      have hnone : (s.tick out).receive = none := by
        rw [receive, hmail]
      rw [hnone] at hdone hkept ⊢
      dsimp only at hdone hkept ⊢
      by_cases hlate : deadline ≤ ((s.tick out).tick out).world.now
      · rw [if_pos hlate] at hdone
        cases hdone
      · rw [if_neg hlate] at hkept ⊢
        have htwice := (World.tick_load out (s.world.tick out)).trans hticked
        have hnow : (s.tick out).world.now ≤ ((s.tick out).tick out).world.now :=
          World.tick_now out (s.world.tick out)
        exact ⟨_, rfl, hkept _ rfl, htwice, .inr ⟨rfl, by omega⟩⟩

end Sys

/-! The end of a stopping run. -/

/-- The node and the instance a message is about. -/
def Message.about : Message F → String × InstanceId
  | .Created node id _ => (node, id)
  | .Ended node id _ => (node, id)

/-- At its next poll the driver finds the end of an instance or of its creation, or the deadline of
its stop over, unless the run is over. -/
def Control.Answers (out : Outside F) (node : String) (id : InstanceId) : Control F → Prop
  | .waiting s => (∃ message ∈ (s.tick out).world.mailbox, message.about = (node, id)) ∨
      ∃ deadline trigger, s.run.phase = .Stopping deadline trigger ∧
        deadline ≤ (s.tick out).world.now
  | .done _ _ => True

/-- From a wait on, every instance that is live and every creation in flight ends, or the deadline
of the stop passes. -/
def Control.Released (out : Outside F) (control : Control F) (polls : Nat) : Prop :=
  ∀ more s, control.after out (polls + more) = .waiting s →
    ∀ node live id, s.run.live node = some live → live.id = some id →
      ∃ later, (control.after out (polls + more + later)).Answers out node id

/-- A driver that waits while it stops waits for something live. -/
def Parked : Control F → Prop
  | .waiting s => s.run.isStopping = true → s.run.anyLive = true
  | .done _ _ => True

namespace Sys

variable (out : Outside F)

theorem loopHead_parked (s : Sys F) : Parked (s.loopHead out) := by
  rw [loopHead]
  split
  · trivial
  · split
    · trivial
    · rename_i hwaits
      intro hstopping
      by_contra hdead
      have hnone : (s.readToken out).run.anyLive = false := by simpa using hdead
      exact hwaits (by rw [hstopping, hnone]; rfl)

theorem poll_parked {s : Sys F} (hparked : Parked (.waiting s)) : Parked (s.poll out) := by
  rw [poll]
  split
  · split
    · exact loopHead_parked out _
    · dsimp only
      split
      · exact loopHead_parked out _
      · exact hparked
  · split
    · exact loopHead_parked out _
    · dsimp only
      split
      · trivial
      · exact hparked

end Sys

section Launched

variable {out : Outside F} {graph : Graph F} {config : RunConfig} {origin : Origin}
  {state : State F} {control : Control F}

theorem Launch.parked (hlaunch : Launch out graph config origin state control) (polls : Nat) :
    Parked (control.after out polls) := by
  induction polls with
  | zero =>
    rw [hlaunch.begins.1]
    show Parked (Sys.begin out _ origin)
    rw [Sys.begin]
    split
    · trivial
    · exact Sys.loopHead_parked out _
  | succ polls ih =>
    show Parked ((control.after out polls).next out)
    cases hnow : control.after out polls with
    | waiting s =>
      rw [hnow] at ih
      exact Sys.poll_parked out ih
    | done s outcome => trivial

/-- Polls of a stopping driver never give it more to wait for. -/
theorem Control.stopping_load {polls : Nat} {s : Sys F} {deadline : Nat} {trigger : Trigger}
    (hwaiting : control.after out polls = .waiting s)
    (hphase : s.run.phase = .Stopping deadline trigger) (later : Nat) :
    (control.after out (polls + later)).isDone = true ∨
      ∃ s', control.after out (polls + later) = .waiting s' ∧
        s'.run.phase = .Stopping deadline trigger ∧ s'.world.load ≤ s.world.load := by
  induction later with
  | zero => exact .inr ⟨s, hwaiting, hphase, le_rfl⟩
  | succ later ih =>
    rcases ih with hover | ⟨s', hthere, hstill, hload⟩
    · left
      have hsame := Control.after_done hover 1
      rw [Nat.add_assoc] at hsame
      rw [hsame]
      exact hover
    · have hnext : control.after out (polls + (later + 1)) = s'.poll out := by
        rw [← Nat.add_assoc, Control.after, hthere]
        rfl
      rw [hnext]
      rcases Sys.poll_stopping out hstill with hover | ⟨next, hpoll, hkept, hless, -⟩
      · exact .inl hover
      · exact .inr ⟨next, hpoll, hkept, hless.trans hload⟩

/-- By induction on what is left to wait for: an answered wait leaves less of it. -/
theorem Launch.drains (hlaunch : Launch out graph config origin state control) {polls : Nat}
    {s : Sys F} {deadline : Nat} {trigger : Trigger}
    (hwaiting : control.after out polls = .waiting s)
    (hphase : s.run.phase = .Stopping deadline trigger)
    (hreleased : control.Released out polls) :
    ∃ more, (control.after out (polls + more)).isDone = true := by
  induction hload : s.world.load using Nat.strongRecOn generalizing polls s with
  | ind load ih =>
    have hstopping : s.run.isStopping = true := by simp only [Run.isStopping, hphase]
    have hparked := hlaunch.parked polls
    rw [hwaiting] at hparked
    obtain ⟨node, slot, hslot, hlive⟩ := (Run.anyLive_iff s.run).mp (hparked hstopping)
    obtain ⟨id, hid⟩ : ∃ id, slot.live.id = some id := by
      have hsome := (NodeSlot.isLive_iff slot).mp hlive
      cases hslotLive : slot.live with
      | Absent => exact absurd hslotLive hsome
      | Creating id input => exact ⟨id, rfl⟩
      | Running id core => exact ⟨id, rfl⟩
    obtain ⟨later, hanswered⟩ :=
      hreleased 0 s hwaiting node slot.live id (Run.live_eq_some hslot) hid
    rw [Nat.add_zero] at hanswered
    rcases Control.stopping_load hwaiting hphase later with hover | ⟨s', hthere, hstill, hless⟩
    · exact ⟨later, hover⟩
    · rw [hthere] at hanswered
      have hnext : control.after out (polls + (later + 1)) = s'.poll out := by
        rw [← Nat.add_assoc, Control.after, hthere]
        rfl
      rcases Sys.poll_stopping out hstill with hover | ⟨next, hpoll, hkept, -, hdrop⟩
      · exact ⟨later + 1, hnext ▸ hover⟩
      · have hsmaller : next.world.load < load := by
          rcases hdrop with hdrop | ⟨hempty, hearly⟩
          · omega
          · rcases hanswered with ⟨message, hmail, -⟩ | ⟨passed, by', hsame, hlate⟩
            · rw [hempty] at hmail
              cases hmail
            · rw [hstill, Phase.Stopping.injEq] at hsame
              omega
        have hlater : control.Released out (polls + (later + 1)) := by
          intro more t hmore
          have hat := hreleased (later + 1 + more) t
          rw [← Nat.add_assoc polls] at hat
          exact hat hmore
        obtain ⟨more, hover⟩ := ih next.world.load hsmaller (hnext.trans hpoll) hkept hlater rfl
        rw [Nat.add_assoc] at hover
        exact ⟨later + 1 + more, hover⟩

/-- From the moment a run stops it begins no creation, offers no checkpoint, and gives no input but
the first one of a creation that was in flight.  Results that arrive are applied, with their targets
only held.  And the run is over once every live instance and creation in flight has ended or the
deadline has passed. -/
theorem stopping_disciplined (hlaunch : Launch out graph config origin state control)
    (polls : Nat) :
    (Stopped (control.after out polls).sys.run.log ↔
      (control.after out polls).sys.run.isStopping = true) ∧
    (∀ later trigger past,
      (control.after out polls).sys.run.log = later ++ .stopped trigger :: past →
      (∀ name id, .creating name id ∉ later) ∧ (∀ checkpoint, .offered checkpoint ∉ later) ∧
      (∀ other, .stopped other ∉ later) ∧
      ∀ front name id input back, later = front ++ .accepted name id input :: back →
        .creating name id ∈ past ∧ (∀ other, .accepted name id other ∉ back ++ past) ∧
          ∃ kind subkind earlier,
            back = .told (.InstanceCreated id name kind subkind) :: earlier) ∧
    (∀ (s : Sys F) (node : String) (slot : NodeSlot F) (id : InstanceId) (core : Address)
      (update : Fields.Update F) (newState : State F) (targets : List Target),
      s.run.isStopping = true → s.run.slot node = some slot → slot.live = .Running id core →
      s.run.state.state.apply (s.world.clock + 2) update = .ok newState →
      s.run.graph.evaluateEdge (s.world.clock + 3) node newState = .ok targets →
      let stepped := (s.step out (.Ended node id (.ok (.Result update)))).run
      stepped = (s.run.ending node id (.ok (.Result update))).step node id update newState
          targets ∧
        ∀ name, stepped.slot name = (s.run.slot name).map (NodeSlot.afterResult node targets name)) ∧
    ((control.after out polls).sys.run.isStopping = true → control.Released out polls →
      ∃ more, (control.after out (polls + more)).isDone = true) := by
  have horderly := hlaunch.orderly polls
  refine ⟨horderly.phase, fun later trigger past hcut => horderly.behind hcut, ?_, ?_⟩
  · intro s node slot id core update newState targets hstopping hslot hlive happlied hevaluated
    have hstepped := Sys.step_result_stopping out hstopping hslot hlive happlied hevaluated
    refine ⟨hstepped, ?_⟩
    intro name
    rw [hstepped]
    exact slot_afterResult s.run node id update newState targets name
  · intro hstopping hreleased
    cases hnow : control.after out polls with
    | done s outcome => exact ⟨0, by rw [Nat.add_zero, hnow]; rfl⟩
    | waiting s =>
      rw [hnow] at hstopping
      have hphase : ∃ deadline trigger, s.run.phase = .Stopping deadline trigger := by
        have hsame : s.run.isStopping = true := hstopping
        rw [Run.isStopping] at hsame
        split at hsame
        · rename_i deadline trigger hphase
          exact ⟨deadline, trigger, hphase⟩
        · cases hsame
      obtain ⟨deadline, trigger, hphase⟩ := hphase
      exact hlaunch.drains hnow hphase hreleased

end Launched

/-- The small graph cancelled by the host while `n` is being created: its instance gets its first
input and ends, and the run is over. -/
theorem stopping_disciplined_late :
    Stopped ((pairRun lateCreation ⟨false, 10, false⟩).after lateCreation 2).sys.run.log ∧
      ∃ more, ((pairRun lateCreation ⟨false, 10, false⟩).after lateCreation (2 + more)).isDone =
        true := by
  have hstopping : ((pairRun lateCreation ⟨false, 10, false⟩).after
      lateCreation 2).sys.run.isStopping = true := by decide +kernel
  have hover : ((pairRun lateCreation ⟨false, 10, false⟩).after lateCreation 6).isDone = true := by
    decide +kernel
  have hreleased : (pairRun lateCreation ⟨false, 10, false⟩).Released lateCreation 2 := by
    intro more s hwaiting node live id hlive hid
    refine ⟨4, ?_⟩
    have hlate : 2 + more + 4 = 6 + more := by omega
    obtain ⟨t, outcome, hdone⟩ := Control.exists_done hover
    rw [hlate, Control.after_done hover more, hdone]
    trivial
  obtain ⟨hstopped, -, -, hends⟩ := stopping_disciplined
    (pair_launch lateCreation ⟨false, 10, false⟩) 2
  exact ⟨hstopped.mpr hstopping, hends hstopping hreleased⟩

end LlmGraph.Executor
