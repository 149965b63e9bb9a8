/- digest: The driver in surroundings that neither cancel nor refuse: its functions keep it calm,
   and only a handled result adds a result to the log. -/

import LlmGraph.Executor.Results
import LlmGraph.Executor.Sequence

set_option autoImplicit false
set_option relaxedAutoImplicit false

namespace LlmGraph.Executor

open Contract
open Lib (Throughout)

variable {F : Type} [Fields F]

/-- No one triggers the token, every id is minted, and the sink takes every checkpoint. -/
structure Undisturbed (out : Outside F) : Prop where
  quiet : ∀ moment, Act.trigger ∉ (out moment).acts
  minted : ∀ moment, (out moment).mint = .ok ()
  sunk : ∀ moment, (out moment).sink = .accepted

namespace World

theorem act_triggered_eq (world : World F) {act : Act F} (hother : act ≠ .trigger) :
    (world.act act).triggered = world.triggered := by
  cases act <;> first | exact absurd rfl hother | simp [World.act, updateCore]

/-- Only a trigger among some acts triggers the token. -/
theorem acts_triggered_eq {acts : List (Act F)} (habsent : Act.trigger ∉ acts) (world : World F) :
    (acts.foldl act world).triggered = world.triggered := by
  induction acts generalizing world with
  | nil => rfl
  | cons act rest hstep =>
      rw [List.mem_cons, not_or] at habsent
      rw [List.foldl_cons, hstep habsent.2, act_triggered_eq world fun hsame => habsent.1 hsame.symm]

theorem tick_triggered_eq {out : Outside F} (hundisturbed : Undisturbed out) (world : World F) :
    (world.tick out).triggered = world.triggered :=
  acts_triggered_eq (hundisturbed.quiet world.clock) world

end World

/-- An entry that neither handles a result nor applies one. -/
def Fact.Silent (fact : Fact F) : Prop := fact.handledResult = none ∧ fact.appliedUpdate = none

namespace Sys

/-- The run is neither stopping nor failed, and its token is not triggered. -/
structure Calm (s : Sys F) : Prop where
  running : s.run.phase = .Running
  clean : s.run.failures = []
  untriggered : s.world.triggered = false

theorem Calm.isStopping {s : Sys F} (hcalm : s.Calm) : s.run.isStopping = false := by
  unfold Run.isStopping
  rw [hcalm.running]

/-- From one moment to a calm one, with the same state and only silent entries. -/
structure Quietly (s s' : Sys F) : Prop where
  calm : s'.Calm
  state : s'.run.state = s.run.state
  log : ∃ new, s'.run.log = new ++ s.run.log ∧ ∀ fact ∈ new, fact.Silent

namespace Quietly

variable {s s' s'' : Sys F}

theorem refl (hcalm : s.Calm) : Quietly s s :=
  ⟨hcalm, rfl, [], rfl, fun _ hmember => absurd hmember List.not_mem_nil⟩

theorem trans (hfirst : Quietly s s') (hsecond : Quietly s' s'') : Quietly s s'' := by
  obtain ⟨new, hlog, hsilent⟩ := hfirst.log
  obtain ⟨newer, hlater, hmore⟩ := hsecond.log
  refine ⟨hsecond.calm, hsecond.state.trans hfirst.state, newer ++ new, ?_, ?_⟩
  · rw [hlater, hlog, List.append_assoc]
  · intro fact hmember
    exact (List.mem_append.mp hmember).elim (hmore fact) (hsilent fact)

/-- A change of the slots and the world that adds some silent entries. -/
theorem of_slots {run' : Run F} {world : World F} (hcalm : s.Calm)
    (hsame : run' = { s.run with slots := run'.slots, minted := run'.minted, log := run'.log })
    (huntriggered : world.triggered = s.world.triggered) (new : List (Fact F))
    (hlog : run'.log = new ++ s.run.log) (hsilent : ∀ fact ∈ new, fact.Silent) :
    Quietly s ⟨run', world⟩ := by
  refine ⟨⟨?_, ?_, ?_⟩, ?_, new, hlog, hsilent⟩
  · change run'.phase = .Running
    rw [hsame]
    exact hcalm.running
  · change run'.failures = []
    rw [hsame]
    exact hcalm.clean
  · exact huntriggered.trans hcalm.untriggered
  · change run'.state = s.run.state
    rw [hsame]

theorem updates (hquietly : Quietly s s') : appliedUpdates s'.run.log = appliedUpdates s.run.log := by
  obtain ⟨new, hlog, hsilent⟩ := hquietly.log
  have hnone : new.filterMap Fact.appliedUpdate = [] :=
    List.filterMap_eq_nil_iff.mpr fun fact hmember => (hsilent fact hmember).2
  simp [hlog, appliedUpdates, List.filterMap_append, hnone]

/-- Silent entries say nothing about results. -/
theorem results {behaviour : Behaviour F} (hquietly : Quietly s s')
    (hknown : Throughout (ResultsBy behaviour) s.run.log) :
    Throughout (ResultsBy behaviour) s'.run.log := by
  obtain ⟨new, hlog, hsilent⟩ := hquietly.log
  rw [hlog]
  refine Lib.throughout_append hknown fun front fact back hcut => ?_
  have hnone := (hsilent fact (by rw [hcut]; simp)).1
  cases fact with
  | handled name id result =>
      rcases result with error | update | _ | _ | _
      · trivial
      · cases hnone
      · trivial
      · trivial
      · trivial
  | _ => trivial

end Quietly

/-- The message that the next poll of a calm run takes, and the system without it. -/
def heard (out : Outside F) (s : Sys F) : Option (Message F × Sys F) :=
  ((s.tick out).tick out).receive

theorem withRun_quietly {s : Sys F} (hcalm : s.Calm) (name : String)
    (change : NodeSlot F → NodeSlot F) : Quietly s (s.withRun (·.change name change)) :=
  .of_slots hcalm rfl rfl [] rfl fun _ hmember => absurd hmember List.not_mem_nil

variable {out : Outside F} (hundisturbed : Undisturbed out)

include hundisturbed

theorem tick_quietly {s : Sys F} (hcalm : s.Calm) : Quietly s (s.tick out) :=
  .of_slots hcalm rfl (World.tick_triggered_eq hundisturbed s.world) [] rfl
    fun _ hmember => absurd hmember List.not_mem_nil

theorem readToken_calm {s : Sys F} (hcalm : s.Calm) : s.readToken out = s.tick out := by
  have huntriggered := (tick_quietly hundisturbed hcalm).calm.untriggered
  unfold readToken
  simp only [huntriggered, Bool.and_false, Bool.false_eq_true, ↓reduceIte]

theorem poll_heard {s s₁ : Sys F} {message : Message F} (hcalm : s.Calm)
    (hheard : s.heard out = some (message, s₁)) :
    s.poll out = (s₁.step out message).loopHead out := by
  have hticked := (tick_quietly hundisturbed hcalm).calm
  unfold Sys.heard at hheard
  unfold poll
  simp only [hticked.running, hticked.untriggered, Bool.false_eq_true, ↓reduceIte, hheard]

theorem poll_unheard {s : Sys F} (hcalm : s.Calm) (hunheard : s.heard out = none) :
    s.poll out = .waiting ((s.tick out).tick out) := by
  have hticked := (tick_quietly hundisturbed hcalm).calm
  unfold Sys.heard at hunheard
  unfold poll
  simp only [hticked.running, hticked.untriggered, Bool.false_eq_true, ↓reduceIte, hunheard]

theorem heard_quietly {s s₁ : Sys F} {message : Message F} (hcalm : s.Calm)
    (hheard : s.heard out = some (message, s₁)) : Quietly s s₁ := by
  have honce := tick_quietly hundisturbed hcalm
  have htwice := honce.trans (tick_quietly hundisturbed honce.calm)
  unfold Sys.heard receive at hheard
  split at hheard
  · cases hheard
  · cases hheard
    exact htwice.trans (.of_slots htwice.calm rfl rfl [] rfl
      fun _ hmember => absurd hmember List.not_mem_nil)

/-- The head of the loop of a calm run: it has ended, or it waits. -/
theorem loopHead_calm {s : Sys F} (hcalm : s.Calm) :
    s.loopHead out = if s.run.allIdle then
        .done ((s.tick out).report .RunEnded (.RunEnded s.run.state.state)).1
          (.RunEnded s.run.state.state)
      else .waiting (s.tick out) := by
  have hticked := (tick_quietly hundisturbed hcalm).calm
  unfold loopHead
  rw [readToken_calm hundisturbed hcalm]
  dsimp only
  rw [run_tick, hcalm.isStopping]
  split
  · rename_i hidle
    unfold finish conclude
    simp only [run_tick, hidle, hcalm.clean, List.isEmpty_nil, Bool.and_self, ↓reduceIte]
    rfl
  · simp

theorem giveInput_quietly {s : Sys F} (hcalm : s.Calm) (name : String) (state : Shared F) :
    Quietly s (s.giveInput out name state).2 := by
  rcases giveInput_cases out s name state with
    hrefused | ⟨slot, id, core, world, -, -, hsame, hgiven⟩
  · rw [hrefused]
    exact tick_quietly hundisturbed hcalm
  · rw [hgiven]
    refine .of_slots hcalm rfl ?_ [.told _, .accepted name id state] rfl ?_
    · exact hsame.trans (World.tick_triggered_eq hundisturbed s.world)
    · simp [Fact.Silent, Fact.handledResult, Fact.appliedUpdate]

theorem giveHeld_quietly {s : Sys F} (hcalm : s.Calm) (name : String) :
    Quietly s (s.giveHeld out name) := by
  have hgiven := giveInput_quietly hundisturbed hcalm name s.run.state
  unfold giveHeld
  dsimp only
  split
  · exact hgiven.trans (withRun_quietly hgiven.calm name _)
  · exact hgiven

theorem beginCreation_quietly {s : Sys F} (hcalm : s.Calm) (name : String) :
    Quietly s (s.beginCreation out name) := by
  unfold beginCreation
  rw [hundisturbed.minted]
  split
  · exact .refl hcalm
  · refine .of_slots hcalm rfl rfl [.creating name s.run.minted] rfl ?_
    simp [Fact.Silent, Fact.handledResult, Fact.appliedUpdate]

theorem handTo_quietly {s : Sys F} (hcalm : s.Calm) (name : String) :
    Quietly s (s.handTo out name) := by
  unfold handTo
  split
  · exact .refl hcalm
  · split
    · exact .refl hcalm
    · split
      · exact .refl hcalm
      · exact giveHeld_quietly hundisturbed hcalm name
      · exact beginCreation_quietly hundisturbed hcalm name

theorem handOver_quietly {s : Sys F} (hcalm : s.Calm) (targets : List String) :
    Quietly s (s.handOver out targets) := by
  unfold handOver
  generalize handOrder s.run targets = order
  induction order generalizing s with
  | nil => exact .refl hcalm
  | cons name rest hstep =>
      rw [List.foldl_cons, hcalm.isStopping]
      have hhanded := handTo_quietly hundisturbed hcalm name
      exact hhanded.trans (hstep hhanded.calm)

/-- A step checkpoint is offered and taken, or there is no sink. -/
theorem takeStepCheckpoint_offers (htrips : RoundTrips F) {s : Sys F} (hcalm : s.Calm) :
    Quietly s (s.takeStepCheckpoint out) ∧ ((s.takeStepCheckpoint out).run = s.run ∨
      ∃ checkpoint, (s.takeStepCheckpoint out).run = s.run.note (.offered checkpoint)) := by
  have hticked := tick_quietly hundisturbed hcalm
  obtain ⟨text, hwritten, -⟩ := htrips.written s.run.state.state (s.tick out).world.clock
  have hshown : s.run.state.state.toJson (s.tick out).world.clock = .ok text :=
    (Lib.Attempt.mapError_eq_ok _ _ _).mpr hwritten
  have hbuilt (nodes : List String) : Checkpoint.build (s.tick out).world.clock s.run.state.state
      s.run.graph.shape nodes = .ok ⟨text, s.run.graph.shape, nodes⟩ := by
    unfold Checkpoint.build
    rw [hshown]
  unfold takeStepCheckpoint
  dsimp only
  rw [run_tick, hbuilt]
  dsimp only
  split
  · exact ⟨hticked, .inl rfl⟩
  · rw [hundisturbed.sunk]
    refine ⟨?_, .inr ⟨_, rfl⟩⟩
    generalize hoffered : ((s.tick out).withRun (·.note (.offered _))) = s₁
    have hnoted : Quietly (s.tick out) s₁ := by
      rw [← hoffered]
      refine .of_slots hticked.calm rfl rfl [.offered _] rfl ?_
      simp [Fact.Silent, Fact.handledResult, Fact.appliedUpdate]
    exact (hticked.trans hnoted).trans (tick_quietly hundisturbed hnoted.calm)

omit hundisturbed in
theorem giveInput_slot (s : Sys F) (name : String) (state : Shared F) (other : String) :
    (s.giveInput out name state).2.run.slot other = s.run.slot other := by
  rcases giveInput_cases out s name state with hrefused | ⟨slot, id, core, world, -, -, -, hgiven⟩
  · rw [hrefused]
    rfl
  · rw [hgiven]
    rfl

omit hundisturbed in
/-- Giving a held input keeps every instance. -/
theorem giveHeld_live {s : Sys F} {name other : String} {slot : NodeSlot F}
    (hatOther : s.run.slot other = some slot) :
    ∃ slot', (s.giveHeld out name).run.slot other = some slot' ∧ slot'.live = slot.live := by
  have hkept : (s.giveInput out name s.run.state).2.run.slot other = s.run.slot other :=
    giveInput_slot s name s.run.state other
  have hgiven := hkept.trans hatOther
  unfold giveHeld
  dsimp only
  split
  · change ∃ slot', ((s.giveInput out name s.run.state).2.run.change name (·.release)).slot other =
      some slot' ∧ _
    rw [Run.slot_change, hgiven]
    split
    · exact ⟨_, rfl, rfl⟩
    · exact ⟨_, rfl, rfl⟩
  · exact ⟨slot, hgiven, rfl⟩

/-- A created instance runs, whether it took its first input or not. -/
theorem settleCreated_quietly {s : Sys F} (hcalm : s.Calm) {node : String} {slot : NodeSlot F}
    (made : Instance) (firstInput : Shared F) (hatNode : s.run.slot node = some slot) :
    Quietly s (s.settleCreated out node made firstInput) ∧
      ∃ slot', (s.settleCreated out node made firstInput).run.slot node = some slot' ∧
        slot'.live = .Running made.id made.core := by
  unfold settleCreated
  rw [hatNode]
  dsimp only
  generalize hbegun : (⟨s.run.instanceCreated node made.id made.core slot,
    s.world.spawnForwarder node made.id made.core⟩ : Sys F) = s₁
  have hborn : Quietly s s₁ := by
    rw [← hbegun]
    refine .of_slots hcalm rfl rfl [.told _] rfl ?_
    simp [Fact.Silent, Fact.handledResult, Fact.appliedUpdate]
  have hatBorn : s₁.run.slot node = some (slot.becomeRunning made.id made.core) := by
    rw [← hbegun]
    exact (s.run.slot_change_at hatNode _ node).trans (if_pos rfl)
  have hgiven := giveInput_quietly hundisturbed hborn.calm node firstInput
  have hkept : (s₁.giveInput out node firstInput).2.run.slot node = s₁.run.slot node :=
    giveInput_slot s₁ node firstInput node
  have hatGiven := hkept.trans hatBorn
  generalize (s₁.giveInput out node firstInput).1 = accepted
  generalize (s₁.giveInput out node firstInput).2 = s₂ at hgiven hatGiven ⊢
  split
  · refine ⟨(hborn.trans hgiven).trans (withRun_quietly hgiven.calm node _), ?_⟩
    have hatHeld := (s₂.run.slot_change_at hatGiven (·.hold) node).trans (if_pos rfl)
    exact ⟨_, hatHeld, rfl⟩
  · split
    · have hheldLive : ∃ slot', (s₂.giveHeld out node).run.slot node = some slot' ∧
          slot'.live = .Running made.id made.core := giveHeld_live hatGiven
      obtain ⟨slot', hatSlot', hsame⟩ := hheldLive
      exact ⟨(hborn.trans hgiven).trans (giveHeld_quietly hundisturbed hgiven.calm node), slot',
        hatSlot', hsame⟩
    · exact ⟨hborn.trans hgiven, _, hatGiven, rfl⟩

end Sys

end LlmGraph.Executor
