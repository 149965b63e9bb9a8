/- digest: A sequential run resumed from any checkpoint it offered applies the rest of its updates
   and ends in the same state. -/

import LlmGraph.Executor.Lifetimes
import LlmGraph.Executor.Calm

set_option autoImplicit false
set_option relaxedAutoImplicit false

namespace LlmGraph.Executor

open Contract
open Lib (Attempt JsonText Throughout Trail)

variable {F : Type} [Fields F]

namespace Message

/-- What nodes of the behaviour send: the instance asked for, and its result on the last input it
accepted. -/
def By (behaviour : Behaviour F) (run : Run F) : Message F → Prop
  | .Created _ id result => ∃ core, result = .ok ⟨id, core⟩
  | .Ended node id result =>
      ∃ last, lastAccepted run.log node id = some last ∧
        result = .ok (.Result (behaviour.result node last.state))

end Message

/-- A run driven by nodes of the behaviour: whatever it hears is theirs, and a wait is always
followed by one at which it hears about an instance that was live. -/
structure Driven (behaviour : Behaviour F) (out : Outside F) (control : Control F) : Prop where
  undisturbed : Undisturbed out
  by_behaviour : ∀ polls s message s₁, control.after out polls = .waiting s →
    s.heard out = some (message, s₁) → message.By behaviour s.run
  served : ∀ polls s, control.after out polls = .waiting s →
    ∃ later s₁ message s₂, control.after out (polls + later) = .waiting s₁ ∧
      s₁.heard out = some (message, s₂) ∧ message.Live s.run

namespace Sys

variable {out : Outside F} (hundisturbed : Undisturbed out)

theorem Calm.of_run {s s' : Sys F} (hcalm : s.Calm) (hrun : s'.run = s.run)
    (huntriggered : s'.world.triggered = s.world.triggered) : s'.Calm :=
  ⟨hrun ▸ hcalm.running, hrun ▸ hcalm.clean, huntriggered.trans hcalm.untriggered⟩

private theorem dropResult_triggered (world : World F) (result : Except CreationFailure Instance) :
    (dropResult world result).triggered = world.triggered := by
  rcases result with _ | _ <;> rfl

include hundisturbed

/-- A message about no live instance leaves the run alone. -/
theorem step_stale {s : Sys F} (hcalm : s.Calm) {message : Message F}
    (hstale : ¬message.Live s.run) :
    (s.step out message).run = s.run ∧ (s.step out message).Calm := by
  have hticked := (tick_quietly hundisturbed hcalm).calm
  rw [step_unheeded out hstale, readToken_calm hundisturbed hcalm]
  rcases message with ⟨node, id, result⟩ | ⟨node, id, result⟩
  · exact ⟨rfl, hticked.of_run rfl (dropResult_triggered _ _)⟩
  · exact ⟨rfl, hticked⟩

/-- The instance asked for is there. -/
theorem step_created {s : Sys F} (hcalm : s.Calm) {node : String} {slot : NodeSlot F}
    {id : InstanceId} {input : Shared F} (core : Address) (hatNode : s.run.slot node = some slot)
    (hcreating : slot.live = .Creating id input) :
    Quietly s (s.step out (.Created node id (.ok ⟨id, core⟩))) ∧
      ∃ slot', (s.step out (.Created node id (.ok ⟨id, core⟩))).run.slot node = some slot' ∧
        slot'.live = .Running id core := by
  have hticked := tick_quietly hundisturbed hcalm
  have hknown : ((s.tick out).run.slot node).bind (·.firstInputOfCreation id) = some input := by
    rw [run_tick, hatNode]
    exact (NodeSlot.firstInputOfCreation_eq_some slot id input).mpr hcreating
  obtain ⟨hsettled, hrunning⟩ := settleCreated_quietly hundisturbed hticked.calm ⟨id, core⟩ input
    ((congrFun rfl node : (s.tick out).run.slot node = _).trans hatNode)
  unfold step
  rw [readToken_calm hundisturbed hcalm]
  unfold onCreated
  dsimp only
  rw [hknown]
  simp only [↓reduceIte]
  exact ⟨hticked.trans hsettled, hrunning⟩

/-- A result that is applied and whose edge is evaluated at every moment: the log grows by its step
and by silent entries. -/
theorem step_ended (htrips : RoundTrips F) {s : Sys F} (hcalm : s.Calm) {node : String}
    {slot : NodeSlot F} {id : InstanceId} {core : Address} (update : Fields.Update F)
    (newState : State F) (targets : List Target) (hatNode : s.run.slot node = some slot)
    (halive : slot.live = .Running id core)
    (happlied : ∀ now, s.run.state.state.apply now update = .ok newState)
    (hevaluated : ∀ now, s.run.graph.evaluateEdge now node newState = .ok targets) :
    ∃ s₁ : Sys F, s₁.run = (s.run.ending node id (.ok (.Result update))).step node id update
        newState targets ∧
      Quietly s₁ (s.step out (.Ended node id (.ok (.Result update)))) := by
  obtain ⟨s₁, hrun, hcalm₁, hrests, hgoing⟩ := step_settled hundisturbed htrips hcalm update newState
    targets hatNode halive happlied hevaluated
  refine ⟨s₁, hrun, ?_⟩
  cases hidle : s₁.run.allIdle with
  | true =>
      rw [hrests hidle]
      exact .refl hcalm₁
  | false =>
      obtain ⟨s₂, hshown, -, -, hhanded⟩ := hgoing hidle
      rw [hhanded]
      exact hshown.trans (handOver_quietly hundisturbed hshown.calm _)

omit hundisturbed in
theorem heard_run {s s₁ : Sys F} {message : Message F}
    (hheard : s.heard out = some (message, s₁)) : s₁.run = s.run := by
  unfold Sys.heard at hheard
  have hsame := receive_run hheard
  exact hsame

/-- A poll that hears nothing about a live instance goes on waiting on the same run. -/
theorem poll_stale {s : Sys F} (hcalm : s.Calm) (hbusy : s.run.allIdle = false)
    (hstale : ∀ message s₁, s.heard out = some (message, s₁) → ¬message.Live s.run) :
    ∃ s', s.poll out = .waiting s' ∧ s'.run = s.run ∧ s'.Calm := by
  rcases hheard : s.heard out with _ | ⟨message, s₁⟩
  · have honce := tick_quietly hundisturbed hcalm
    exact ⟨_, poll_unheard hundisturbed hcalm hheard, rfl, (tick_quietly hundisturbed honce.calm).calm⟩
  · have hsame := heard_run hheard
    have hcalm₁ := (heard_quietly hundisturbed hcalm hheard).calm
    obtain ⟨hunchanged, hcalm₂⟩ := step_stale hundisturbed hcalm₁
      (hsame.symm ▸ hstale message s₁ hheard)
    have hwaits : (s₁.step out message).run.allIdle = false := by
      rw [hunchanged, hsame]
      exact hbusy
    refine ⟨(s₁.step out message).tick out, ?_, ?_, (tick_quietly hundisturbed hcalm₂).calm⟩
    · rw [poll_heard hundisturbed hcalm hheard, loopHead_calm hundisturbed hcalm₂, hwaits]
      rfl
    · rw [run_tick, hunchanged, hsame]

end Sys

/-- The last entries of a sequential run that ended: the machine came to its end. -/
theorem Launch.trail_of_ended {behaviour : Behaviour F} {out : Outside F} {graph : Graph F}
    {config : RunConfig} {origin : Origin} {state final : State F} {control : Control F}
    {name : String} (hlaunch : Launch out graph config origin state control)
    (hsingle : origin.heldNames = [name]) (hdecides : behaviour.Decides graph)
    (htrips : RoundTrips F) {polls : Nat} {s : Sys F}
    (hover : control.after out polls = .done s (.RunEnded final))
    (hresults : Throughout (ResultsBy behaviour) s.run.log) :
    Throughout (OnTrail behaviour graph (.Node name, state)) s.run.log ∧
      Trail behaviour.step (.Node name, state) (appliedUpdates s.run.log) (.END, final) := by
  have hsequential := hlaunch.sequential hsingle hdecides htrips polls (by rw [hover]; exact hresults)
  have hsigned := hlaunch.signed polls
  rw [hover] at hsequential hsigned
  obtain ⟨past, hlog⟩ := hsigned
  have honTrail := hsequential.onTrail
  change Throughout (OnTrail behaviour graph (.Node name, state)) s.run.log at honTrail
  refine ⟨honTrail, ?_⟩
  rw [hlog] at honTrail ⊢
  exact honTrail.1

/-- An untriggered run comes to its first wait calmly, by the first hand-over. -/
theorem Launch.begins_calm {out : Outside F} {graph : Graph F} {config : RunConfig}
    {origin : Origin} {state : State F} {control : Control F}
    (hlaunch : Launch out graph config origin state control) (hundisturbed : Undisturbed out)
    (huntriggered : config.triggered = false) :
    ∃ s : Sys F, s.run = Run.opened graph state config origin.heldNames ∧ s.Calm ∧
      control = ((s.tick out).handOver out origin.firstTargets).loopHead out := by
  have hbegun := hlaunch.begins.1
  generalize hopened : (⟨Run.opened graph state config origin.heldNames,
    .fresh config.triggered⟩ : Sys F) = s at *
  have hrun : s.run = Run.opened graph state config origin.heldNames := by rw [← hopened]
  have hcalm : s.Calm := by
    refine ⟨?_, ?_, ?_⟩
    · rw [hrun, Run.opened]
      exact Run.holdAll_phase _ _
    · rw [hrun, Run.opened]
      exact Run.holdAll_failures _ _
    · rw [← hopened]
      exact huntriggered
  have hticked := Sys.tick_quietly hundisturbed hcalm
  refine ⟨s, hrun, hcalm, ?_⟩
  rw [hbegun]
  unfold Sys.begin
  dsimp only
  have hsame : ((⟨.new graph state config.grace config.sink, .fresh config.triggered⟩ :
      Sys F).withRun fun run => (run.holdAll origin.heldNames).note
        (.started origin.heldNames)) = s := by
    rw [← hopened]
    rfl
  rw [hsame, Sys.readToken_calm hundisturbed hcalm, hticked.calm.isStopping]
  rfl

/-- From a wait of a calm run that hears about a live instance later, the first wait on the same run
at which it does. -/
theorem Launch.hears {out : Outside F} {graph : Graph F} {config : RunConfig} {origin : Origin}
    {state : State F} {control : Control F} (hlaunch : Launch out graph config origin state control)
    (hundisturbed : Undisturbed out) {polls : Nat} {s : Sys F}
    (hwaiting : control.after out polls = .waiting s) (hcalm : s.Calm)
    (hserved : ∃ later s₁ message s₂, control.after out (polls + later) = .waiting s₁ ∧
      s₁.heard out = some (message, s₂) ∧ message.Live s.run) :
    ∃ later s₁ message s₂, control.after out (polls + later) = .waiting s₁ ∧ s₁.run = s.run ∧
      s₁.Calm ∧ s₁.heard out = some (message, s₂) ∧ message.Live s₁.run := by
  obtain ⟨later, s₁, message, s₂, hwaits, hheard, hlive⟩ := hserved
  induction later generalizing polls s with
  | zero =>
      rw [Nat.add_zero, hwaiting, Control.waiting.injEq] at hwaits
      subst hwaits
      exact ⟨0, s, message, s₂, hwaiting, rfl, hcalm, hheard, hlive⟩
  | succ later hearlier =>
      by_cases hnow : ∃ message s₁, s.heard out = some (message, s₁) ∧ message.Live s.run
      · obtain ⟨message, s₁, hheard, hlive⟩ := hnow
        exact ⟨0, s, message, s₁, hwaiting, rfl, hcalm, hheard, hlive⟩
      · have hstands := hlaunch.stands polls
        rw [hwaiting] at hstands
        obtain ⟨s', hpolled, hsame, hcalm'⟩ := Sys.poll_stale hundisturbed hcalm hstands.2
          fun message s₁ hheard hlive => hnow ⟨message, s₁, hheard, hlive⟩
        have hnext : control.after out (polls + 1) = .waiting s' := by
          rw [Control.after, hwaiting]
          exact hpolled
        have hshifted : polls + (later + 1) = polls + 1 + later := by omega
        rw [hshifted] at hwaits
        obtain ⟨more, s₃, message₃, s₄, hwaits₃, hsame₃, hrest⟩ :=
          hearlier hnext hcalm' hwaits (hsame.symm ▸ hlive)
        refine ⟨more + 1, s₃, message₃, s₄, ?_, hsame₃.trans hsame, hrest⟩
        rw [← hwaits₃]
        congr 1
        omega

namespace Driven

variable {behaviour : Behaviour F} {out : Outside F} {graph : Graph F} {config : RunConfig}
  {origin : Origin} {state : State F} {control : Control F}

/-- From a wait of a calm run, the first later wait on the same run at which it hears about a live
instance. -/
theorem hears (hlaunch : Launch out graph config origin state control)
    (hdriven : Driven behaviour out control) {polls : Nat} {s : Sys F}
    (hwaiting : control.after out polls = .waiting s) (hcalm : s.Calm) :
    ∃ later s₁ message s₂, control.after out (polls + later) = .waiting s₁ ∧ s₁.run = s.run ∧
      s₁.Calm ∧ s₁.heard out = some (message, s₂) ∧ message.Live s₁.run :=
  hlaunch.hears hdriven.undisturbed hwaiting hcalm (hdriven.served polls s hwaiting)

/-- A wait of the run that is calm, with every result so far by the behaviour. -/
structure Wait (behaviour : Behaviour F) (out : Outside F) (control : Control F) (polls : Nat)
    (s : Sys F) : Prop where
  waiting : control.after out polls = .waiting s
  calm : s.Calm
  results : Throughout (ResultsBy behaviour) s.run.log

/-- At a wait the one busy node has a live instance. -/
theorem Wait.busy {name : String} {polls : Nat} {s : Sys F}
    (hwait : Wait behaviour out control polls s)
    (hlaunch : Launch out graph config origin state control) (hsingle : origin.heldNames = [name])
    (hdecides : behaviour.Decides graph) (htrips : RoundTrips F) :
    ∃ node slot, Sequential behaviour graph (.Node name, state) s.run ∧
      Follows behaviour (.Node name, state) s.run (.Node node) ∧
      s.run.slot node = some slot ∧ slot.isLive = true := by
  have hstands := hlaunch.stands polls
  have hsequential := hlaunch.sequential hsingle hdecides htrips polls
    (by rw [hwait.waiting]; exact hwait.results)
  rw [hwait.waiting] at hstands hsequential
  obtain ⟨target, hfollows⟩ := hsequential.follows
  obtain ⟨node, rfl, -⟩ := hfollows.nonIdleNames hstands.2
  obtain ⟨slot, hatNode⟩ := Option.isSome_iff_exists.mp (hfollows.known node rfl)
  refine ⟨node, slot, hsequential, hfollows, hatNode, ?_⟩
  by_contra hdead
  have hfree : slot.held = false := by
    by_contra hheld
    exact hdead (hstands.1.heldLive hwait.calm.isStopping node slot hatNode (by simpa using hheld))
  have htaken : slot.untaken = false := by
    by_contra huntaken
    have hstopping := hsequential.accounts.taken node slot hatNode (by simpa using huntaken)
    change s.run.isStopping = true at hstopping
    rw [hwait.calm.isStopping] at hstopping
    cases hstopping
  have hidle : slot.isIdle = true := by
    rw [Bool.not_eq_true] at hdead
    simp [NodeSlot.isIdle, hdead, hfree, htaken]
  rw [(hfollows.busy node slot hatNode).mpr rfl] at hidle
  cases hidle

/-- The busy node gets a running instance, on the same state and with nothing applied. -/
theorem Wait.runs {name : String} {polls : Nat} {s : Sys F}
    (hwait : Wait behaviour out control polls s)
    (hlaunch : Launch out graph config origin state control) (hsingle : origin.heldNames = [name])
    (hdriven : Driven behaviour out control) (hdecides : behaviour.Decides graph)
    (htrips : RoundTrips F) :
    ∃ later s₁ node slot id core, Wait behaviour out control later s₁ ∧
      appliedUpdates s₁.run.log = appliedUpdates s.run.log ∧ s₁.run.slot node = some slot ∧
      slot.live = .Running id core := by
  obtain ⟨node, slot, hsequential, hfollows, hatNode, halive⟩ :=
    hwait.busy hlaunch hsingle hdecides htrips
  rcases hlive : slot.live with _ | ⟨id, input⟩ | ⟨id, core⟩
  · exact absurd hlive ((NodeSlot.isLive_iff slot).mp halive)
  · obtain ⟨later, s₁, message, s₂, hwaits, hsame, hcalm, hheard, habout⟩ :=
      hdriven.hears hlaunch hwait.waiting hwait.calm
    have hsent := hdriven.by_behaviour _ _ _ _ hwaits hheard
    have hhere (other : String) (found : NodeSlot F) (hatOther : s₁.run.slot other = some found)
        (hpresent : found.live ≠ .Absent) : other = node := by
      rw [hsame] at hatOther
      have hthere := hfollows.target_of_live hatOther hpresent
      rw [Target.Node.injEq] at hthere
      exact hthere.symm
    rcases message with ⟨other, made, result⟩ | ⟨other, ended, result⟩
    · obtain ⟨found, first, hatOther, hcreating⟩ := habout
      obtain ⟨core, rfl⟩ := hsent
      have hrun₂ := Sys.heard_run hheard
      have hcalm₂ := (Sys.heard_quietly hdriven.undisturbed hcalm hheard).calm
      obtain ⟨hquietly, slot', hatSlot', hrunning⟩ := Sys.step_created hdriven.undisturbed hcalm₂ core
        (hrun₂.symm ▸ hatOther) hcreating
      have hmore := hquietly.trans (Sys.tick_quietly hdriven.undisturbed hquietly.calm)
      have hbusy : (s₂.step out (.Created other made (.ok ⟨made, core⟩))).run.allIdle ≠ true := by
        rw [ne_eq, Run.allIdle_iff]
        intro hidle
        have hquiet := (NodeSlot.isIdle_iff slot').mp (hidle other slot' hatSlot')
        rw [hrunning] at hquiet
        cases hquiet.1
      have hnext : control.after out (polls + later + 1) = .waiting
          ((s₂.step out (.Created other made (.ok ⟨made, core⟩))).tick out) := by
        rw [Control.after, hwaits]
        change s₁.poll out = _
        rw [Sys.poll_heard hdriven.undisturbed hcalm hheard,
          Sys.loopHead_calm hdriven.undisturbed hquietly.calm, if_neg hbusy]
      refine ⟨polls + later + 1, _, other, slot', made, core, ⟨hnext, hmore.calm, ?_⟩, ?_, hatSlot',
        hrunning⟩
      · refine hmore.results ?_
        rw [hrun₂, hsame]
        exact hwait.results
      · rw [hmore.updates, hrun₂, hsame]
    · obtain ⟨found, core, hatOther, hrunning⟩ := habout
      have hequal := hhere other found hatOther (by simp [hrunning])
      rw [hsame, hequal, hatNode, Option.some.injEq] at hatOther
      rw [← hatOther, hlive] at hrunning
      cases hrunning
  · exact ⟨polls, s, node, slot, id, core, hwait, rfl, hatNode, hlive⟩

/-- One more update is applied: the run waits again, or it has ended. -/
theorem Wait.applies {name : String} {polls : Nat} {s : Sys F}
    (hwait : Wait behaviour out control polls s)
    (hlaunch : Launch out graph config origin state control) (hsingle : origin.heldNames = [name])
    (hdriven : Driven behaviour out control) (hdecides : behaviour.Decides graph)
    (htrips : RoundTrips F) {updates : List (Fields.Update F)} {final : State F}
    (hwhole : Trail behaviour.step (.Node name, state) updates (.END, final)) :
    (∃ later s', Wait behaviour out control later s' ∧
        (appliedUpdates s'.run.log).length = (appliedUpdates s.run.log).length + 1) ∨
      ∃ later s' last, control.after out later = .done s' (.RunEnded last) ∧
        Throughout (ResultsBy behaviour) s'.run.log := by
  obtain ⟨polls₁, s₁, node, slot, id, core, hwait₁, hsameUpdates, hatNode, hrunning⟩ :=
    hwait.runs hlaunch hsingle hdriven hdecides htrips
  obtain ⟨later, s₂, message, s₃, hwaits, hsame, hcalm, hheard, habout⟩ :=
    hdriven.hears hlaunch hwait₁.waiting hwait₁.calm
  obtain ⟨busy, _, hsequential, hfollows, -, -⟩ := hwait₁.busy hlaunch hsingle hdecides htrips
  have hsent := hdriven.by_behaviour _ _ _ _ hwaits hheard
  have hrun₃ := Sys.heard_run hheard
  have hcalm₃ := (Sys.heard_quietly hdriven.undisturbed hcalm hheard).calm
  have hhere (other : String) (found : NodeSlot F) (hatOther : s₁.run.slot other = some found)
      (hpresent : found.live ≠ .Absent) : other = busy := by
    have hthere := hfollows.target_of_live hatOther hpresent
    rw [Target.Node.injEq] at hthere
    exact hthere.symm
  have hown := hhere node slot hatNode (by simp [hrunning])
  rcases message with ⟨other, made, result⟩ | ⟨other, ended, result⟩
  · obtain ⟨found, first, hatOther, hcreating⟩ := habout
    rw [hsame] at hatOther
    have hequal := hhere other found hatOther (by simp [hcreating])
    rw [hequal, ← hown, hatNode, Option.some.injEq] at hatOther
    rw [← hatOther, hrunning] at hcreating
    cases hcreating
  · obtain ⟨found, core', hatOther, halive⟩ := habout
    obtain ⟨last, haccepted, rfl⟩ := hsent
    rw [hsame] at hatOther haccepted
    have hequal := hhere other found hatOther (by simp [halive])
    -- What the instance accepted last is the current state, so the machine's step is at hand.
    have hcurrent : last = s₁.run.state :=
      (hfollows.running other found ended core' hatOther halive).1 last (mem_of_lastAccepted haccepted)
    obtain ⟨after, -, honward⟩ := hwhole.through rfl hfollows.trail
    obtain ⟨next, happlied⟩ : ∃ next, s₁.run.state.state.apply 0
        (behaviour.result other last.state) = .ok next := by
      rw [hequal, hcurrent]
      rcases after with _ | ⟨update, rest⟩
      · exact absurd (congrArg Prod.fst honward.stays) (by simp)
      · obtain ⟨point, htaken, -⟩ := honward.head
        simp only [Behaviour.step] at htaken
        split at htaken
        · rename_i next happlied
          exact ⟨next, happlied⟩
        · cases htaken
    obtain ⟨entry, hfoundEntry⟩ : ∃ entry, graph.entryOf other = some entry := by
      refine Option.isSome_iff_exists.mp (graph.entry_known other ?_)
      rw [← hsequential.folded.graph]
      exact (hsequential.accounts.slots other).mpr (by rw [hatOther]; rfl)
    have hrun : s₃.run = s₁.run := hrun₃.trans hsame
    obtain ⟨s₄, hrun₄, hquietly⟩ := Sys.step_ended hdriven.undisturbed htrips hcalm₃
      (behaviour.result other last.state) next [behaviour.target other next]
      (hrun.symm ▸ hatOther) halive
      (fun now => by rw [hrun]; exact htrips.apply_steady happlied now)
      (fun now => by
        rw [hrun, hsequential.folded.graph]
        exact hdecides.evaluateEdge hfoundEntry now next)
    rw [hrun] at hrun₄
    have hresults₄ : Throughout (ResultsBy behaviour) s₄.run.log := by
      rw [hrun₄, Run.step_log]
      exact ⟨trivial, trivial, trivial, trivial, ⟨last, haccepted, rfl⟩, hwait₁.results⟩
    have hupdates₄ : (appliedUpdates s₄.run.log).length =
        (appliedUpdates s.run.log).length + 1 := by
      rw [hrun₄, Run.step_updates, List.length_append, hsameUpdates]
      rfl
    have hnextControl : control.after out (polls₁ + later + 1) =
        (s₃.step out (.Ended other ended (.ok (.Result (behaviour.result other last.state))))).loopHead
          out := by
      rw [Control.after, hwaits]
      exact Sys.poll_heard hdriven.undisturbed hcalm hheard
    rw [Sys.loopHead_calm hdriven.undisturbed hquietly.calm] at hnextControl
    split at hnextControl
    · refine Or.inr ⟨_, _, _, hnextControl, ?_⟩
      exact ⟨trivial, trivial, hquietly.results hresults₄⟩
    · have hmore := hquietly.trans (Sys.tick_quietly hdriven.undisturbed hquietly.calm)
      refine Or.inl ⟨_, _, ⟨hnextControl, hmore.calm, hmore.results hresults₄⟩, ?_⟩
      rw [hmore.updates]
      exact hupdates₄

/-- The first wait of a driven run. -/
theorem first (hlaunch : Launch out graph config origin state control) {name : String}
    (hsingle : origin.heldNames = [name]) (hdriven : Driven behaviour out control)
    (hdecides : behaviour.Decides graph) (htrips : RoundTrips F)
    (huntriggered : config.triggered = false) : ∃ s, Wait behaviour out control 0 s := by
  obtain ⟨s₀, hrun₀, hcalm₀, hbegins⟩ := hlaunch.begins_calm hdriven.undisturbed huntriggered
  have hlog₀ : s₀.run.log = [.started [name]] := by
    rw [hrun₀, hsingle]
    simp [Run.opened, Run.note, Run.new]
  have hticked := Sys.tick_quietly hdriven.undisturbed hcalm₀
  have hhanded := hticked.trans
    (Sys.handOver_quietly hdriven.undisturbed hticked.calm origin.firstTargets)
  have hresults : Throughout (ResultsBy behaviour)
      ((s₀.tick out).handOver out origin.firstTargets).run.log := by
    refine hhanded.results ?_
    rw [hlog₀]
    exact ⟨trivial, trivial⟩
  rw [Sys.loopHead_calm hdriven.undisturbed hhanded.calm] at hbegins
  split at hbegins
  · rename_i hidle
    have hmore : Throughout (ResultsBy behaviour) (control.after out 0).sys.run.log := by
      rw [Control.after, hbegins]
      exact ⟨trivial, trivial, hresults⟩
    have hsequential := hlaunch.sequential hsingle hdecides htrips 0 hmore
    obtain ⟨target, hfollows⟩ := hsequential.follows
    have hnone : appliedUpdates (control.after out 0).sys.run.log = [] := by
      rw [Control.after, hbegins]
      change appliedUpdates ((s₀.tick out).handOver out origin.firstTargets).run.log = []
      rw [hhanded.updates, hlog₀]
      rfl
    have hstayed := hfollows.trail
    rw [hnone] at hstayed
    have hover : target = .END := by
      refine hfollows.ended ?_
      rw [Control.after, hbegins]
      exact hidle
    rw [hover] at hstayed
    exact absurd (congrArg Prod.fst hstayed.stays) (by simp)
  · have hlast := hhanded.trans (Sys.tick_quietly hdriven.undisturbed hhanded.calm)
    exact ⟨_, hbegins, hlast.calm, hresults⟩

/-- A driven run ends with the updates and the state that the machine comes to. -/
theorem ends (hlaunch : Launch out graph config origin state control) {name : String}
    (hsingle : origin.heldNames = [name]) (hdriven : Driven behaviour out control)
    (hdecides : behaviour.Decides graph) (htrips : RoundTrips F)
    (huntriggered : config.triggered = false) {updates : List (Fields.Update F)} {final : State F}
    (hwhole : Trail behaviour.step (.Node name, state) updates (.END, final)) :
    ∃ polls s, control.after out polls = .done s (.RunEnded final) ∧
      appliedUpdates s.run.log = updates := by
  have hfinishes (left : Nat) : ∀ polls s, Wait behaviour out control polls s →
      updates.length - (appliedUpdates s.run.log).length = left →
      ∃ later s' last, control.after out later = .done s' (.RunEnded last) ∧
        Throughout (ResultsBy behaviour) s'.run.log := by
    induction left using Nat.strongRecOn with
    | ind left hfewer =>
        intro polls s hwait hcount
        rcases hwait.applies hlaunch hsingle hdriven hdecides htrips hwhole with
          ⟨later, s', hwait', hlonger⟩ | hover
        · obtain ⟨node, slot, -, hfollows, -, -⟩ := hwait'.busy hlaunch hsingle hdecides htrips
          obtain ⟨after, hsame, -⟩ := hwhole.through rfl hfollows.trail
          have htotal : updates.length = (appliedUpdates s'.run.log).length + after.length := by
            rw [hsame, List.length_append]
          exact hfewer _ (by omega) later s' hwait' rfl
        · exact hover
  obtain ⟨s, hwait⟩ := first hlaunch hsingle hdriven hdecides htrips huntriggered
  obtain ⟨polls, s', last, hover, hresults⟩ := hfinishes _ 0 s hwait rfl
  obtain ⟨-, hcame⟩ := hlaunch.trail_of_ended hsingle hdecides htrips hover hresults
  obtain ⟨hsame, hequal⟩ := hwhole.unique rfl rfl hcame
  cases hequal
  exact ⟨polls, s', hover, hsame.symm⟩

end Driven

/-- A checkpoint of the one node that the machine has come to passes the checks of a resume, and
its state is rebuilt as it was. -/
theorem checkResume_ok {graph : Graph F} (htrips : RoundTrips F) {checkpoint : Checkpoint}
    {name : String} {state : State F} {now : Nat} (hnodes : checkpoint.nodes = [name])
    (hknown : name ∈ graph.shape.names) (hstructureOf : checkpoint.structureOf = graph.shape)
    (hwritten : state.toJson now = .ok checkpoint.state) :
    checkResume graph 0 checkpoint state.limit = .ok state := by
  have hnames : checkNames graph checkpoint.nodes = .ok () := by
    rw [checkNames_ok, hnodes]
    simpa using hknown
  have hshapes : checkStructure graph checkpoint = .ok () := by
    simp [checkStructure, hstructureOf]
  unfold checkResume rebuildState
  rw [hnames, hshapes]
  dsimp only
  rw [htrips.rebuild hwritten 0]

/-- Take a run of one node that ended, where each edge decides for one target and each result is a
function of the last input, and any step checkpoint it offered.  Written, read back and resumed, the
checkpoint gives a run that, driven by the same nodes, applies exactly the updates that the first
run applied after that checkpoint, and ends in the same state. -/
theorem resumed_run_ends_alike {behaviour : Behaviour F} {out : Outside F} {graph : Graph F}
    {config : RunConfig} {name : String} {state final : State F} {control : Control F}
    (hdecides : behaviour.Decides graph) (htrips : RoundTrips F)
    (hlaunch : Launch out graph config (.Nodes [name]) state control) {polls : Nat} {s : Sys F}
    (hover : control.after out polls = .done s (.RunEnded final))
    (hresults : Throughout (ResultsBy behaviour) s.run.log)
    {later past : List (Fact F)} {checkpoint : Checkpoint}
    (hcut : s.run.log = later ++ .offered checkpoint :: past)
    (text : JsonText) (describe : BuildError → String) (hreads : text.Reads checkpoint.toJson)
    (out' : Outside F) (config' : RunConfig) (huntriggered : config'.triggered = false) :
    ∃ read control',
      Checkpoint.fromJsonSlice text describe (text.print checkpoint.toJson) = .ok read ∧
      resume out' graph read state.limit config' = .ok control' ∧
      (Driven behaviour out' control' →
        ∃ polls' s', control'.after out' polls' = .done s' (.RunEnded final) ∧
          appliedUpdates s.run.log = appliedUpdates past ++ appliedUpdates s'.run.log) := by
  obtain ⟨honTrail, hwhole⟩ := hlaunch.trail_of_ended rfl hdecides htrips hover hresults
  obtain ⟨node, point, now, hreached, hnodes, hknown, hstructureOf, hlimit, hwritten⟩ :=
    (Lib.throughout_iff _ _).mp honTrail _ _ _ hcut
  obtain ⟨after, hsame, honward⟩ := hwhole.through rfl hreached
  have hrebuilt : checkResume graph 0 checkpoint point.limit = .ok point :=
    checkResume_ok htrips hnodes hknown hstructureOf hwritten
  rw [hlimit] at hrebuilt
  have hresumed : resume out' graph checkpoint state.limit config' = .ok (Sys.begin out'
      ⟨.new graph point config'.grace config'.sink, .fresh config'.triggered⟩
      (.Checkpoint checkpoint)) := by
    unfold resume
    rw [hrebuilt]
  refine ⟨checkpoint, _, Checkpoint.fromJsonSlice_print text describe hreads, hresumed, ?_⟩
  intro hdriven
  have hrelaunch : Launch out' graph config' (.Checkpoint checkpoint) point _ :=
    .resume checkpoint state.limit point _ hrebuilt hresumed
  obtain ⟨polls', s', hended, hrest⟩ :=
    hdriven.ends hrelaunch hnodes hdecides htrips huntriggered honward
  exact ⟨polls', s', hended, by rw [hsame, hrest]⟩

/-! The small graph from `a` on, resumed at the checkpoint between its two nodes. -/

/-- The first node adds one stroke, the second two. -/
def addsUp : Behaviour Tally where
  result name _ := if name = "a" then (1 : Nat) else (2 : Nat)
  target name _ := if name = "a" then .Node "n" else .END

theorem addsUp_decides : addsUp.Decides pairGraph := by
  intro name entry hfound now state
  rw [pairGraph, GraphBuilder.built_entryOf] at hfound
  obtain ⟨edge, hlocated, rfl⟩ := Option.map_eq_some_iff.mp hfound
  have hsource : edge.source = name := by simpa using List.find?_some hlocated
  have hlisted : edge ∈ [leadsTo "a" (.Node "n"), leadsTo "n" .END] :=
    List.mem_of_find?_eq_some hlocated
  subst hsource
  rcases List.mem_cons.mp hlisted with rfl | hlast
  · exact ⟨rfl, List.mem_singleton_self _⟩
  · rw [List.mem_singleton.mp hlast]
    exact ⟨rfl, List.mem_singleton_self _⟩

theorem tally_roundTrips : RoundTrips Tally where
  steady _ _ := rfl
  reads fields text hwritten := by
    cases hwritten
    simp [Fields.fromJson]

/-- Each instance is created, and ends, as soon as the driver waits for it. -/
def firstTime : Outside Tally
  | 2 => .doing [.channel 0, .created ⟨"a", 0⟩ (.ok 0)]
  | 7 => .doing [.finish 0 (.Result (1 : Nat)), .forward 0]
  | 16 => .doing [.channel 1, .created ⟨"n", 1⟩ (.ok 1)]
  | 21 => .doing [.finish 1 (.Result (2 : Nat)), .forward 1]
  | _ => .still

def again : Outside Tally
  | 2 => .doing [.channel 0, .created ⟨"n", 0⟩ (.ok 0)]
  | 7 => .doing [.finish 0 (.Result (2 : Nat)), .forward 0]
  | _ => .still

def firstRun : Control Tally :=
  Sys.begin firstTime ⟨.new pairGraph Tally.zero 0 true, .fresh false⟩ (.Nodes ["a"])

/-- The checkpoint between the two nodes. -/
def between : Checkpoint := ⟨"|", pairGraph.shape, ["n"]⟩

theorem again_undisturbed : Undisturbed again where
  quiet moment := by
    unfold again
    split <;> simp [Moment.doing, Moment.still]
  minted moment := by
    unfold again
    split <;> rfl
  sunk moment := by
    unfold again
    split <;> rfl

/-- The update is the one of `addsUp` on the last accepted input. -/
def addsUpOn (log : List (Fact Tally)) (name : String) (id : InstanceId) (update : Nat) : Bool :=
  (lastAccepted log name id).any fun last => update == (addsUp.result name last.state : Nat)

private theorem of_addsUpOn {log : List (Fact Tally)} {name : String} {id : InstanceId}
    {update : Nat} (hholds : addsUpOn log name id update = true) :
    ∃ last, lastAccepted log name id = some last ∧ update = addsUp.result name last.state := by
  obtain ⟨last, haccepted, hsame⟩ := (Option.any_eq_true _ _).mp hholds
  exact ⟨last, haccepted, by simpa using hsame⟩

def allAddUp : List (Fact Tally) → Bool
  | [] => true
  | .handled name id (.ok (.Result update)) :: past => addsUpOn past name id update && allAddUp past
  | _ :: past => allAddUp past

private theorem of_allAddUp {log : List (Fact Tally)} (hall : allAddUp log = true) :
    Throughout (ResultsBy addsUp) log := by
  induction log with
  | nil => trivial
  | cons fact past hstep =>
      unfold allAddUp at hall
      split at hall
      · contradiction
      · rename_i hsame
        cases hsame
        rw [Bool.and_eq_true] at hall
        exact ⟨of_addsUpOn hall.1, hstep hall.2⟩
      · rename_i hother hsame
        cases hsame
        refine ⟨?_, hstep hall⟩
        rcases fact with _ | _ | _ | _ | ⟨name, id, error | update | _ | _ | _⟩ | _ | _ | _ | _ | _
        all_goals first | trivial | exact (hother _ _ _ rfl).elim

/-- At a wait the control hears, by `addsUp`, about a live instance. -/
def Control.hearsWell (out : Outside Tally) : Control Tally → Bool
  | .done _ _ => true
  | .waiting s =>
      match s.heard out with
      | some (.Created node id (.ok made), _) =>
          made.id == id && (s.run.slot node).any fun slot =>
            (slot.firstInputOfCreation id).isSome
      | some (.Ended node id (.ok (.Result update)), _) =>
          ((s.run.slot node).any fun slot => slot.runningId == some id) &&
            addsUpOn s.run.log node id update
      | _ => false

private theorem of_hearsWell {out : Outside Tally} {s : Sys Tally}
    (hwell : (Control.waiting s).hearsWell out = true) :
    ∃ message s₁, s.heard out = some (message, s₁) ∧ message.By addsUp s.run ∧
      message.Live s.run := by
  unfold Control.hearsWell at hwell
  dsimp only at hwell
  split at hwell
  · rename_i node id made s₁ hheard
    rw [Bool.and_eq_true, beq_iff_eq] at hwell
    obtain ⟨slot, hatNode, hbegun⟩ := (Option.any_eq_true _ _).mp hwell.2
    obtain ⟨input, hfirst⟩ := Option.isSome_iff_exists.mp hbegun
    rw [NodeSlot.firstInputOfCreation_eq_some] at hfirst
    refine ⟨_, s₁, hheard, ⟨made.core, ?_⟩, slot, input, hatNode, hfirst⟩
    rw [← hwell.1]
  · rename_i node id update s₁ hheard
    rw [Bool.and_eq_true] at hwell
    obtain ⟨slot, hatNode, hown⟩ := (Option.any_eq_true _ _).mp hwell.1
    obtain ⟨core, halive⟩ := (NodeSlot.runningId_eq_some slot id).mp (by simpa using hown)
    obtain ⟨last, haccepted, hsame⟩ := of_addsUpOn hwell.2
    exact ⟨_, s₁, hheard, ⟨last, haccepted, by rw [hsame]⟩, slot, core, hatNode, halive⟩
  · cases hwell

/-- A run that hears well at each of its waits is driven by nodes that add up. -/
theorem driven_of_hearsWell {out : Outside Tally} {control : Control Tally} (last : Nat)
    (hundisturbed : Undisturbed out)
    (hwell : ∀ polls < last, (control.after out polls).hearsWell out = true)
    (hover : (control.after out last).isDone = true) : Driven addsUp out control := by
  have hearly : ∀ polls s, control.after out polls = .waiting s → polls < last := by
    intro polls s hwaiting
    by_contra hlate
    have hsame := Control.after_done hover (polls - last)
    rw [Nat.add_sub_cancel' (Nat.not_lt.mp hlate), hwaiting] at hsame
    rw [← hsame] at hover
    cases hover
  refine ⟨hundisturbed, ?_, ?_⟩
  · intro polls s message s₁ hwaiting hheard
    have hhere := hwell polls (hearly polls s hwaiting)
    rw [hwaiting] at hhere
    obtain ⟨other, s₂, hsame, hsent, -⟩ := of_hearsWell hhere
    rw [hheard, Option.some.injEq, Prod.mk.injEq] at hsame
    exact hsame.1 ▸ hsent
  · intro polls s hwaiting
    have hhere := hwell polls (hearly polls s hwaiting)
    rw [hwaiting] at hhere
    obtain ⟨message, s₁, hheard, -, hlive⟩ := of_hearsWell hhere
    exact ⟨0, s, message, s₁, hwaiting, hheard, hlive⟩

/-- The compact text, of which one tree is read back. -/
def textOf (tree : Lib.Json) : JsonText where
  print tree := tree.write
  parse json := if json = tree.write then .ok tree else .error "expected value at line 1 column 1"
  explain _ _ := ""

theorem textOf_reads (tree : Lib.Json) : (textOf tree).Reads tree := by
  simp [JsonText.Reads, textOf]

/-- The count a control ended with, whether its results add up, and whether it offered the
checkpoint. -/
def Control.firstReport : Control Tally → Option (Nat × Bool × Bool)
  | .done s (.RunEnded final) =>
      some (final.fields.count, allAddUp s.run.log, s.run.log.any fun
        | .offered checkpoint => checkpoint = between
        | _ => false)
  | _ => none

private theorem of_firstReport (control : Control Tally) (count : Nat)
    (hreport : control.firstReport = some (count, true, true)) :
    ∃ s final later past, control = .done s (.RunEnded final) ∧ final.fields.count = count ∧
      Throughout (ResultsBy addsUp) s.run.log ∧
      s.run.log = later ++ .offered between :: past := by
  unfold Control.firstReport at hreport
  split at hreport
  · rename_i s final
    rw [Option.some.injEq, Prod.mk.injEq, Prod.mk.injEq] at hreport
    obtain ⟨hended, hall, hoffers⟩ := hreport
    obtain ⟨fact, hmember, hoffered⟩ := List.any_eq_true.mp hoffers
    split at hoffered
    · rename_i checkpoint
      rw [decide_eq_true_eq] at hoffered
      rw [hoffered] at hmember
      obtain ⟨later, past, hcut⟩ := List.append_of_mem hmember
      exact ⟨s, final, later, past, rfl, hended, of_allAddUp hall, hcut⟩
    · cases hoffered
  · cases hreport

/-- The resumed run hears well twice, and is over then. -/
def againWell : Except ResumeError (Control Tally) → Bool
  | .ok control =>
      (control.after again 0).hearsWell again && (control.after again 1).hearsWell again &&
        (control.after again 2).isDone
  | .error _ => false

private theorem driven_of_againWell {control : Control Tally}
    (hwell : againWell (.ok control) = true) : Driven addsUp again control := by
  change (_ && _ && _) = true at hwell
  rw [Bool.and_eq_true, Bool.and_eq_true] at hwell
  refine driven_of_hearsWell 2 again_undisturbed (fun polls hearly => ?_) hwell.2
  obtain rfl | rfl : polls = 0 ∨ polls = 1 := by omega
  · exact hwell.1.1
  · exact hwell.1.2

/-- The run from `a` ends with three strokes, and so does the run resumed from the checkpoint
between `a` and `n`. -/
theorem resumed_run_ends_alike_pair :
    ∃ control' polls' s' final,
      resume again pairGraph between Tally.zero.limit ⟨false, 0, true⟩ = .ok control' ∧
      control'.after again polls' = .done s' (.RunEnded final) ∧ final.fields.count = 3 := by
  have hlaunch : Launch firstTime pairGraph ⟨false, 0, true⟩ (.Nodes ["a"]) Tally.zero firstRun :=
    Launch.ofStart Tally.zero ["a"] (by decide +kernel)
  obtain ⟨s, final, later, past, hover, hcount, hresults, hcut⟩ :=
    of_firstReport (firstRun.after firstTime 4) 3 (by decide +kernel)
  obtain ⟨read, control', hparsed, hresumed, halike⟩ :=
    resumed_run_ends_alike addsUp_decides tally_roundTrips hlaunch hover hresults hcut
      (textOf between.toJson) (fun _ => "invalid structure") (textOf_reads _) again
      ⟨false, 0, true⟩ rfl
  have hsame : read = between := by
    rw [Checkpoint.fromJsonSlice_print _ _ (textOf_reads _)] at hparsed
    exact (Except.ok.inj hparsed).symm
  rw [hsame] at hresumed
  have hwell : againWell (resume again pairGraph between Tally.zero.limit ⟨false, 0, true⟩) =
      true := by
    decide +kernel
  rw [hresumed] at hwell
  obtain ⟨polls', s', hended, -⟩ := halike (driven_of_againWell hwell)
  exact ⟨control', polls', s', final, hresumed, hended, hcount⟩

end LlmGraph.Executor
