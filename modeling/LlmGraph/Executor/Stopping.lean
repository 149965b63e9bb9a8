/- digest: What a stopping run no longer does, and how it comes to its end: no creation is begun, no
   checkpoint offered, and every message it handles leaves less to wait for. -/

import LlmGraph.Executor.Lifetimes
import LlmGraph.Executor.Outcomes

set_option autoImplicit false
set_option relaxedAutoImplicit false

namespace LlmGraph.Executor

open Contract
open Lib (Throughout throughout_iff)

variable {F : Type} [Fields F]

/-- The run has entered its stop. -/
def Stopped (log : List (Fact F)) : Prop := ∃ trigger, .stopped trigger ∈ log

/-- What the discipline of a stop asks of an entry in view of the log before it. -/
def Disciplined : Fact F → List (Fact F) → Prop
  | .creating .., past => ¬Stopped past
  | .offered _, past => ¬Stopped past
  | .stopped _, past => ¬Stopped past
  | .accepted name id _, past => Stopped past →
      .creating name id ∈ past ∧ (∀ input, .accepted name id input ∉ past) ∧
        ∃ kind subkind earlier, past = .told (.InstanceCreated id name kind subkind) :: earlier
  | _, _ => True

/-- Entries a run adds in any phase. -/
def Fact.Free : Fact F → Prop
  | .creating .. => False
  | .offered _ => False
  | .stopped _ => False
  | .accepted .. => False
  | _ => True

theorem stopped_cons (fact : Fact F) (log : List (Fact F)) :
    Stopped (fact :: log) ↔ (∃ trigger, fact = .stopped trigger) ∨ Stopped log := by
  constructor
  · rintro ⟨trigger, hmem⟩
    rcases List.mem_cons.mp hmem with heq | hpast
    · exact .inl ⟨trigger, heq.symm⟩
    · exact .inr ⟨trigger, hpast⟩
  · rintro (⟨trigger, rfl⟩ | ⟨trigger, hpast⟩)
    · exact ⟨trigger, List.mem_cons_self⟩
    · exact ⟨trigger, List.mem_cons_of_mem _ hpast⟩

/-- The log of a run tells its phase, and keeps the discipline of a stop. -/
structure Orderly (run : Run F) : Prop where
  phase : Stopped run.log ↔ run.isStopping = true
  entries : Throughout Disciplined run.log

namespace Orderly

variable {run run' : Run F} (horderly : Orderly run)
include horderly

theorem running (hrunning : run.isStopping = false) : ¬Stopped run.log := by
  intro hstopped
  rw [horderly.phase.mp hstopped] at hrunning
  cases hrunning

theorem same (hlog : run'.log = run.log) (hphase : run'.phase = run.phase) : Orderly run' := by
  have hstopping : run'.isStopping = run.isStopping := by simp only [Run.isStopping, hphase]
  refine ⟨?_, ?_⟩
  · rw [hlog, hstopping]
    exact horderly.phase
  · rw [hlog]
    exact horderly.entries

/-- An entry that stops nothing and keeps the discipline. -/
theorem entry {fact : Fact F} (hlog : run'.log = fact :: run.log)
    (hphase : run'.phase = run.phase) (hother : ∀ trigger, fact ≠ .stopped trigger)
    (hdisciplined : Disciplined fact run.log) : Orderly run' := by
  have hstopping : run'.isStopping = run.isStopping := by simp only [Run.isStopping, hphase]
  refine ⟨?_, ?_⟩
  · rw [hlog, hstopping, stopped_cons, ← horderly.phase]
    constructor
    · rintro (⟨trigger, heq⟩ | hpast)
      · exact absurd heq (hother trigger)
      · exact hpast
    · exact .inr
  · rw [hlog]
    exact ⟨hdisciplined, horderly.entries⟩

theorem free {fact : Fact F} (hlog : run'.log = fact :: run.log)
    (hphase : run'.phase = run.phase) (hfree : fact.Free) : Orderly run' := by
  refine horderly.entry hlog hphase ?_ ?_
  · rintro trigger rfl
    exact hfree
  · cases fact with
    | creating => cases hfree
    | offered => cases hfree
    | stopped => cases hfree
    | accepted => cases hfree
    | _ => trivial

theorem stop (hrunning : run.isStopping = false) (deadline : Nat) (trigger : Trigger) :
    Orderly (run.beginStopping deadline trigger) := by
  refine ⟨?_, horderly.running hrunning, horderly.entries⟩
  show Stopped (.stopped trigger :: run.log) ↔ true = true
  simp only [iff_true]
  exact ⟨trigger, List.mem_cons_self⟩

theorem fail (triggered : Bool) (deadline : Nat) (failure : RunFailure) :
    Orderly (run.fail triggered deadline failure) := by
  have hfailed : Orderly ({ run with failures := run.failures ++ [failure] }.note
      (.failed failure triggered)) := horderly.free rfl rfl trivial
  rw [Run.fail]
  split
  · exact hfailed
  · rename_i hrunning
    exact hfailed.stop (by simpa using hrunning) _ _

theorem ending (name : String) (id : InstanceId) (result : Except EventEndError (Event F)) :
    Orderly (run.ending name id result) := by
  have hhandled : Orderly ((run.change name (·.endInstance)).note (.handled name id result)) :=
    horderly.free rfl rfl trivial
  cases result with
  | error error => exact hhandled
  | ok event => exact hhandled.free rfl rfl trivial

theorem stopByHost (deadline : Nat) : Orderly (run.stopByHost deadline) := by
  rw [Run.stopByHost]
  split
  · exact horderly
  · rename_i hrunning
    exact horderly.stop (by simpa using hrunning) _ _

end Orderly

/-- Every change of a run keeps the discipline of its stop. -/
theorem Effect.orderly {origin : Origin} {triggered : Bool} {run run' : Run F}
    (hchange : Effect origin triggered run run') (haccounts : Accounts run)
    (hlives : Lifetimes run) (horderly : Orderly run) : Orderly run' := by
  cases hchange with
  | idle => exact horderly
  | stop deadline hrunning => exact horderly.stop hrunning deadline .Host
  | create name slot hslot habsent hheld hrunning =>
    exact horderly.entry rfl rfl (fun _ heq => by cases heq) (horderly.running hrunning)
  | notMinted name slot reason deadline =>
    have hleft : Orderly (run.change name (·.leaveUntaken)) := horderly.same rfl rfl
    exact hleft.fail _ _ _
  | created name slot id firstInput core hslot hcreating =>
    have hmade : Orderly (run.instanceCreated name id core slot) :=
      horderly.free rfl rfl trivial
    have hbegun := hlives.mine name slot.live id (Run.live_eq_some hslot) (by rw [hcreating]; rfl)
    have hnone := haccounts.nothing_accepted hslot hcreating
    have haccepted : Orderly ((run.instanceCreated name id core slot).note
        (.accepted name id firstInput)) := by
      refine hmade.entry rfl rfl (fun _ heq => by cases heq) ?_
      intro _
      refine ⟨List.mem_cons_of_mem _ hbegun, ?_, slot.kind, slot.subkind, run.log, rfl⟩
      intro input hmem
      rcases List.mem_cons.mp hmem with heq | hpast
      · cases heq
      · exact hnone input hpast
    exact haccepted.free rfl rfl trivial
  | createdShut name slot id firstInput core =>
    have hmade : Orderly (run.instanceCreated name id core slot) :=
      horderly.free rfl rfl trivial
    exact hmade.same rfl rfl
  | notCreated name slot id firstInput reason cause deadline =>
    have hleft : Orderly ((run.change name (·.endInstance.hold)).change name (·.leaveUntaken)) :=
      horderly.same rfl rfl
    exact hleft.fail _ _ _
  | give name slot id core hslot halive hheld hrunning =>
    have haccepted : Orderly (run.note (.accepted name id run.state)) := by
      refine horderly.entry rfl rfl (fun _ heq => by cases heq) ?_
      intro hstopped
      exact absurd hstopped (horderly.running hrunning)
    exact haccepted.free rfl rfl trivial
  | fail name slot id core result =>
    have hleft : Orderly ((run.ending name id result).change name (·.leaveUntaken)) :=
      (horderly.ending name id result).same rfl rfl
    exact hleft.fail _ _ _
  | cancel name slot id core deadline =>
    have hleft : Orderly ((run.ending name id (.ok .Cancelled)).change name (·.leaveUntaken)) :=
      (horderly.ending name id (.ok .Cancelled)).same rfl rfl
    exact hleft.stopByHost deadline
  | apply name slot id core update newState targets =>
    have happlied : Orderly ({ run.ending name id (.ok (.Result update)) with
        state := ⟨run.state.step + 1, newState⟩ }.note
          (.applied name id update ⟨run.state.step + 1, newState⟩ targets)) :=
      (horderly.ending name id (.ok (.Result update))).free rfl rfl trivial
    have hupdated : Orderly (({ run.ending name id (.ok (.Result update)) with
        state := ⟨run.state.step + 1, newState⟩ }.note
          (.applied name id update ⟨run.state.step + 1, newState⟩ targets)).tell
            (.UpdateApplied name)) := happlied.free rfl rfl trivial
    have hevaluated : Orderly ((({ run.ending name id (.ok (.Result update)) with
        state := ⟨run.state.step + 1, newState⟩ }.note
          (.applied name id update ⟨run.state.step + 1, newState⟩ targets)).tell
            (.UpdateApplied name)).tell (.EdgeEvaluated name targets)) :=
      hupdated.free rfl rfl trivial
    exact hevaluated.same (Run.holdAll_log _ _) (Run.holdAll_phase _ _)
  | offer now checkpoint hrunning =>
    exact horderly.entry rfl rfl (fun _ heq => by cases heq) (horderly.running hrunning)
  | sinkFailed failure deadline => exact horderly.fail _ _ _
  | abandon => exact horderly.same rfl rfl
  | conclude kind outcome =>
    have htold : Orderly (run.tell (.Outcome kind)) := horderly.free rfl rfl trivial
    exact htold.free rfl rfl trivial

/-- A run that begins is not stopping. -/
theorem Orderly.opening (graph : Graph F) (state : State F) (config : RunConfig)
    (names : List String) : Orderly (Run.opened graph state config names) := by
  have hlog : (Run.opened graph state config names).log = [.started names] := by
    rw [Run.opened, Run.note, Run.holdAll_log]
    rfl
  have hphase : (Run.opened graph state config names).phase = .Running := Run.holdAll_phase _ _
  refine ⟨?_, ?_⟩
  · have hrunning : (Run.opened graph state config names).isStopping = false := by
      simp only [Run.isStopping, hphase]
    rw [hlog, hrunning]
    constructor
    · rintro ⟨trigger, hmem⟩
      simp at hmem
    · intro hstopping
      cases hstopping
  · rw [hlog]
    exact ⟨trivial, trivial⟩

theorem Launch.orderly {out : Outside F} {graph : Graph F} {config : RunConfig}
    {origin : Origin} {state : State F} {control : Control F}
    (hlaunch : Launch out graph config origin state control) (polls : Nat) :
    Orderly (control.after out polls).sys.run := by
  obtain ⟨s, hopened, hmoves⟩ := hlaunch.moves polls
  have hall : Accounts (control.after out polls).sys.run ∧
      Lifetimes (control.after out polls).sys.run ∧ Orderly (control.after out polls).sys.run := by
    refine hmoves.keeps (P := fun run => Accounts run ∧ Lifetimes run ∧ Orderly run) ?_ ?_
    · rintro triggered run run' hchange ⟨haccounts, hlives, horderly⟩
      exact ⟨haccounts.effect hchange, hlives.turn hchange.turn,
        hchange.orderly haccounts hlives horderly⟩
    · rw [hopened]
      exact ⟨Accounts.opened graph state config _ hlaunch.names_known,
        Lifetimes.opening graph state config _, Orderly.opening graph state config _⟩
  exact hall.2.2

/-- Behind the entry that stopped a run: no creation, no checkpoint, and no input but the first one
of a creation begun before. -/
theorem Orderly.behind {run : Run F} (horderly : Orderly run) {later past : List (Fact F)}
    {trigger : Trigger} (hcut : run.log = later ++ .stopped trigger :: past) :
    (∀ name id, .creating name id ∉ later) ∧ (∀ checkpoint, .offered checkpoint ∉ later) ∧
    (∀ other, .stopped other ∉ later) ∧
    ∀ front name id input back, later = front ++ .accepted name id input :: back →
      .creating name id ∈ past ∧ (∀ other, .accepted name id other ∉ back ++ past) ∧
        ∃ kind subkind earlier, back = .told (.InstanceCreated id name kind subkind) :: earlier := by
  have hentries := (throughout_iff _ _).mp horderly.entries
  have hview : ∀ fact ∈ later, ∃ before, Disciplined fact before ∧ Stopped before := by
    intro fact hmem
    obtain ⟨front, back, rfl⟩ := List.append_of_mem hmem
    refine ⟨back ++ .stopped trigger :: past, hentries front fact _ ?_, trigger, by simp⟩
    rw [hcut, List.append_assoc]
    rfl
  refine ⟨?_, ?_, ?_, ?_⟩
  · intro name id hmem
    obtain ⟨before, hdisciplined, hstopped⟩ := hview _ hmem
    exact hdisciplined hstopped
  · intro checkpoint hmem
    obtain ⟨before, hdisciplined, hstopped⟩ := hview _ hmem
    exact hdisciplined hstopped
  · intro other hmem
    obtain ⟨before, hdisciplined, hstopped⟩ := hview _ hmem
    exact hdisciplined hstopped
  · rintro front name id input back rfl
    have hdisciplined : Disciplined (.accepted name id input) (back ++ .stopped trigger :: past) := by
      apply hentries front
      rw [hcut, List.append_assoc]
      rfl
    obtain ⟨hbegun, hnone, kind, subkind, earlier, hcreated⟩ :=
      hdisciplined ⟨trigger, by simp⟩
    have hpast : .creating name id ∈ past := by
      rcases List.mem_append.mp hbegun with hback | hstopped
      · obtain ⟨before, hcreating, hbefore⟩ := hview (.creating name id) (by simp [hback])
        exact absurd hbefore hcreating
      · simpa using hstopped
    refine ⟨hpast, ?_, ?_⟩
    · intro other hmem
      apply hnone other
      rcases List.mem_append.mp hmem with hback | hbefore
      · exact List.mem_append_left _ hback
      · exact List.mem_append_right _ (List.mem_cons_of_mem _ hbefore)
    · cases back with
      | nil => cases hcreated
      | cons first rest =>
        rw [List.cons_append, List.cons.injEq] at hcreated
        exact ⟨kind, subkind, rest, by rw [hcreated.1]⟩

/-! Results that arrive while a run stops. -/

theorem slot_step (run : Run F) (name : String) (id : InstanceId) (update : Fields.Update F)
    (newState : State F) (targets : List Target) (other : String) :
    (run.step name id update newState targets).slot other =
      (run.slot other).map fun slot =>
        if other ∈ Target.names targets then slot.hold else slot :=
  Run.slot_holdAll _ _ _

/-- What a slot of a run is once a result of the node was applied whose edge gave the targets. -/
def NodeSlot.afterResult (node : String) (targets : List Target) (name : String)
    (slot : NodeSlot F) : NodeSlot F :=
  let slot := if name = node then slot.endInstance else slot
  if name ∈ Target.names targets then slot.hold else slot

namespace Sys

variable (out : Outside F)

theorem readToken_of_stopping {s : Sys F} (hstopping : s.run.isStopping = true) :
    s.readToken out = s.tick out := by
  have hsame : (s.tick out).run.isStopping = true := hstopping
  rw [readToken]
  simp only [hsame, Bool.not_true, Bool.false_and, Bool.false_eq_true, if_false]

theorem resultStep_stopping {s : Sys F} {node : String} {id : InstanceId}
    {update : Fields.Update F} {newState : State F} {targets : List Target}
    (hstopping : s.run.isStopping = true)
    (happlied : s.run.state.state.apply (s.world.clock + 1) update = .ok newState)
    (hevaluated : s.run.graph.evaluateEdge (s.world.clock + 2) node newState = .ok targets) :
    (s.resultStep out node id update).run = s.run.step node id update newState targets := by
  have hstill : (s.run.step node id update newState targets).isStopping = true := by
    have hphase : (s.run.step node id update newState targets).phase = s.run.phase :=
      Run.holdAll_phase _ _
    simp only [Run.isStopping, hphase]
    exact hstopping
  have hfirst : s.run.state.state.apply (s.tick out).world.clock update = .ok newState := happlied
  have hsecond : s.run.graph.evaluateEdge ((s.tick out).tick out).world.clock node newState =
      .ok targets := hevaluated
  rw [resultStep]
  simp only [run_withRun, run_tick, hfirst, hsecond, hstill, Bool.not_true, Bool.false_eq_true,
    if_false, ite_self]

/-- A result that arrives while the run stops is applied, and its targets are held: nothing is
handed to them. -/
theorem step_result_stopping {s : Sys F} {node : String} {slot : NodeSlot F} {id : InstanceId}
    {core : Address} {update : Fields.Update F} {newState : State F} {targets : List Target}
    (hstopping : s.run.isStopping = true) (hslot : s.run.slot node = some slot)
    (hlive : slot.live = .Running id core)
    (happlied : s.run.state.state.apply (s.world.clock + 2) update = .ok newState)
    (hevaluated : s.run.graph.evaluateEdge (s.world.clock + 3) node newState = .ok targets) :
    (s.step out (.Ended node id (.ok (.Result update)))).run =
      (s.run.ending node id (.ok (.Result update))).step node id update newState targets := by
  have hrunning : slot.runningId = some id :=
    (NodeSlot.runningId_eq_some slot id).mpr ⟨core, hlive⟩
  have hdropped : (Sys.dropLive (s.tick out).world node slot).clock = s.world.clock + 1 := by
    rcases slot with ⟨kind, subkind, live, held, untaken⟩
    cases hlive
    rfl
  show ((s.readToken out).onEnded out node id (.ok (.Result update))).run = _
  rw [readToken_of_stopping out hstopping, onEnded, run_tick, hslot]
  simp only [hrunning, ne_eq, not_true_eq_false, if_false]
  apply resultStep_stopping out
  · exact hstopping
  · show s.run.state.state.apply ((Sys.dropLive (s.tick out).world node slot).clock + 1) update =
      .ok newState
    rw [hdropped]
    exact happlied
  · show s.run.graph.evaluateEdge ((Sys.dropLive (s.tick out).world node slot).clock + 2) node
      newState = .ok targets
    rw [hdropped]
    exact hevaluated

end Sys

theorem slot_afterResult (run : Run F) (node : String) (id : InstanceId)
    (update : Fields.Update F) (newState : State F) (targets : List Target) (name : String) :
    ((run.ending node id (.ok (.Result update))).step node id update newState targets).slot name =
      (run.slot name).map (NodeSlot.afterResult node targets name) := by
  rw [slot_step, slot_ending, Run.slot_change]
  by_cases hname : node = name
  · subst hname
    rw [if_pos rfl, Option.map_map]
    congr 1
    funext slot
    simp only [Function.comp, NodeSlot.afterResult, if_true]
  · have hother : name ≠ node := fun heq => hname heq.symm
    rw [if_neg hname]
    congr 1
    funext slot
    simp only [NodeSlot.afterResult, hother, if_false]

end LlmGraph.Executor
