/- digest: Runs of one node at a time: when every edge decides for one target and every result is a
   function of the last input, the applied updates are a trail of one machine. -/

import LlmGraph.Lib.Trail
import LlmGraph.Executor.HandOver

set_option autoImplicit false
set_option relaxedAutoImplicit false

namespace LlmGraph.Executor

open Contract
open Lib (Attempt Throughout Trail)

variable {F : Type} [Fields F]

/-- What nodes and edges do where they are functions: the result of a node on the last state it
accepted, and the target its edge decides for. -/
structure Behaviour (F : Type) [Fields F] where
  result : String → State F → Fields.Update F
  target : String → State F → Target

namespace Behaviour

/-- Every edge of the graph decides by the behaviour, for one target it declared. -/
def Decides (behaviour : Behaviour F) (graph : Graph F) : Prop :=
  ∀ name entry, graph.entryOf name = some entry → ∀ now state,
    entry.edge.evaluate now state = .ok [behaviour.target name state] ∧
      behaviour.target name state ∈ entry.declared

/-- One step of the graph as a machine: the node at work gives its result on the state, and the
edge says where to go on from the new state. -/
def step (behaviour : Behaviour F) :
    Target × State F → Option (Fields.Update F × (Target × State F))
  | (.END, _) => none
  | (.Node name, state) =>
      match state.apply 0 (behaviour.result name state) with
      | .ok next => some (behaviour.result name state, (behaviour.target name next, next))
      | _ => none

end Behaviour

/-- Writing fields is a function of them, and what is written is read back. -/
structure RoundTrips (F : Type) [Fields F] : Prop where
  steady : ∀ now (fields : F), Fields.toJson now fields = Fields.toJson 0 fields
  reads : ∀ (fields : F) text, Fields.toJson 0 fields = .ok text → Fields.fromJson text = .ok fields

/-- Every result is the behaviour of its node on the last input that its instance accepted. -/
def ResultsBy (behaviour : Behaviour F) : Fact F → List (Fact F) → Prop
  | .handled name id (.ok (.Result update)), past =>
      ∃ last, lastAccepted past name id = some last ∧ update = behaviour.result name last.state
  | _, _ => True

namespace RoundTrips

variable (htrips : RoundTrips F)

include htrips

/-- The measured text of a state is its text at every moment. -/
theorem written (state : State F) (now : Nat) :
    ∃ text, Fields.toJson now state.fields = .ok text ∧ text.utf8ByteSize = state.size := by
  obtain ⟨then_, text, hwritten, hsize⟩ := state.measured
  rw [htrips.steady] at hwritten
  exact ⟨text, (htrips.steady now state.fields).trans hwritten, hsize⟩

/-- An update is applied alike at every moment. -/
theorem apply_steady {now : Nat} {state next : State F} {update : Fields.Update F}
    (happlied : state.apply now update = .ok next) (other : Nat) :
    state.apply other update = .ok next := by
  obtain ⟨fields, hgiven, hcreated⟩ := (Attempt.bind_eq_ok _ _ _).mp happlied
  rw [Attempt.mapError_eq_ok] at hcreated
  obtain ⟨hsame, hlimit⟩ := State.createWithLimit_ok hcreated
  obtain ⟨text, hwritten, hsize⟩ := htrips.written next other
  have hagain := State.createWithLimit_eq_ok hwritten hsize
  rw [hsame, hlimit] at hagain
  exact (Attempt.bind_eq_ok _ _ _).mpr ⟨fields, hgiven, (Attempt.mapError_eq_ok _ _ _).mpr hagain⟩

/-- A state is rebuilt from its text as it was. -/
theorem rebuild {now : Nat} {state : State F} {text : String}
    (hwritten : state.toJson now = .ok text) (other : Nat) :
    State.rebuildWithLimit other text state.limit = .ok state := by
  have hplain : Fields.toJson now state.fields = .ok text := (Attempt.mapError_eq_ok _ _ _).mp hwritten
  rw [htrips.steady] at hplain
  obtain ⟨again, hmeasured, hsize⟩ := htrips.written state other
  refine (Attempt.bind_eq_ok _ _ _).mpr ⟨state.fields, ?_, State.createWithLimit_eq_ok hmeasured hsize⟩
  exact (Attempt.mapError_eq_ok _ _ _).mpr (htrips.reads _ _ hplain)

end RoundTrips

namespace Behaviour

variable {behaviour : Behaviour F} {graph : Graph F}

/-- The one target a node goes to is what its edge is evaluated to. -/
theorem Decides.evaluateEdge (hdecides : behaviour.Decides graph) {name : String}
    {entry : EdgeEntry F} (hfound : graph.entryOf name = some entry) (now : Nat) (state : State F) :
    graph.evaluateEdge now name state = .ok [behaviour.target name state] := by
  obtain ⟨hdecided, hdeclared⟩ := hdecides name entry hfound now state
  obtain ⟨position, hlocated⟩ : ∃ position, entry.position (behaviour.target name state) =
      some position := by
    refine Option.ne_none_iff_exists'.mp fun habsent => ?_
    rw [EdgeEntry.position, List.idxOf?_eq_none_iff] at habsent
    exact habsent hdeclared
  have hunmixed : ¬([behaviour.target name state].any Target.isEnd &&
      [behaviour.target name state].any (!·.isEnd)) = true := by
    simp
  have hsettled : ∃ targets, entry.settle name [behaviour.target name state] = .ok targets := by
    unfold EdgeEntry.settle
    rw [List.isEmpty_cons, if_neg Bool.false_ne_true, if_neg hunmixed]
    simp only [EdgeEntry.choose, hlocated]
    exact ⟨_, rfl⟩
  obtain ⟨targets, haccepted⟩ := hsettled
  have hunique := graph.declared_nodup name entry hfound
  have hchosen := (EdgeEntry.settle_ok hunique haccepted).1
  have hsingle : entry.declared.filter (· ∈ [behaviour.target name state]) =
      [behaviour.target name state] := by
    simp only [List.mem_singleton]
    rw [List.filter_eq, List.count_eq_one_of_mem hunique hdeclared, List.replicate_one]
  rw [hchosen, hsingle] at haccepted
  unfold Graph.evaluateEdge
  simp only [hfound, hdecided, haccepted]

theorem Decides.targets (hdecides : behaviour.Decides graph) {name : String} {now : Nat}
    {state : State F} {targets : List Target}
    (hevaluated : graph.evaluateEdge now name state = .ok targets) :
    targets = [behaviour.target name state] := by
  obtain ⟨entry, returned, hfound, -⟩ := Graph.evaluateEdge_ok hevaluated
  rw [hdecides.evaluateEdge hfound now state] at hevaluated
  cases hevaluated
  rfl

end Behaviour

/-- A run of one node at a time: its applied updates are a trail of the machine, only the node it
has come to is busy, and whatever that node's instance was given is the current state. -/
structure Follows (behaviour : Behaviour F) (first : Target × State F) (run : Run F)
    (target : Target) : Prop where
  trail : Trail behaviour.step first (appliedUpdates run.log) (target, run.state.state)
  busy : ∀ name slot, run.slot name = some slot →
    (slot.isIdle = false ↔ target = .Node name)
  known : ∀ name, target = .Node name → (run.slot name).isSome = true
  creating : ∀ name slot id input, run.slot name = some slot →
    slot.live = .Creating id input → input = run.state ∧ slot.held = false
  running : ∀ name slot id core, run.slot name = some slot → slot.live = .Running id core →
    (∀ input, .accepted name id input ∈ run.log → input = run.state) ∧
      (slot.held = true → ∀ input, .accepted name id input ∉ run.log)

namespace Follows

variable {behaviour : Behaviour F} {first : Target × State F} {run run' : Run F} {target : Target}

theorem target_of_live (hfollows : Follows behaviour first run target) {name : String}
    {slot : NodeSlot F} (hatName : run.slot name = some slot) (halive : slot.live ≠ .Absent) :
    target = .Node name := by
  refine (hfollows.busy name slot hatName).mp ?_
  rcases hidle : slot.isIdle with _ | _
  · rfl
  · exact absurd ((NodeSlot.isIdle_iff slot).mp hidle).1 halive

/-- A change that touches no slot, accepts nothing and applies nothing. -/
theorem quiet (hfollows : Follows behaviour first run target)
    (hslots : ∀ name, run'.slot name = run.slot name) (hstate : run'.state = run.state)
    (hupdates : appliedUpdates run'.log = appliedUpdates run.log)
    (haccepted : ∀ name id input, .accepted name id input ∈ run'.log ↔
      .accepted name id input ∈ run.log) : Follows behaviour first run' target where
  trail := by
    rw [hupdates, hstate]
    exact hfollows.trail
  busy name slot hatName := hfollows.busy name slot (hslots name ▸ hatName)
  known name hsame := by
    rw [hslots]
    exact hfollows.known name hsame
  creating name slot id input hatName hcreating := by
    rw [hstate]
    exact hfollows.creating name slot id input (hslots name ▸ hatName) hcreating
  running name slot id core hatName halive := by
    simp only [haccepted, hstate]
    exact hfollows.running name slot id core (hslots name ▸ hatName) halive

/-- A change of the slot of the busy node, which stays busy. -/
theorem one (hfollows : Follows behaviour first run target) {name : String}
    (hhere : target = .Node name) (slot' : NodeSlot F)
    (hslots : ∀ other, run'.slot other = if name = other then some slot' else run.slot other)
    (hstate : run'.state = run.state)
    (hupdates : appliedUpdates run'.log = appliedUpdates run.log) (hbusy : slot'.isIdle = false)
    (hcreating : ∀ id input, slot'.live = .Creating id input →
      input = run.state ∧ slot'.held = false)
    (hrunning : ∀ id core, slot'.live = .Running id core →
      (∀ input, .accepted name id input ∈ run'.log → input = run.state) ∧
        (slot'.held = true → ∀ input, .accepted name id input ∉ run'.log)) :
    Follows behaviour first run' target := by
  have habsent : ∀ other found, name ≠ other → run.slot other = some found →
      found.live = .Absent := by
    intro other found hdiffers hatOther
    by_contra halive
    have hthere := hfollows.target_of_live hatOther halive
    rw [hhere, Target.Node.injEq] at hthere
    exact hdiffers hthere
  refine ⟨?_, ?_, ?_, ?_, ?_⟩
  · rw [hupdates, hstate]
    exact hfollows.trail
  · intro other found hatOther
    rw [hslots] at hatOther
    split at hatOther
    · rename_i hsame
      cases hatOther
      rw [← hsame, hhere, hbusy]
      simp
    · exact hfollows.busy other found hatOther
  · intro other hsame
    rw [hslots]
    split
    · rfl
    · exact hfollows.known other hsame
  · intro other found id input hatOther hlive
    rw [hslots] at hatOther
    rw [hstate]
    split at hatOther
    · cases hatOther
      exact hcreating id input hlive
    · rename_i hdiffers
      rw [habsent other found hdiffers hatOther] at hlive
      cases hlive
  · intro other found id core hatOther halive
    rw [hslots] at hatOther
    rw [hstate]
    split at hatOther
    · rename_i hsame
      cases hatOther
      exact hsame ▸ hrunning id core halive
    · rename_i hdiffers
      rw [habsent other found hdiffers hatOther] at halive
      cases halive

/-- The busy node's result is applied: the machine takes its step. -/
theorem apply (hfollows : Follows behaviour first run target) (haccounts : Accounts run)
    (hdecides : behaviour.Decides run.graph) (htrips : RoundTrips F) {name : String}
    {slot : NodeSlot F} {id : InstanceId} {core : Address} {update : Fields.Update F}
    {newState : State F} {targets : List Target} {now later : Nat}
    (hatName : run.slot name = some slot) (halive : slot.live = .Running id core)
    (happlied : run.state.state.apply now update = .ok newState)
    (hevaluated : run.graph.evaluateEdge later name newState = .ok targets)
    {last : Shared F} (haccepted : lastAccepted run.log name id = some last)
    (hresult : update = behaviour.result name last.state) :
    Follows behaviour first
      ((run.ending name id (.ok (.Result update))).step name id update newState targets)
      (behaviour.target name newState) := by
  have hhere : target = .Node name := hfollows.target_of_live hatName (by simp [halive])
  have htaken : .accepted name id last ∈ run.log := mem_of_lastAccepted haccepted
  obtain ⟨hcurrent, hnone⟩ := hfollows.running name slot id core hatName halive
  have hsame : last = run.state := hcurrent last htaken
  have hfree : slot.held = false := by
    by_contra hheld
    exact hnone (by simpa using hheld) last htaken
  have hsettled : slot.untaken = false := by
    have hkeeps := haccounts.keeps name slot hatName
    rcases slot with ⟨kind, subkind, live, isHeld, isUntaken⟩
    cases halive
    simpa [NodeSlot.post] using hkeeps.1
  have hsingle : targets = [behaviour.target name newState] := hdecides.targets hevaluated
  have hmoved : behaviour.step (target, run.state.state) =
      some (update, (behaviour.target name newState, newState)) := by
    rw [hsame] at hresult
    rw [hhere, hresult]
    rw [hresult] at happlied
    simp only [Behaviour.step, htrips.apply_steady happlied 0]
  have hslots (other : String) : ((run.ending name id (.ok (.Result update))).step name id update
      newState targets).slot other = ((run.change name (·.endInstance)).slot other).map
        fun slot => if other ∈ Target.names targets then slot.hold else slot :=
    Run.slot_holdAll _ _ _
  have hended := run.slot_change_at hatName (·.endInstance)
  have hidleBefore : ∀ other found, (run.change name (·.endInstance)).slot other = some found →
      found.isIdle = true := by
    intro other found hatOther
    rw [hended] at hatOther
    split at hatOther
    · cases hatOther
      exact (NodeSlot.isIdle_iff _).mpr ⟨rfl, hfree, hsettled⟩
    · rename_i hdiffers
      by_contra hbusy
      have hthere := (hfollows.busy other found hatOther).mp (by simpa using hbusy)
      rw [hhere, Target.Node.injEq] at hthere
      exact hdiffers hthere
  have hmember (other : String) : other ∈ Target.names targets ↔
      behaviour.target name newState = .Node other := by
    rw [hsingle]
    rcases behaviour.target name newState with node | _
    · simp [Target.names, eq_comm]
    · simp [Target.names]
  refine ⟨?_, ?_, ?_, ?_, ?_⟩
  · rw [Run.step_updates, Run.step_state]
    exact hfollows.trail.snoc hmoved
  · intro other found hatOther
    rw [hslots] at hatOther
    obtain ⟨before, hatBefore, rfl⟩ := Option.map_eq_some_iff.mp hatOther
    have hidle := (NodeSlot.isIdle_iff before).mp (hidleBefore other before hatBefore)
    rw [← hmember]
    by_cases hchosen : other ∈ Target.names targets
    · simp [hchosen, NodeSlot.isIdle, NodeSlot.hold]
    · simp [hchosen, hidleBefore other before hatBefore]
  · intro other hsame
    have htargeted : Target.Node other ∈ targets := by
      rw [hsingle, hsame]
      exact List.mem_singleton_self _
    have hknown := (haccounts.slots other).mp (Graph.target_known hevaluated htargeted)
    rw [hslots, Option.isSome_map, Run.slot_change]
    split
    · rw [Option.isSome_map]
      exact hknown
    · exact hknown
  · intro other found other_id input hatOther hcreating
    rw [hslots] at hatOther
    obtain ⟨before, hatBefore, rfl⟩ := Option.map_eq_some_iff.mp hatOther
    have hidle := (NodeSlot.isIdle_iff before).mp (hidleBefore other before hatBefore)
    split at hcreating <;> exact absurd (hidle.1.symm.trans hcreating) (by simp)
  · intro other found other_id other_core hatOther hrunning
    rw [hslots] at hatOther
    obtain ⟨before, hatBefore, rfl⟩ := Option.map_eq_some_iff.mp hatOther
    have hidle := (NodeSlot.isIdle_iff before).mp (hidleBefore other before hatBefore)
    split at hrunning <;> exact absurd (hidle.1.symm.trans hrunning) (by simp)

/-- The instance of the busy node is lost and its work left behind. -/
theorem lose (hfollows : Follows behaviour first run target) {name : String} {slot : NodeSlot F}
    {id : InstanceId} {core : Address} (hatName : run.slot name = some slot)
    (halive : slot.live = .Running id core)
    (hslots : ∀ other, run'.slot other =
      if name = other then some slot.endInstance.leaveUntaken else run.slot other)
    (hstate : run'.state = run.state)
    (hupdates : appliedUpdates run'.log = appliedUpdates run.log) :
    Follows behaviour first run' target := by
  have hhere := hfollows.target_of_live hatName (by simp [halive])
  refine hfollows.one hhere slot.endInstance.leaveUntaken hslots hstate hupdates ?_ ?_ ?_
  · simp [NodeSlot.isIdle, NodeSlot.leaveUntaken]
  · exact fun _ _ himpossible => by cases himpossible
  · exact fun _ _ himpossible => by cases himpossible

theorem abandon (hfollows : Follows behaviour first run target) :
    Follows behaviour first run.abandonAllLive target where
  trail := hfollows.trail
  busy name found hatName := by
    rw [Run.slot_abandonAllLive] at hatName
    obtain ⟨slot, hatBefore, rfl⟩ := Option.map_eq_some_iff.mp hatName
    rw [← hfollows.busy name slot hatBefore]
    split
    · rename_i hlive
      simp [NodeSlot.isIdle, NodeSlot.abandon, NodeSlot.leaveUntaken, hlive]
    · rfl
  known name hsame := by
    rw [Run.slot_abandonAllLive, Option.isSome_map]
    exact hfollows.known name hsame
  creating name found id input hatName hcreating := by
    rw [Run.slot_abandonAllLive] at hatName
    obtain ⟨slot, hatBefore, rfl⟩ := Option.map_eq_some_iff.mp hatName
    split at hcreating
    · cases hcreating
    · rename_i hdead
      rw [if_neg hdead]
      exact hfollows.creating name slot id input hatBefore hcreating
  running name found id core hatName halive := by
    rw [Run.slot_abandonAllLive] at hatName
    obtain ⟨slot, hatBefore, rfl⟩ := Option.map_eq_some_iff.mp hatName
    split at halive
    · cases halive
    · rename_i hdead
      rw [if_neg hdead]
      exact hfollows.running name slot id core hatBefore halive

/-- The result of an applied step, in view of the past of its handling. -/
private theorem handled_past {run : Run F} {name : String} {id : InstanceId}
    {update : Fields.Update F} {newState : State F} {targets : List Target}
    (hresults : Throughout (ResultsBy behaviour)
      ((run.ending name id (.ok (.Result update))).step name id update newState targets).log) :
    ∃ last, lastAccepted run.log name id = some last ∧
      update = behaviour.result name last.state := by
  rw [Run.step_log] at hresults
  exact hresults.2.2.2.2.1

theorem effect {origin : Origin} {triggered : Bool} (hchange : Effect origin triggered run run')
    (haccounts : Accounts run) (hdecides : behaviour.Decides run.graph) (htrips : RoundTrips F)
    (hresults : Throughout (ResultsBy behaviour) run'.log)
    (hfollows : Follows behaviour first run target) :
    ∃ target', Follows behaviour first run' target' := by
  rcases hchange.log_cases with ⟨new, hlog, hstill, hstate, -⟩ |
    ⟨name, slot, id, core, update, newState, targets, now, later, hatName, halive, happlied,
      hevaluated, rfl⟩
  swap
  · obtain ⟨last, haccepted, hresult⟩ := handled_past hresults
    exact ⟨_, hfollows.apply haccounts hdecides htrips hatName halive happlied hevaluated haccepted
      hresult⟩
  have hupdates : appliedUpdates run'.log = appliedUpdates run.log := by
    rw [hlog]
    exact appliedUpdates_still hstill
  refine ⟨target, ?_⟩
  cases hchange with
  | idle => exact hfollows
  | stop => exact hfollows.quiet (fun _ => rfl) hstate hupdates (by simp [Run.beginStopping, Run.note])
  | create name slot hatName habsent hheld hrunning =>
      have hhere := (hfollows.busy name slot hatName).mp (by simp [NodeSlot.isIdle, hheld])
      refine hfollows.one hhere _ (run.slot_change_at hatName _) hstate hupdates rfl ?_ ?_
      · intro id input hcreating
        cases hcreating
        exact ⟨rfl, rfl⟩
      · exact fun _ _ himpossible => by cases himpossible
  | notMinted name slot reason deadline hatName habsent hheld hrunning =>
      have hhere := (hfollows.busy name slot hatName).mp (by simp [NodeSlot.isIdle, hheld])
      refine hfollows.one hhere slot.leaveUntaken (fun other => ?_) hstate hupdates ?_ ?_ ?_
      · rw [Run.slot_fail, run.slot_change_at hatName]
      · simp [NodeSlot.isIdle, NodeSlot.leaveUntaken]
      · exact fun _ _ hcreating => absurd (habsent.symm.trans hcreating) (by simp)
      · exact fun _ _ halive => absurd (habsent.symm.trans halive) (by simp)
  | created name slot id firstInput core hatName hcreating =>
      have hhere := hfollows.target_of_live hatName (by simp [hcreating])
      obtain ⟨hcurrent, hfree⟩ := hfollows.creating name slot id firstInput hatName hcreating
      have hfresh := haccounts.nothing_accepted hatName hcreating
      refine hfollows.one hhere _ (run.slot_change_at hatName _) hstate hupdates rfl ?_ ?_
      · exact fun _ _ himpossible => by cases himpossible
      · intro other_id other_core halive
        cases halive
        refine ⟨fun input haccepted => ?_, fun hheld => ?_⟩
        · rcases List.mem_cons.mp haccepted with himpossible | hlater
          · cases himpossible
          · rcases List.mem_cons.mp hlater with hsame | hold
            · cases hsame
              exact hcurrent
            · rcases List.mem_cons.mp hold with himpossible | holder
              · cases himpossible
              · exact absurd holder (hfresh input)
        · rw [show slot.held = true from hheld] at hfree
          cases hfree
  | createdShut name slot id firstInput core hatName hcreating =>
      have hhere := hfollows.target_of_live hatName (by simp [hcreating])
      have hfresh := haccounts.nothing_accepted hatName hcreating
      refine hfollows.one hhere (slot.becomeRunning id core).hold (fun other => ?_) hstate hupdates rfl
        ?_ ?_
      · have hborn := run.slot_change_at hatName (·.becomeRunning id core)
        refine (Run.slot_change_at (run.instanceCreated name id core slot)
          ((hborn name).trans (if_pos rfl)) (·.hold) other).trans ?_
        split
        · rfl
        · rename_i hdiffers
          exact (hborn other).trans (if_neg hdiffers)
      · exact fun _ _ himpossible => by cases himpossible
      · intro other_id other_core halive
        cases halive
        have hnone : ∀ input, .accepted name id input ∉
            ((run.instanceCreated name id core slot).change name (·.hold)).log := by
          intro input haccepted
          rcases List.mem_cons.mp haccepted with himpossible | holder
          · cases himpossible
          · exact hfresh input holder
        exact ⟨fun input haccepted => absurd haccepted (hnone input), fun _ => hnone⟩
  | notCreated name slot id firstInput reason cause deadline hatName hcreating =>
      have hhere := hfollows.target_of_live hatName (by simp [hcreating])
      refine hfollows.one hhere slot.endInstance.hold.leaveUntaken (fun other => ?_) hstate hupdates ?_
        ?_ ?_
      · rw [Run.slot_fail]
        have hended := run.slot_change_at hatName (·.endInstance.hold)
        rw [Run.slot_change_at _ ((hended name).trans (if_pos rfl)) (·.leaveUntaken) other, hended]
        split <;> rfl
      · simp [NodeSlot.isIdle, NodeSlot.leaveUntaken]
      · exact fun _ _ himpossible => by cases himpossible
      · exact fun _ _ himpossible => by cases himpossible
  | give name slot id core hatName halive hheld hrunning =>
      have hhere := hfollows.target_of_live hatName (by simp [halive])
      obtain ⟨hcurrent, -⟩ := hfollows.running name slot id core hatName halive
      refine hfollows.one hhere _ (run.slot_change_at hatName _) hstate hupdates ?_ ?_ ?_
      · simp [NodeSlot.isIdle, NodeSlot.isLive, NodeSlot.presence, NodeSlot.release, halive]
      · exact fun _ _ hcreating => absurd (halive.symm.trans hcreating) (by simp)
      · intro other_id other_core hsame
        rw [show slot.live = _ from hsame, Live.Running.injEq] at halive
        rw [halive.1]
        refine ⟨fun input haccepted => ?_, fun himpossible => by cases himpossible⟩
        rcases List.mem_cons.mp haccepted with himpossible | hlater
        · cases himpossible
        · rcases List.mem_cons.mp hlater with hsame | holder
          · cases hsame
            rfl
          · exact hcurrent input holder
  | fail name slot id core result failure deadline hatName halive hfailing =>
      refine hfollows.lose hatName halive (fun other => ?_) hstate hupdates
      rw [Run.slot_fail]
      exact run.slot_lost hatName id result other
  | cancel name slot id core deadline hatName halive hread =>
      refine hfollows.lose hatName halive (fun other => ?_) hstate hupdates
      have hended := run.slot_lost hatName id (.ok .Cancelled) other
      unfold Run.stopByHost
      split
      · exact hended
      · exact hended
  | apply name slot id core update newState targets now later hatName halive happlied hevaluated =>
      rw [Run.step_updates] at hupdates
      exact absurd hupdates (by simp)
  | offer => exact hfollows.quiet (fun _ => rfl) hstate hupdates (by simp [Run.note])
  | sinkFailed failure deadline =>
      refine hfollows.quiet (Run.slot_fail _ _ _ _) hstate hupdates fun name id input => ?_
      unfold Run.fail
      dsimp only
      split <;> simp [Run.note, Run.beginStopping]
  | abandon => exact hfollows.abandon
  | conclude => exact hfollows.quiet (fun _ => rfl) hstate hupdates (by simp [Run.note, Run.tell])

theorem opened (behaviour : Behaviour F) (graph : Graph F) (state : State F) (config : RunConfig)
    {name : String} (hknown : name ∈ graph.shape.names) :
    Follows behaviour (.Node name, state) (Run.opened graph state config [name]) (.Node name) := by
  have hfolded := Folded.opened graph state config [name]
  have hlog : (Run.opened graph state config [name]).log = [.started [name]] := by
    simp [Run.opened, Run.note, Run.new]
  have hcurrent : (Run.opened graph state config [name]).state.state = state := by
    rw [hfolded.current, hlog]
    rfl
  have hslots := Run.slot_opened graph state config [name]
  refine ⟨?_, ?_, ?_, ?_, ?_⟩
  · rw [hlog, hcurrent]
    exact .nothing
  · intro other slot hatOther
    obtain ⟨habsent, htaken, hheld⟩ := (hslots other).1 slot hatOther
    rw [List.mem_singleton] at hheld
    rcases hheld' : slot.held with _ | _
    · have hdiffers : other ≠ name := fun hsame => by
        rw [hheld.mpr hsame] at hheld'
        cases hheld'
      simp [(NodeSlot.isIdle_iff slot).mpr ⟨habsent, hheld', htaken⟩, hdiffers.symm]
    · simp [NodeSlot.isIdle, hheld', hheld.mp hheld']
  · intro other hsame
    cases hsame
    exact (hslots name).2.mp hknown
  · intro other slot id input hatOther hcreating
    rw [((hslots other).1 slot hatOther).1] at hcreating
    cases hcreating
  · intro other slot id core hatOther halive
    rw [((hslots other).1 slot hatOther).1] at halive
    cases halive

/-- The one node a busy run is at. -/
theorem nonIdleNames (hfollows : Follows behaviour first run target)
    (hbusy : run.allIdle = false) :
    ∃ name, target = .Node name ∧ run.nonIdleNames = [name] := by
  have hall : ∀ name ∈ run.nonIdleNames, target = .Node name := by
    intro name hmember
    obtain ⟨slot, hatName, hbusy'⟩ := (Run.mem_nonIdleNames run name).mp hmember
    exact (hfollows.busy name slot hatName).mp hbusy'
  have hunique : run.nonIdleNames.Nodup := run.names_nodup _
  rcases hnames : run.nonIdleNames with _ | ⟨name, others⟩
  · have hidle : run.allIdle = true := by
      rw [Run.allIdle_iff]
      intro name slot hatName
      by_contra hbusy'
      have hmember := (Run.mem_nonIdleNames run name).mpr ⟨slot, hatName, by simpa using hbusy'⟩
      rw [hnames] at hmember
      exact absurd hmember List.not_mem_nil
    rw [hidle] at hbusy
    cases hbusy
  · rw [hnames] at hall hunique
    have hhere := hall name List.mem_cons_self
    refine ⟨name, hhere, ?_⟩
    rcases others with _ | ⟨other, rest⟩
    · rfl
    · have hthere := hall other (List.mem_cons_of_mem _ List.mem_cons_self)
      rw [hhere, Target.Node.injEq] at hthere
      rw [hthere] at hunique
      exact absurd List.mem_cons_self (List.nodup_cons.mp hunique).1

/-- Once every node is idle the machine has come to the end. -/
theorem ended (hfollows : Follows behaviour first run target) (hidle : run.allIdle = true) :
    target = .END := by
  rcases target with name | _
  · obtain ⟨slot, hatName⟩ := Option.isSome_iff_exists.mp (hfollows.known name rfl)
    have hbusy := (hfollows.busy name slot hatName).mpr rfl
    rw [(Run.allIdle_iff run).mp hidle name slot hatName] at hbusy
    cases hbusy
  · rfl

end Follows

/-- A log entry that offers a checkpoint, or ends the run, stands at a point of the trail. -/
def OnTrail (behaviour : Behaviour F) (graph : Graph F) (first : Target × State F) :
    Fact F → List (Fact F) → Prop
  | .offered checkpoint, past =>
      ∃ name state now, Trail behaviour.step first (appliedUpdates past) (.Node name, state) ∧
        checkpoint.nodes = [name] ∧ name ∈ graph.shape.names ∧
        checkpoint.structureOf = graph.shape ∧ state.limit = first.2.limit ∧
        state.toJson now = .ok checkpoint.state
  | .concluded (.RunEnded final), past =>
      Trail behaviour.step first (appliedUpdates past) (.END, final)
  | _, _ => True

/-- What a sequential run keeps, as long as its results are those of the behaviour. -/
structure Sequential (behaviour : Behaviour F) (graph : Graph F) (first : Target × State F)
    (run : Run F) : Prop where
  accounts : Accounts run
  folded : Folded graph first.2 run
  follows : ∃ target, Follows behaviour first run target
  onTrail : Throughout (OnTrail behaviour graph first) run.log

theorem Sequential.effect {behaviour : Behaviour F} {graph : Graph F} {first : Target × State F}
    {origin : Origin} {triggered : Bool} {run run' : Run F}
    (hchange : Effect origin triggered run run') (hdecides : behaviour.Decides graph)
    (htrips : RoundTrips F) (hresults : Throughout (ResultsBy behaviour) run'.log)
    (hkept : Sequential behaviour graph first run) : Sequential behaviour graph first run' := by
  obtain ⟨haccounts, hfolded, ⟨target, hfollows⟩, honTrail⟩ := hkept
  refine ⟨haccounts.effect hchange, hfolded.effect hchange, ?_, ?_⟩
  · exact hfollows.effect hchange haccounts (hfolded.graph.symm ▸ hdecides) htrips hresults
  · refine hchange.throughout honTrail ?_ (fun _ _ _ _ _ _ _ _ => trivial)
      (fun _ _ _ _ _ _ _ _ _ _ => trivial) ?_ ?_
    · intro fact past hplain
      cases fact <;> trivial
    · intro now checkpoint hbusy hbuilt
      obtain ⟨name, hhere, hnames⟩ := hfollows.nonIdleNames hbusy
      obtain ⟨hnodes, hwritten⟩ := Checkpoint.build_nodes hbuilt
      have hknown : name ∈ graph.shape.names := by
        rw [← hfolded.graph]
        exact (haccounts.slots name).mpr (hfollows.known name hhere)
      exact ⟨name, run.state.state, now, hhere ▸ hfollows.trail, hnodes.trans hnames, hknown,
        (Checkpoint.build_structureOf hbuilt).trans (congrArg Graph.shape hfolded.graph),
        hfolded.limit, hwritten⟩
    · intro kind outcome hconcluding
      cases hconcluding with
      | ended hidle hclean =>
          have htold : appliedUpdates (.told (.Outcome .RunEnded) :: run.log) =
              appliedUpdates run.log := rfl
          change Trail behaviour.step first (appliedUpdates (.told (.Outcome .RunEnded) :: run.log))
            (.END, run.state.state)
          rw [htold, ← hfollows.ended hidle]
          exact hfollows.trail
      | failed => trivial
      | cancelled => trivial

/-- Every launched run of one node is sequential as long as its results are those of the
behaviour. -/
theorem Launch.sequential {behaviour : Behaviour F} {out : Outside F} {graph : Graph F}
    {config : RunConfig} {origin : Origin} {state : State F} {control : Control F} {name : String}
    (hlaunch : Launch out graph config origin state control) (hsingle : origin.heldNames = [name])
    (hdecides : behaviour.Decides graph) (htrips : RoundTrips F) (polls : Nat)
    (hresults : Throughout (ResultsBy behaviour) (control.after out polls).sys.run.log) :
    Sequential behaviour graph (.Node name, state) (control.after out polls).sys.run := by
  obtain ⟨s, hopened, hmoves⟩ := hlaunch.moves polls
  let kept (run : Run F) : Prop := Throughout (ResultsBy behaviour) run.log →
    Sequential behaviour graph (.Node name, state) run
  have hstep (triggered : Bool) (run run' : Run F) (hchange : Effect origin triggered run run')
      (hknown : kept run) : kept run' := by
    intro hresults
    have hearlier : Throughout (ResultsBy behaviour) run.log := by
      rcases hchange.log_cases with ⟨new, hlog, -⟩ |
        ⟨name, slot, id, core, update, newState, targets, now, later, -, -, -, -, rfl⟩
      · rw [hlog] at hresults
        exact Lib.throughout_of_append hresults
      · rw [Run.step_log] at hresults
        exact Lib.throughout_of_append hresults
    exact (hknown hearlier).effect hchange hdecides htrips hresults
  have hstart : kept s.run := by
    intro _
    have hknown : name ∈ graph.shape.names := hlaunch.names_known name (by simp [hsingle])
    rw [hopened, hsingle]
    refine ⟨Accounts.opened graph state config [name] (by simpa using hknown),
      Folded.opened graph state config [name],
      ⟨_, Follows.opened behaviour graph state config hknown⟩, ?_⟩
    rw [Run.opened, Run.note, Run.holdAll_log]
    exact ⟨trivial, trivial⟩
  exact hmoves.keeps hstep hstart hresults

end LlmGraph.Executor
