/- digest: The state of a run is the fold of the results it applied; a declined result changes
   nothing but leaves its node behind. -/

import LlmGraph.Executor.Completeness

set_option autoImplicit false
set_option relaxedAutoImplicit false

namespace LlmGraph.Executor

open Contract
open Lib (Attempt Throughout throughout_append throughout_iff)

variable {F : Type} [Fields F]

def Fact.appliedState : Fact F → Option (State F)
  | .applied _ _ _ state _ => some state.state
  | _ => none

def Fact.appliedUpdate : Fact F → Option (Fields.Update F)
  | .applied _ _ update _ _ => some update
  | _ => none

/-- The updates of the applied results, oldest first. -/
def appliedUpdates (log : List (Fact F)) : List (Fields.Update F) :=
  (log.filterMap Fact.appliedUpdate).reverse

/-- The states of a run in order: the one it began with, then the one after each applied
step. -/
def statesOf (initial : State F) (log : List (Fact F)) : List (State F) :=
  initial :: (log.filterMap Fact.appliedState).reverse

/-- The state a log leads to. -/
def stateAfter (initial : State F) (log : List (Fact F)) : State F :=
  (log.findSome? Fact.appliedState).getD initial

/-- Fields folded with updates, as long as each is accepted. -/
def foldUpdates (fields : F) (updates : List (Fields.Update F)) : Attempt Reason F :=
  updates.foldlM Fields.apply fields

/-- The update is accepted on the state and the edge of the node gives targets on the result. -/
def Succeeds (graph : Graph F) (current : State F) (name : String) (update : Fields.Update F)
    (newState : State F) (targets : List Target) : Prop :=
  ∃ now later, current.apply now update = .ok newState ∧
    graph.evaluateEdge later name newState = .ok targets

/-- The update is refused on the state, or the edge of the node gives no targets on the
result. -/
def Declines (graph : Graph F) (current : State F) (name : String)
    (update : Fields.Update F) : Prop :=
  (∃ now, ∀ state, current.apply now update ≠ .ok state) ∨
    ∃ now later state, current.apply now update = .ok state ∧
      ∀ targets, graph.evaluateEdge later name state ≠ .ok targets

theorem Declined.declines {run : Run F} {name : String} {update : Fields.Update F}
    {failure : RunFailure} (hdeclined : Declined run name update failure) :
    Declines run.graph run.state.state name update := by
  cases hdeclined with
  | update now reason hrefused => exact Or.inl ⟨now, hrefused⟩
  | edge now later state reason cause happlied hrefused =>
      exact Or.inr ⟨now, later, state, happlied, hrefused⟩

/-- Entries that apply nothing. -/
def Still (entries : List (Fact F)) : Prop :=
  ∀ fact ∈ entries, fact.appliedState = none ∧ fact.appliedUpdate = none

section Still

variable {new log : List (Fact F)} (initial : State F)

theorem appliedUpdates_still (hstill : Still new) :
    appliedUpdates (new ++ log) = appliedUpdates log := by
  have hnone : new.filterMap Fact.appliedUpdate = [] :=
    List.filterMap_eq_nil_iff.mpr fun fact hmember => (hstill fact hmember).2
  simp [appliedUpdates, List.filterMap_append, hnone]

theorem statesOf_still (hstill : Still new) :
    statesOf initial (new ++ log) = statesOf initial log := by
  have hnone : new.filterMap Fact.appliedState = [] :=
    List.filterMap_eq_nil_iff.mpr fun fact hmember => (hstill fact hmember).1
  simp [statesOf, List.filterMap_append, hnone]

theorem stateAfter_still (hstill : Still new) :
    stateAfter initial (new ++ log) = stateAfter initial log := by
  have hnone : new.findSome? Fact.appliedState = none :=
    List.findSome?_eq_none_iff.mpr fun fact hmember => (hstill fact hmember).1
  simp [stateAfter, List.findSome?_append, hnone]

end Still

theorem foldUpdates_snoc {fields middle last : F} {updates : List (Fields.Update F)}
    {update : Fields.Update F} (hfolded : foldUpdates fields updates = .ok middle)
    (happlied : Fields.apply middle update = .ok last) :
    foldUpdates fields (updates ++ [update]) = .ok last := by
  induction updates generalizing fields with
  | nil =>
      cases hfolded
      simp [foldUpdates, happlied]
  | cons first rest hstep =>
      obtain ⟨next, hgiven, hlater⟩ := (Attempt.bind_eq_ok _ _ _).mp hfolded
      have htail : foldUpdates next (rest ++ [update]) = .ok last := hstep hlater
      exact (Attempt.bind_eq_ok _ _ _).mpr ⟨next, hgiven, htail⟩

/-- Every change either applies nothing, or it is the step of one result. -/
theorem Effect.log_cases {origin : Origin} {triggered : Bool} {run run' : Run F}
    (hchange : Effect origin triggered run run') :
    (∃ new, run'.log = new ++ run.log ∧ Still new ∧ run'.state = run.state ∧
      run'.graph = run.graph) ∨
    ∃ name slot id core update newState targets now later,
      run.slot name = some slot ∧ slot.live = .Running id core ∧
      run.state.state.apply now update = .ok newState ∧
      run.graph.evaluateEdge later name newState = .ok targets ∧
      run' = (run.ending name id (.ok (.Result update))).step name id update newState targets := by
  have hfailing {run₁ : Run F} {triggered : Bool} {deadline : Nat} {failure : RunFailure}
      (old : List (Fact F)) (hlog : run₁.log = old ++ run.log) (hstill : Still old)
      (hstate : run₁.state = run.state) (hgraph : run₁.graph = run.graph) :
      ∃ new, (run₁.fail triggered deadline failure).log = new ++ run.log ∧ Still new ∧
        (run₁.fail triggered deadline failure).state = run.state ∧
        (run₁.fail triggered deadline failure).graph = run.graph := by
    rw [fail_state, fail_graph]
    unfold Run.fail
    dsimp only
    split
    · refine ⟨.failed failure triggered :: old, by simp [Run.note, hlog], ?_, hstate, hgraph⟩
      exact List.forall_mem_cons.mpr ⟨⟨rfl, rfl⟩, hstill⟩
    · refine ⟨.stopped _ :: .failed failure triggered :: old, by
        simp [Run.note, Run.beginStopping, hlog]
        rfl, ?_, hstate, hgraph⟩
      exact List.forall_mem_cons.mpr ⟨⟨rfl, rfl⟩, List.forall_mem_cons.mpr ⟨⟨rfl, rfl⟩, hstill⟩⟩
  have hended (name : String) (id : InstanceId) (result : Except EventEndError (Event F)) :
      ∃ new, (run.ending name id result).log = new ++ run.log ∧ Still new := by
    rcases result with error | event
    · exact ⟨[.handled name id (.error error)], rfl, by simp [Still, Fact.appliedState,
        Fact.appliedUpdate]⟩
    · exact ⟨[.told (.EventHandled name id (.of event)), .handled name id (.ok event)], rfl,
        by simp [Still, Fact.appliedState, Fact.appliedUpdate]⟩
  cases hchange with
  | idle => exact Or.inl ⟨[], rfl, by simp [Still], rfl, rfl⟩
  | stop deadline hrunning hread =>
      exact Or.inl ⟨[.stopped .Host], rfl, by simp [Still, Fact.appliedState, Fact.appliedUpdate],
        rfl, rfl⟩
  | create name =>
      exact Or.inl ⟨[.creating name run.minted], rfl,
        by simp [Still, Fact.appliedState, Fact.appliedUpdate], rfl, rfl⟩
  | notMinted => exact Or.inl (hfailing [] rfl (by simp [Still]) rfl rfl)
  | created name slot id firstInput core =>
      exact Or.inl ⟨[.told _, .accepted name id firstInput, .told _], rfl,
        by simp [Still, Fact.appliedState, Fact.appliedUpdate], rfl, rfl⟩
  | createdShut =>
      exact Or.inl ⟨[.told _], rfl, by simp [Still, Fact.appliedState, Fact.appliedUpdate], rfl,
        rfl⟩
  | notCreated => exact Or.inl (hfailing [] rfl (by simp [Still]) rfl rfl)
  | give name slot id =>
      exact Or.inl ⟨[.told _, .accepted name id run.state], rfl,
        by simp [Still, Fact.appliedState, Fact.appliedUpdate], rfl, rfl⟩
  | fail name slot id core result failure =>
      obtain ⟨old, hlog, hstill⟩ := hended name id result
      exact Or.inl (hfailing old hlog hstill (Run.ending_state _ _ _ _) (Run.ending_graph _ _ _ _))
  | cancel name slot id core deadline =>
      obtain ⟨old, hlog, hstill⟩ := hended name id (.ok .Cancelled)
      left
      unfold Run.stopByHost
      split
      · exact ⟨old, hlog, hstill, rfl, rfl⟩
      · exact ⟨.stopped .Host :: old, congrArg (List.cons _) hlog,
          List.forall_mem_cons.mpr ⟨⟨rfl, rfl⟩, hstill⟩, rfl, rfl⟩
  | apply name slot id core update newState targets now later hatName halive happlied hevaluated =>
      exact Or.inr ⟨name, slot, id, core, update, newState, targets, now, later, hatName, halive,
        happlied, hevaluated, rfl⟩
  | offer now checkpoint =>
      exact Or.inl ⟨[.offered checkpoint], rfl,
        by simp [Still, Fact.appliedState, Fact.appliedUpdate], rfl, rfl⟩
  | sinkFailed => exact Or.inl (hfailing [] rfl (by simp [Still]) rfl rfl)
  | abandon => exact Or.inl ⟨[], rfl, by simp [Still], rfl, rfl⟩
  | conclude kind outcome =>
      exact Or.inl ⟨[.concluded outcome, .told _], rfl,
        by simp [Still, Fact.appliedState, Fact.appliedUpdate], rfl, rfl⟩

/-- What an applied result adds to the log. -/
def stepEntries (name : String) (id : InstanceId) (update : Fields.Update F) (state : Shared F)
    (targets : List Target) : List (Fact F) :=
  [.told (.EdgeEvaluated name targets), .told (.UpdateApplied name),
    .applied name id update state targets, .told (.EventHandled name id .Result),
    .handled name id (.ok (.Result update))]

/-- The log of an applied step. -/
theorem Run.step_log (run : Run F) (name : String) (id : InstanceId) (update : Fields.Update F)
    (newState : State F) (targets : List Target) :
    ((run.ending name id (.ok (.Result update))).step name id update newState targets).log =
      stepEntries name id update ⟨run.state.step + 1, newState⟩ targets ++ run.log := by
  rw [Run.step, Run.holdAll_log]
  rfl

theorem Run.step_state (run : Run F) (name : String) (id : InstanceId) (update : Fields.Update F)
    (newState : State F) (targets : List Target) :
    ((run.ending name id (.ok (.Result update))).step name id update newState targets).state =
      ⟨run.state.step + 1, newState⟩ := by
  rw [Run.step, Run.holdAll_state]
  rfl

theorem Run.step_graph (run : Run F) (name : String) (id : InstanceId) (update : Fields.Update F)
    (newState : State F) (targets : List Target) :
    ((run.ending name id (.ok (.Result update))).step name id update newState targets).graph =
      run.graph := by
  rw [Run.step, Run.holdAll_graph]
  rfl

theorem Run.step_updates (run : Run F) (name : String) (id : InstanceId)
    (update : Fields.Update F) (newState : State F) (targets : List Target) :
    appliedUpdates ((run.ending name id (.ok (.Result update))).step name id update newState
      targets).log = appliedUpdates run.log ++ [update] := by
  rw [Run.step_log]
  have hfirst : (stepEntries name id update ⟨run.state.step + 1, newState⟩ targets ++
      run.log).filterMap Fact.appliedUpdate =
        update :: run.log.filterMap Fact.appliedUpdate := rfl
  simp only [appliedUpdates, hfirst, List.reverse_cons]

/-- The state of a run agrees with its log. -/
structure Folded (graph : Graph F) (initial : State F) (run : Run F) : Prop where
  graph : run.graph = graph
  current : run.state.state = stateAfter initial run.log
  fold : foldUpdates initial.fields (appliedUpdates run.log) = .ok run.state.state.fields
  limit : run.state.state.limit = initial.limit
  counted : (statesOf initial run.log).length = run.state.step + 1
  dated : (statesOf initial run.log)[run.state.step]? = some run.state.state

theorem Folded.effect {graph : Graph F} {initial : State F} {origin : Origin} {triggered : Bool}
    {run run' : Run F} (hchange : Effect origin triggered run run')
    (hfolded : Folded graph initial run) : Folded graph initial run' := by
  rcases hchange.log_cases with ⟨new, hlog, hstill, hstate, hsame⟩ |
    ⟨name, slot, id, core, update, newState, targets, now, later, -, -, happlied, -, rfl⟩
  · refine ⟨hsame.trans hfolded.graph, ?_, ?_, ?_, ?_, ?_⟩
    · rw [hstate, hlog, stateAfter_still initial hstill]
      exact hfolded.current
    · rw [hstate, hlog, appliedUpdates_still hstill]
      exact hfolded.fold
    · rw [hstate]
      exact hfolded.limit
    · rw [hstate, hlog, statesOf_still initial hstill]
      exact hfolded.counted
    · rw [hstate, hlog, statesOf_still initial hstill]
      exact hfolded.dated
  · obtain ⟨hfields, hlimit⟩ := State.apply_ok happlied
    have hstates : statesOf initial ((run.ending name id (.ok (.Result update))).step name id update
        newState targets).log = statesOf initial run.log ++ [newState] := by
      rw [Run.step_log]
      have hfirst : (stepEntries name id update ⟨run.state.step + 1, newState⟩ targets ++
          run.log).filterMap Fact.appliedState = newState :: run.log.filterMap Fact.appliedState :=
        rfl
      simp only [statesOf, hfirst, List.reverse_cons, List.cons_append]
    refine ⟨(Run.step_graph _ _ _ _ _ _).trans hfolded.graph, ?_, ?_, ?_, ?_, ?_⟩
    · rw [Run.step_state, Run.step_log]
      rfl
    · rw [Run.step_updates, Run.step_state]
      exact foldUpdates_snoc hfolded.fold hfields
    · rw [Run.step_state]
      exact hlimit.trans hfolded.limit
    · rw [hstates, Run.step_state, List.length_append, hfolded.counted]
      rfl
    · rw [hstates, Run.step_state, ← hfolded.counted]
      simp

theorem Folded.opened (graph : Graph F) (state : State F) (config : RunConfig)
    (names : List String) : Folded graph state (Run.opened graph state config names) := by
  have hlog : (Run.opened graph state config names).log = [.started names] := by
    simp [Run.opened, Run.note, Run.new]
  have hfirst : (Run.opened graph state config names).state = ⟨0, state⟩ := by
    simp [Run.opened, Run.note, Run.new]
  have hsame : (Run.opened graph state config names).graph = graph := by
    simp [Run.opened, Run.note, Run.new]
  refine ⟨hsame, ?_, ?_, ?_, ?_, ?_⟩ <;> rw [hfirst]
  all_goals try rw [hlog]
  all_goals rfl

end LlmGraph.Executor
