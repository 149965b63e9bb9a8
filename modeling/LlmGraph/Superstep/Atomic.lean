/- digest: A superstep is applied as a whole or not at all: what a stop gives back of the state, the
   cursor and the recorder, and what a success leaves. -/

import LlmGraph.Superstep.Cursor
import LlmGraph.Superstep.Succeeded

set_option autoImplicit false
set_option relaxedAutoImplicit false

namespace LlmGraph.Superstep

open OccurrenceKey (ofPath)

variable {C : Type} [Conversation C]

def Event.command? : Event C → Option (Command C)
  | .command given => some given
  | .node _ _ _ => none

def Command.input? : Command C → Option (Key × Conversation.UserInput C)
  | .input key given => some (key, given)
  | .pause | .resume | .cancel => none

def Command.isCancel : Command C → Bool
  | .cancel => true
  | .input _ _ | .pause | .resume => false

/-- The inputs of some commands, in arrival order, up to a cancel. -/
def inputsOf (commands : List (Command C)) : List (Key × Conversation.UserInput C) :=
  (commands.takeWhile fun command => !command.isCancel).filterMap Command.input?

/-- The inputs that a superstep receives, in arrival order. -/
def Schedule.received (schedule : Schedule C) : List (Key × Conversation.UserInput C) :=
  inputsOf (schedule.events.filterMap Event.command? ++ schedule.drained)

/-- The checkpoint of a superstep that failed or was cancelled. -/
def StepEnd.stop? : StepEnd C → Option (Checkpoint C)
  | .ends (.Cancelled given) | .ends (.Failed _ given) => some given
  | .ends (.Finished _ _) | .ends (.Paused _) | .goes _ => none

/-- The state and the pending entries that a superstep which succeeded leaves. -/
def StepEnd.commit? : StepEnd C → Option (State C × PendingWrites C)
  | .goes next => some (next.state, next.store)
  | .ends (.Paused given) => some (given.state, given.pending)
  | .ends (.Finished state _) => some (state, PendingWrites.empty)
  | .ends (.Cancelled _) | .ends (.Failed _ _) => none

/-- The nodes of a superstep whose updates were refused. -/
def Stepped.refused (graph : Graph C) (here : Standing C) (stepped : Stepped C) : List NodeId :=
  match stepped.results with
  | some results => refusals results here.state graph.order
  | none => []

/-- What a stop gives back: the state with the received inputs when it takes them, the cursor of
the whole superstep, and at or below the run, without the nodes whose updates were refused, the
entry of each node and item that succeeded, nothing inside a called graph that started again, and
else the entries handed in. -/
structure StopsAt [DecidableEq C] (graph : Graph C) (config : Config C) (run : OccurrenceKey)
    (here : Standing C) (schedule : Schedule C) (stepped : Stepped C) (given : Checkpoint C) :
    Prop where
  taken : ∀ next, here.state.applyBatch (inputUpdates schedule.received) = .ok next →
    given.state = next
  untaken : ∀ error, here.state.applyBatch (inputUpdates schedule.received) = .error error →
    given.state = here.state
  cursor : given.cursor = ⟨here.active, here.deferred⟩
  kept : ∀ id node path updates, graph.node id = some node →
    Reaches graph config run here schedule id path (.ended (.ok updates)) →
    ofPath run id path ∉ (stepped.refused graph here).map (ofPath run · []) →
    ∃ own, Reaches graph config run here schedule id path (.ended (.ok own)) ∧
      given.pending (ofPath run id path) = some ⟨own, node.itemAt here.state path⟩ ∧
      (here.active.Nodup → own = updates)
  others : ∀ key, key.startsWith run →
    key ∉ (stepped.refused graph here).map (ofPath run · []) →
    (∀ id path updates, Reaches graph config run here schedule id path (.ended (.ok updates)) →
      key ≠ ofPath run id path) →
    (InCalled graph config run here schedule key → given.pending key = none) ∧
      (¬InCalled graph config run here schedule key → given.pending key = here.store key)
  outside : ∀ key, key.startsWith run = false ∨
    key ∈ (stepped.refused graph here).map (ofPath run · []) → given.pending key = none
  noted : ∀ key, given.pending key =
    if key.startsWith run ∧ key ∉ (stepped.refused graph here).map (ofPath run · []) then
      match lastEntry stepped.driven.notes key with
      | some entry => some entry
      | none => if restarted stepped.driven.notes key then none else here.store key
    else none

/-- What a success leaves: the old state with the batch that each node ended with applied in
registration order and then the received inputs, and no pending entry of the superstep's nodes and
items. -/
structure CommitsTo [DecidableEq C] (graph : Graph C) (config : Config C) (run : OccurrenceKey)
    (here : Standing C) (schedule : Schedule C) (stepped : Stepped C) (state : State C)
    (pending : PendingWrites C) : Prop where
  applied : ∃ results batch middle, stepped.results = some results ∧
    (∀ id ∈ here.active, id ∈ graph.order → results.of id = some (.ok (batch id)) ∧
      Reaches graph config run here schedule id [] (.ended (.ok (batch id)))) ∧
    ((graph.order.filter (· ∈ here.active)).map batch).foldlM State.applyBatch here.state =
      .ok middle ∧
    middle.applyBatch (inputUpdates schedule.received) = .ok state
  dropped : ∀ id ∈ here.active, ∀ key index, key.startsWith run →
    key[run.length]? = some ⟨id, index⟩ → pending key = none

section Received

private theorem take_held (driving : Driving C) (command : Command C) :
    (driving.take command).held = driving.held ++ command.input?.toList := by
  rcases command with ⟨key, input⟩ | _ | _ | _ <;> simp [Driving.take, Command.input?]

private theorem inputsOf_cons {command : Command C} (hgoes : command.isCancel = false)
    (rest : List (Command C)) :
    inputsOf (command :: rest) = command.input?.toList ++ inputsOf rest := by
  rw [inputsOf, List.takeWhile_cons_of_pos (by simp [hgoes]), List.filterMap_cons, inputsOf]
  rcases command.input? with _ | input <;> rfl

private theorem inputsOf_cancel (rest : List (Command C)) :
    inputsOf (.cancel :: rest) = [] := rfl

/-- The commands left after the superstep are held up to a cancel. -/
private theorem drained_held (driving : Driving C) (commands : List (Command C)) :
    (drainAfterStep driving commands).1.held = driving.held ++ inputsOf commands := by
  induction commands generalizing driving with
  | nil => simp [drainAfterStep, inputsOf]
  | cons command rest hstep =>
      have htakes : ∀ command : Command C, command.isCancel = false →
          (drainAfterStep (driving.take command) rest).1.held =
            driving.held ++ inputsOf (command :: rest) := by
        intro command hgoes
        rw [hstep, take_held, inputsOf_cons hgoes, List.append_assoc]
      rcases command with ⟨key, input⟩ | _ | _ | _
      · exact htakes _ rfl
      · exact htakes _ rfl
      · exact htakes _ rfl
      · rw [inputsOf_cancel, List.append_nil]
        rfl

variable [DecidableEq C] {graph : Graph C} {config : Config C} {state : State C} {ctx : Context}
  {present : List NodeId}

/-- The inputs among later commands that still reach a superstep. -/
private def StepResult.reaching (later : List (Command C)) :
    StepResult C → List (Key × Conversation.UserInput C)
  | .done _ => inputsOf later
  | .cancelled => []

/-- What a superstep holds once it is done, and all the more once it has been drained; and what it
holds when it is cancelled. -/
private theorem drive_held {driving stopped : Driving C} {events : List (Event C)}
    {result : StepResult C} (later : List (Command C))
    (hdrove : drive graph config state ctx present driving events = some (stopped, result)) :
    driving.held ++ inputsOf (events.filterMap Event.command? ++ later) =
      stopped.held ++ result.reaching later := by
  induction events generalizing driving with
  | nil =>
      unfold drive at hdrove
      split at hdrove
      · cases hdrove
        rfl
      · cases hdrove
  | cons event rest hstep =>
      rcases event with ⟨position, path, act⟩ | command
      · rw [drive] at hdrove
        split at hdrove
        · cases hdrove
        · rename_i next hadvanced
          obtain ⟨id, task, node, progress, -, -, -, -, rfl⟩ := advance_eq_some hadvanced
          have honward := hstep hdrove
          exact honward
      · have htakes : command.isCancel = false →
            drive graph config state ctx present (driving.take command) rest =
              some (stopped, result) →
            driving.held ++ inputsOf (command :: (rest.filterMap Event.command? ++ later)) =
              stopped.held ++ result.reaching later := by
          intro hgoes hdrove
          rw [← hstep hdrove, take_held, List.append_assoc, inputsOf_cons hgoes]
        rcases command with ⟨key, input⟩ | _ | _ | _
        · exact htakes rfl hdrove
        · exact htakes rfl hdrove
        · exact htakes rfl hdrove
        · rw [drive] at hdrove
          split at hdrove
          · cases hdrove
            rfl
          · cases hdrove

/-- A superstep holds the inputs that it received. -/
theorem superstep_held {here : Standing C} {schedule : Schedule C} {stepped : Stepped C}
    (htaken : superstep graph config ctx here schedule = some stepped) :
    stepped.driven.held = schedule.received := by
  obtain ⟨driven, result, hdrove, hstopped⟩ := superstep_driven htaken
  have hheld := drive_held schedule.drained hdrove
  rw [List.nil_append] at hheld
  rw [Schedule.received, hheld]
  rcases hstopped with ⟨rfl, hsame, -⟩ | ⟨results, rfl, hsame, -⟩
  · rw [hsame]
    exact (List.append_nil _).symm
  · rw [hsame, drained_held]
    rfl

end Received

section Results

/-- Every node that ended has a result. -/
private theorem pair_nodes {present : List NodeId} {tasks : List (Task C)}
    (hended : tasks.all Task.isEnded = true) (hpaired : tasks.length = present.length) :
    (pair present tasks).map Prod.fst = present := by
  induction present generalizing tasks with
  | nil => rfl
  | cons id rest hstep =>
      rcases tasks with _ | ⟨task, others⟩
      · simp at hpaired
      · rw [List.all_cons, Bool.and_eq_true] at hended
        have hlater := hstep hended.2 (by simpa using hpaired)
        rcases task with _ | _ | _ | outcome
        · cases hended.1
        · cases hended.1
        · cases hended.1
        · rcases outcome with updates | error | text <;>
            simpa [pair] using hlater

private theorem of_isSome {results : Results C} {id : NodeId} :
    (results.of id).isSome = true ↔ id ∈ results.map Prod.fst := by
  rw [Results.of, List.lookup_isSome_iff]
  simp

/-- The batches of the results are those of the active nodes, when none of them failed. -/
private theorem batches_eq {results : Results C} {active order : List NodeId}
    (hsucceeded : ∀ id ∈ order, ∀ fault, results.of id ≠ some (.error fault))
    (hlisted : ∀ id ∈ order, id ∈ results.map Prod.fst ↔ id ∈ active) :
    order.filterMap results.batch =
        (order.filter (· ∈ active)).map (fun id => (results.batch id).getD []) ∧
      ∀ id ∈ active, id ∈ order → results.of id = some (.ok ((results.batch id).getD [])) := by
  have heach : ∀ id ∈ order, if id ∈ active then
      results.of id = some (.ok ((results.batch id).getD [])) ∧ (results.batch id).isSome = true
      else results.batch id = none := by
    intro id hmember
    rcases hresult : results.of id with _ | fault | updates
    · have habsent : id ∉ active := by
        rw [← hlisted id hmember, ← of_isSome, hresult]
        simp
      rw [if_neg habsent, Results.batch, hresult]
    · exact absurd hresult (hsucceeded id hmember fault)
    · have hpresent : id ∈ active := by
        rw [← hlisted id hmember, ← of_isSome, hresult]
        rfl
      rw [if_pos hpresent, Results.batch, hresult]
      exact ⟨rfl, rfl⟩
  refine ⟨?_, ?_⟩
  · clear hsucceeded hlisted
    induction order with
    | nil => rfl
    | cons id rest hstep =>
        have hlater := hstep fun other hmember => heach other (List.mem_cons_of_mem _ hmember)
        have hhere := heach id List.mem_cons_self
        by_cases hactive : id ∈ active
        · rw [if_pos hactive] at hhere
          obtain ⟨updates, hbatch⟩ := Option.isSome_iff_exists.mp hhere.2
          rw [List.filterMap_cons_some hbatch, List.filter_cons_of_pos (by simpa using hactive),
            List.map_cons, hbatch, hlater]
          rfl
        · rw [if_neg hactive] at hhere
          rw [List.filterMap_cons_none hhere, List.filter_cons_of_neg (by simpa using hactive), hlater]
  · intro id hmember hordered
    have hhere := heach id hordered
    rw [if_pos hmember] at hhere
    exact hhere.1

end Results

section Atomic

variable [DecidableEq C] {graph : Graph C} {config : Config C} {run : OccurrenceKey}
  {here : Standing C} {schedule : Schedule C} {stepped : Stepped C}

/-- The results of a superstep are those of its present nodes. -/
theorem superstep_results (htaken : superstep graph config ⟨run, true⟩ here schedule = some stepped)
    {results : Results C} (hfound : stepped.results = some results) :
    ∀ id ∈ graph.order, id ∈ results.map Prod.fst ↔ id ∈ here.active := by
  obtain ⟨driven, result, hdrove, hstopped⟩ := superstep_driven htaken
  rcases hstopped with ⟨-, -, hnoneFound⟩ | ⟨own, rfl, -, hsame⟩
  · rw [hnoneFound] at hfound
    cases hfound
  · cases hsame results hfound
    obtain ⟨hended, rfl⟩ := drive_done hdrove
    have hstart : Recorded graph run (here.active.filter fun id => (graph.node id).isSome) here.store
        driven :=
      drive_preserves _ (fun _ _ _ _ _ => Recorded.advance)
        (fun _ command hrecorded => hrecorded.take command)
        ⟨rfl, by simp, List.length_map _⟩ hdrove
    intro id hordered
    rw [pair_nodes hended hstart.paired, List.mem_filter, and_iff_left]
    exact (graph.node_isSome id).mpr hordered

omit [DecidableEq C] in
private theorem forget_apply {ids : List NodeId} {store : PendingWrites C} (key : OccurrenceKey) :
    ids.foldl (Context.forgetNode ⟨run, true⟩) store key =
      if key ∈ ids.map (ofPath run · []) then none else store key := by
  induction ids generalizing store with
  | nil => simp
  | cons id rest hstep =>
      rw [List.foldl_cons, hstep, List.map_cons]
      by_cases hlater : key ∈ rest.map (ofPath run · [])
      · rw [if_pos hlater, if_pos (List.mem_cons_of_mem _ hlater)]
      · rw [if_neg hlater]
        by_cases hown : key = ofPath run id []
        · rw [if_pos (by rw [hown]; exact List.mem_cons_self), hown]
          exact Function.update_self ..
        · rw [if_neg (by simpa using ⟨hown, by simpa using hlater⟩)]
          exact Function.update_of_ne hown ..

omit [DecidableEq C] in
private theorem withInputs_stops {state : State C} {inputs : List (Update C)} :
    (∀ next, state.applyBatch inputs = .ok next → withInputs state inputs = next) ∧
      ∀ error, state.applyBatch inputs = .error error → withInputs state inputs = state := by
  refine ⟨fun next htaken => ?_, fun error huntaken => ?_⟩
  · unfold withInputs
    split
    · rename_i hnothing
      rw [List.isEmpty_iff.mp hnothing, State.applyBatch_nil] at htaken
      cases htaken
      rfl
    · rw [htaken]
  · unfold withInputs
    rw [huntaken]
    split <;> rfl

omit [DecidableEq C] in
/-- The recorder of a stop, whichever nodes were refused. -/
private theorem stop_store (store : PendingWrites C) (ids : List NodeId) (key : OccurrenceKey) :
    Context.pendingHere ⟨run, true⟩ (ids.foldl (Context.forgetNode ⟨run, true⟩) store) key =
      if key.startsWith run ∧ key ∉ ids.map (ofPath run · []) then store key else none := by
  rw [Context.pendingHere, PendingWrites.under, forget_apply]
  by_cases hinside : key.startsWith run = true
  · rw [if_pos hinside]
    by_cases hforgotten : key ∈ ids.map (ofPath run · [])
    · rw [if_pos hforgotten, if_neg fun hboth => hboth.2 hforgotten]
    · rw [if_neg hforgotten, if_pos ⟨hinside, hforgotten⟩]
  · rw [if_neg hinside, if_neg fun hboth => hinside hboth.1]

/-- What a stop gives back, once its state and its recorder are known. -/
private theorem stops_at (hrecording : runContext graph run = ⟨run, true⟩)
    (htaken : superstep graph config ⟨run, true⟩ here schedule = some stepped)
    {given : Checkpoint C}
    (hstate : ∀ next, here.state.applyBatch (inputUpdates schedule.received) = .ok next →
      given.state = next)
    (hkept : ∀ error, here.state.applyBatch (inputUpdates schedule.received) = .error error →
      given.state = here.state)
    (hcursor : given.cursor = ⟨here.active, here.deferred⟩)
    (hpending : given.pending = Context.pendingHere ⟨run, true⟩
      ((stepped.refused graph here).foldl (Context.forgetNode ⟨run, true⟩) stepped.driven.store)) :
    StopsAt graph config run here schedule stepped given := by
  obtain ⟨hsucceeded, hothers⟩ := superstep_keeps hrecording htaken
  have hrecorded := superstep_recorded htaken
  have hat (key : OccurrenceKey) : given.pending key =
      if key.startsWith run ∧ key ∉ (stepped.refused graph here).map (ofPath run · []) then
        stepped.driven.store key else none := by
    rw [hpending]
    exact stop_store _ _ _
  refine ⟨hstate, hkept, hcursor, ?_, ?_, ?_, ?_⟩
  · intro id node path updates hknown hreaches hunrefused
    obtain ⟨own, hown, hheld, hunique⟩ := hsucceeded id node path updates hknown hreaches
    refine ⟨own, hown, ?_, hunique⟩
    rw [hat, if_pos ⟨OccurrenceKey.startsWith_ofPath run id path, hunrefused⟩]
    exact hheld
  · intro key hinside hunrefused hnone
    rw [hat, if_pos ⟨hinside, hunrefused⟩]
    exact hothers key hnone
  · intro key hout
    rw [hat]
    refine if_neg ?_
    rintro ⟨hinside, hunrefused⟩
    rcases hout with houtside | hrefused
    · rw [houtside] at hinside
      cases hinside
    · exact hunrefused hrefused
  · intro key
    have hheld := replay_apply (separate_of hrecorded.noted) here.store key
    rw [← hrecorded.replays] at hheld
    have hnow := hat key
    rw [hheld] at hnow
    exact hnow

/-- A checkpoint of a graph without private keys. -/
private theorem checkpoint_here (hprivate : graph.hasPrivate = false) (state : State C)
    (store : PendingWrites C) :
    checkpoint graph ⟨run, true⟩ store state ⟨here.active, here.deferred⟩ =
      ⟨state, ⟨here.active, here.deferred⟩, Context.pendingHere ⟨run, true⟩ store⟩ := by
  rw [checkpoint, Graph.leavePrivate_of_none hprivate, Graph.checkpointCursor_of_none hprivate]

/-- A superstep that is cancelled stops: the inputs decide whether that is a cancel or a failure. -/
private theorem cancelled_stops (hprivate : graph.hasPrivate = false)
    (hrecording : runContext graph run = ⟨run, true⟩)
    (htaken : superstep graph config ⟨run, true⟩ here schedule = some stepped)
    (hunsettled : stepped.results = none)
    (hending : stepped.ending = .ends (cancelled graph ⟨run, true⟩ stepped.driven.store here.state
      (inputUpdates stepped.driven.held) here.active here.deferred)) :
    ∃ given, stepped.ending.stop? = some given ∧ stepped.ending.commit? = none ∧
      StopsAt graph config run here schedule stepped given := by
  have hrefused : stepped.refused graph here = [] := by rw [Stepped.refused, hunsettled]
  rw [superstep_held htaken] at hending
  unfold cancelled at hending
  split at hending
  · rename_i error huntaken
    rw [fail, checkpoint_here hprivate] at hending
    refine ⟨_, by rw [hending]; rfl, by rw [hending]; rfl, ?_⟩
    refine stops_at hrecording htaken ?_ (fun _ _ => rfl) rfl ?_
    · intro next htaken'
      rw [huntaken] at htaken'
      cases htaken'
    · rw [hrefused]
      rfl
  · rename_i next htaken'
    rw [checkpoint_here hprivate] at hending
    refine ⟨_, by rw [hending]; rfl, by rw [hending]; rfl, ?_⟩
    refine stops_at hrecording htaken ?_ ?_ rfl ?_
    · intro other hagain
      rw [htaken'] at hagain
      exact Except.ok.inj hagain
    · intro error huntaken
      rw [htaken'] at huntaken
      cases huntaken
    · rw [hrefused]
      rfl

/-- A superstep whose results are not settled stops. -/
private theorem failed_stops (hprivate : graph.hasPrivate = false)
    (hrecording : runContext graph run = ⟨run, true⟩)
    (htaken : superstep graph config ⟨run, true⟩ here schedule = some stepped)
    {results : Results C} {error : GraphError C} {store : PendingWrites C}
    (hresult : stepped.results = some results)
    (hsettling : settle graph schedule.now config here.state results
      (inputUpdates stepped.driven.held) here.active here.deferred ⟨run, true⟩ stepped.driven.store =
        (.error error, store))
    (hending : stepped.ending = .ends (fail graph ⟨run, true⟩ store
      (withInputs here.state (inputUpdates stepped.driven.held)) here.active here.deferred error)) :
    ∃ given, stepped.ending.stop? = some given ∧ stepped.ending.commit? = none ∧
      StopsAt graph config run here schedule stepped given := by
  have hinputs := @withInputs_stops _ _ here.state (inputUpdates schedule.received)
  have hlost := @settle_store _ _ graph schedule.now config here.state results
    (inputUpdates stepped.driven.held) here.active here.deferred ⟨run, true⟩ stepped.driven.store
  rw [hsettling] at hlost
  rw [superstep_held htaken, fail, checkpoint_here hprivate] at hending
  refine ⟨_, by rw [hending]; rfl, by rw [hending]; rfl, ?_⟩
  refine stops_at hrecording htaken (fun next htaken' => hinputs.1 next htaken')
    (fun error huntaken => hinputs.2 error huntaken) rfl ?_
  rw [Stepped.refused, hresult]
  dsimp only at hlost ⊢
  rw [hlost]

/-- A superstep whose results are settled is applied as a whole, wherever the run goes from there. -/
private theorem settled_commits (hprivate : graph.hasPrivate = false)
    (hrecording : runContext graph run = ⟨run, true⟩)
    (htaken : superstep graph config ⟨run, true⟩ here schedule = some stepped)
    {results : Results C} {settled : Settled C} {store : PendingWrites C}
    (hresult : stepped.results = some results)
    (hsettling : settle graph schedule.now config here.state results
      (inputUpdates stepped.driven.held) here.active here.deferred ⟨run, true⟩ stepped.driven.store =
        (.ok settled, store))
    (hending : stepped.ending = proceed graph ⟨run, true⟩ stepped.driven.pause settled
      (Context.dropPending ⟨run, true⟩ store here.active)) :
    stepped.ending.stop? = none ∧ ∀ state pending, stepped.ending.commit? = some (state, pending) →
      CommitsTo graph config run here schedule stepped state pending := by
  have hsettledBy := settle_ok hsettling
  rw [superstep_held htaken] at hsettledBy
  obtain ⟨middle, hfolded, hgiven⟩ := hsettledBy.applied
  obtain ⟨hsame, hbatches⟩ := batches_eq hsettledBy.succeeded (superstep_results htaken hresult)
  rw [hsame] at hfolded
  have happlied : ∃ results batch middle, stepped.results = some results ∧
      (∀ id ∈ here.active, id ∈ graph.order → results.of id = some (.ok (batch id)) ∧
        Reaches graph config run here schedule id [] (.ended (.ok (batch id)))) ∧
      ((graph.order.filter (· ∈ here.active)).map batch).foldlM State.applyBatch here.state =
        .ok middle ∧
      middle.applyBatch (inputUpdates schedule.received) = .ok settled.state := by
    refine ⟨results, _, middle, hresult, fun id hactive hordered => ?_, hfolded, hgiven⟩
    have hended := hbatches id hactive hordered
    exact ⟨hended, superstep_reaches hrecording htaken hresult hended⟩
  have hgone : ∀ id ∈ here.active, ∀ key index, key.startsWith run = true →
      key[run.length]? = some ⟨id, index⟩ →
      Context.dropPending ⟨run, true⟩ store here.active key = none := by
    intro id hactive key index hinside hnamed
    rw [Context.dropPending, PendingWrites.dropNodes, if_pos hinside, hnamed]
    exact if_pos hactive
  unfold proceed at hending
  split at hending
  · rw [hending, Graph.leavePrivate_of_none hprivate]
    refine ⟨rfl, fun state pending hcommits => ?_⟩
    cases hcommits
    exact ⟨happlied, fun _ _ _ _ _ _ => rfl⟩
  · split at hending
    · rw [hending, checkpoint, Graph.leavePrivate_of_none hprivate]
      refine ⟨rfl, fun state pending hcommits => ?_⟩
      cases hcommits
      refine ⟨happlied, ?_⟩
      intro id hactive key index hinside hnamed
      exact (if_pos hinside).trans (hgone id hactive key index hinside hnamed)
    · rw [hending]
      refine ⟨rfl, fun state pending hcommits => ?_⟩
      cases hcommits
      exact ⟨happlied, hgone⟩

/-- A superstep that fails or is cancelled leaves everything but the received inputs as it was; one
that succeeds is applied as a whole, and its entries are gone. -/
theorem superstep_atomic (graph : Graph C) (config : Config C) (run : OccurrenceKey)
    (here : Standing C) (schedule : Schedule C) (stepped : Stepped C)
    (hprivate : graph.hasPrivate = false)
    (htaken : superstep graph config (runContext graph run) here schedule = some stepped) :
    (∀ given, stepped.ending.stop? = some given →
      StopsAt graph config run here schedule stepped given) ∧
    (∀ state pending, stepped.ending.commit? = some (state, pending) →
      CommitsTo graph config run here schedule stepped state pending) := by
  have hrecording : runContext graph run = ⟨run, true⟩ := by
    rw [runContext, hprivate, Bool.not_false]
  rw [hrecording] at htaken
  have hends : (∃ given, stepped.ending.stop? = some given ∧ stepped.ending.commit? = none ∧
      StopsAt graph config run here schedule stepped given) ∨
      stepped.ending.stop? = none ∧ ∀ state pending,
        stepped.ending.commit? = some (state, pending) →
          CommitsTo graph config run here schedule stepped state pending := by
    rcases superstep_cases htaken with ⟨hunsettled, -, hending⟩ |
      ⟨results, error, store, hresult, -, hsettling, hending⟩ |
      ⟨results, settled, store, hresult, -, hsettling, hending⟩
    · exact .inl (cancelled_stops hprivate hrecording htaken hunsettled hending)
    · exact .inl (failed_stops hprivate hrecording htaken hresult hsettling hending)
    · exact .inr (settled_commits hprivate hrecording htaken hresult hsettling hending)
  rcases hends with ⟨given, hstopped, hnone, hstops⟩ | ⟨hnone, hcommits⟩
  · refine ⟨fun other hother => ?_, fun state pending hcommits => ?_⟩
    · rw [hstopped] at hother
      cases hother
      exact hstops
    · rw [hnone] at hcommits
      cases hcommits
  · refine ⟨fun given hstopped => ?_, hcommits⟩
    rw [hnone] at hstopped
    cases hstopped

end Atomic

namespace Fork

/-- The map of the fork with its first item done, when the second fails. -/
def halfway : Schedule Unit where
  now := 1
  events := [.node 0 [] .poll, .node 0 [] .pull, .node 0 [] .pull, .node 0 [0] .poll,
    .node 0 [1] .poll, .command (.input "chat" "hello"),
    .node 0 [0] (.returns (.ok [.append "outs" (.str "A")])),
    .node 0 [1] (.returns (.error (.host "no"))), .node 0 [] .collect]
  drained := []

def interrupted : Stepped Unit :=
  (superstep graph config (runContext graph []) second halfway).get (by decide +kernel)

end Fork

theorem superstep_atomic_fork :
    (∀ given, Fork.interrupted.ending.stop? = some given →
      StopsAt Fork.graph Fork.config [] Fork.second Fork.halfway Fork.interrupted given) ∧
    (∀ state pending, Fork.interrupted.ending.commit? = some (state, pending) →
      CommitsTo Fork.graph Fork.config [] Fork.second Fork.halfway Fork.interrupted state pending) :=
  superstep_atomic Fork.graph Fork.config [] Fork.second Fork.halfway Fork.interrupted
    (by decide +kernel) (Option.some_get _).symm

example : lastEntry Fork.interrupted.driven.notes [⟨"each", some 0⟩] ≠ none := by decide +kernel

namespace Call

/-- A graph that calls another one. -/
def builder : GraphBuilder Unit where
  schema := Fork.schema
  privateKeys := []
  entry := some "call"
  nodes := [("call", ⟨.call (fun _ _ => .ok ()) (fun _ _ => .ok ()), false⟩)]
  edges := [("call", Fork.always [.End "done"])]
  inputs := []
  outputs := []

def graph : Graph Unit := builder.build.toOption.get (by decide +kernel)

/-- An occurrence inside the called graph. -/
def inside : OccurrenceKey := [⟨"call", none⟩, ⟨"x", none⟩]

def here : Standing Unit where
  state := Fork.state
  active := ["call"]
  deferred := []
  store := PendingWrites.empty.insert inside ⟨[], none⟩

/-- The called graph starts, and fails. -/
def schedule : Schedule Unit where
  now := 0
  events := [.node 0 [] .poll, .node 0 [] (.returns (.error (.host "no")))]
  drained := []

def stepped : Stepped Unit :=
  (superstep graph Fork.config (runContext graph []) here schedule).get (by decide +kernel)

end Call

/-- A pending entry inside a called graph is not in the checkpoint of a superstep that called the
graph again, though it was handed in and nothing was refused. -/
theorem entry_lost_in_call :
    superstep Call.graph Fork.config (runContext Call.graph []) Call.here Call.schedule =
        some Call.stepped ∧
      (Call.here.store Call.inside).isSome = true ∧
      Call.stepped.refused Call.graph Call.here = [] ∧
      ∃ given, Call.stepped.ending.stop? = some given ∧ given.pending Call.inside = none := by
  refine ⟨(Option.some_get _).symm, by decide +kernel, by decide +kernel,
    Call.stepped.ending.stop?.get (by decide +kernel), (Option.some_get _).symm, ?_⟩
  decide +kernel

end LlmGraph.Superstep
