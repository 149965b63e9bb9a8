/- digest: Everything a poll can do: to a map, to one of its items, to a node of the superstep, and to
   the superstep as a whole. -/

import LlmGraph.Superstep.Run

set_option autoImplicit false
set_option relaxedAutoImplicit false

namespace LlmGraph.Superstep

open Lib (Attempt)

variable {C : Type} [Conversation C]

/-- A run that has ended has an outcome. -/
theorem Task.eq_ended {task : Task C} (hended : task.isEnded = true) :
    ∃ outcome, task = .ended outcome := by
  rcases task with _ | _ | _ | outcome
  · cases hended
  · cases hended
  · cases hended
  · exact ⟨outcome, rfl⟩

/-- The updates of an item, when the lists they append to take them. -/
def checked (state : State C) (updates : List (Update C)) : RawOutcome C :=
  match checkAppends state updates with
  | .ok () => .ok updates
  | .error error => .error (.graph error)

theorem checked_ok {state : State C} {updates own : List (Update C)}
    (hpassed : checked state updates = .ok own) : own = updates := by
  unfold checked at hpassed
  split at hpassed
  · cases hpassed
    rfl
  · cases hpassed

/-- What the outcome of a body is for its item. -/
def Map.itemOutcome (fields : Map C) (state derived : State C) : RawOutcome C → RawOutcome C
  | .ok updates => checked state updates
  | .error error =>
      match fields.onItemFailure with
      | .capture captures =>
          match captured derived error.display captures with
          | .ok updates => checked state updates
          | .error refused => .error (.graph refused)
      | .finish | .failFast => .error error
  | .panicked text => .panicked text

/-- The item of an outcome: a success is recorded, and seen. -/
def Progress.endItem (item : Value C) (ctx : Context) (outcome : RawOutcome C)
    (progress : Progress C) : Progress C :=
  match outcome with
  | .ok updates => {
      task := .ended (.ok updates)
      store := ctx.recordItem progress.store item updates
      notes := progress.notes ++ [.finished ctx.occurrence ⟨updates, some item⟩] }
  | failed => { progress with task := .ended failed }

section Item

variable {fields : Map C} {state derived : State C} {item : Value C} {ctx : Context}
  {progress : Progress C}

private theorem keepItem_eq (updates : List (Update C)) :
    keepItem state item ctx progress updates =
      progress.endItem item ctx (checked state updates) := by
  unfold keepItem checked
  rcases checkAppends state updates with error | ⟨⟩
  · rfl
  · rfl

/-- An item ends when its body does. -/
theorem finishItem_ended {outcome : RawOutcome C} (hended : progress.task = .ended outcome) :
    fields.finishItem state derived item ctx progress =
      progress.endItem item ctx (fields.itemOutcome state derived outcome) := by
  obtain ⟨task, store, notes⟩ := progress
  cases hended
  unfold Map.finishItem Map.itemOutcome
  rcases outcome with updates | error | text
  · exact keepItem_eq updates
  · dsimp only
    rcases fields.onItemFailure with _ | _ | captures
    · rfl
    · rfl
    · dsimp only
      rcases captured derived error.display captures with refused | updates
      · rfl
      · exact keepItem_eq updates
  · rfl

/-- An item goes on while its body does. -/
theorem finishItem_going (hgoing : progress.task.isEnded = false) :
    fields.finishItem state derived item ctx progress = progress := by
  unfold Map.finishItem
  split
  · rename_i hended
    rw [hended] at hgoing
    cases hgoing
  · rename_i hended
    rw [hended] at hgoing
    cases hgoing
  · rfl

end Item

/-- Every way a poll of an item goes. -/
inductive ItemPoll [DecidableEq C] (fields : Map C) (bodyRun : BodyRun C) (state : State C)
    (item : Value C) (ctx : Context) (store : PendingWrites C) :
    List Nat → Act C → Task C → Progress C → Prop
  | reused {updates : List (Update C)} (hfound : ctx.recordedItem store item = some updates) :
      ItemPoll fields bodyRun state item ctx store [] .poll .waiting
        ⟨.ended (checked state updates), store, []⟩
  | underivable {error : GraphError C} (hmissing : ctx.recordedItem store item = none)
      (hrefused : state.derive fields.item item = .error error) :
      ItemPoll fields bodyRun state item ctx store [] .poll .waiting
        ⟨.ended (.error (.graph error)), store, []⟩
  | first {derived : State C} {inner : Progress C}
      (hmissing : ctx.recordedItem store item = none)
      (hderives : state.derive fields.item item = .ok derived)
      (hpolled : bodyRun derived ctx [] .poll .waiting store = some inner) :
      ItemPoll fields bodyRun state item ctx store [] .poll .waiting
        (fields.finishItem state derived item ctx
          { inner with notes := .ran ctx.occurrence :: inner.notes })
  | later {derived : State C} {path : List Nat} {act : Act C} {task : Task C} {inner : Progress C}
      (hstarted : task ≠ .waiting) (hderives : state.derive fields.item item = .ok derived)
      (hpolled : bodyRun derived ctx path act task store = some inner) :
      ItemPoll fields bodyRun state item ctx store path act task
        (fields.finishItem state derived item ctx inner)

theorem itemUpdates_poll [DecidableEq C] {fields : Map C} {bodyRun : BodyRun C} {state : State C}
    {item : Value C} {ctx : Context} {path : List Nat} {act : Act C} {task : Task C}
    {store : PendingWrites C} {progress : Progress C}
    (hpolled : fields.itemUpdates bodyRun state item ctx path act task store = some progress) :
    ItemPoll fields bodyRun state item ctx store path act task progress := by
  unfold Map.itemUpdates at hpolled
  split at hpolled
  · split at hpolled
    · rename_i updates hfound
      have hsame : progress = ⟨.ended (checked state updates), store, []⟩ := by
        cases houtcome : checkAppends state updates with
        | ok passed =>
            simp only [houtcome] at hpolled
            cases hpolled
            simp only [checked, houtcome]
        | error refusal =>
            simp only [houtcome] at hpolled
            cases hpolled
            simp only [checked, houtcome]
      rw [hsame]
      exact .reused hfound
    · rename_i hmissing
      split at hpolled
      · rename_i hrefused
        cases hpolled
        exact .underivable hmissing hrefused
      · rename_i derived hderives
        obtain ⟨inner, htaken, rfl⟩ := Option.map_eq_some_iff.mp hpolled
        exact .first hmissing hderives htaken
  · cases hpolled
  · rename_i hstarted hnotFirst
    split at hpolled
    · cases hpolled
    · rename_i derived hderives
      obtain ⟨inner, htaken, rfl⟩ := Option.map_eq_some_iff.mp hpolled
      exact .later (fun hwaiting => hstarted hwaiting) hderives htaken

/-- Every way a poll of a map goes. -/
inductive MapPoll [DecidableEq C] (config : Config C) (fields : Map C) (body : Node C)
    (state : State C) (ctx : Context) (store : PendingWrites C) :
    List Nat → Act C → Task C → Progress C → Prop
  | unplanned {error : GraphError C} (hrefused : fields.plan config state ctx = .error error) :
      MapPoll config fields body state ctx store [] .poll .waiting
        ⟨.ended (.error (.graph error)), store, []⟩
  | begins {prepared : List (Value C × Context)} {width : Nat}
      (hplanned : fields.plan config state ctx = .ok (prepared, width)) :
      MapPoll config fields body state ctx store [] .poll .waiting ⟨.mapping [], store, []⟩
  | admits {prepared : List (Value C × Context)} {width : Nat} {tasks : List (Task C)}
      (hplanned : fields.plan config state ctx = .ok (prepared, width))
      (hpulls : fields.pulls prepared width tasks = true) :
      MapPoll config fields body state ctx store [] .pull (.mapping tasks)
        ⟨.mapping (tasks ++ [.waiting]), store, []⟩
  | collects {prepared : List (Value C × Context)} {width : Nat} {tasks : List (Task C)}
      (hplanned : fields.plan config state ctx = .ok (prepared, width))
      (hexhausted : fields.exhausted prepared tasks = true) :
      MapPoll config fields body state ctx store [] .collect (.mapping tasks)
        ⟨.ended (collect tasks), store, []⟩
  | item {prepared : List (Value C × Context)} {width : Nat} {tasks : List (Task C)} {index : Nat}
      {path : List Nat} {act : Act C} {item : Value C} {itemCtx : Context} {task : Task C}
      {inner : Progress C} (hplanned : fields.plan config state ctx = .ok (prepared, width))
      (hlisted : prepared[index]? = some (item, itemCtx)) (hstarted : tasks[index]? = some task)
      (hpolled : ItemPoll fields (body.run config) state item itemCtx store path act task inner) :
      MapPoll config fields body state ctx store (index :: path) act (.mapping tasks)
        (inner.into tasks index)

theorem run_map_poll [DecidableEq C] {config : Config C} {fields : Map C} {body : Node C}
    {state : State C} {ctx : Context} {path : List Nat} {act : Act C} {task : Task C}
    {store : PendingWrites C} {progress : Progress C}
    (hpolled : (Node.map fields body).run config state ctx path act task store = some progress) :
    MapPoll config fields body state ctx store path act task progress := by
  unfold Node.run at hpolled
  split at hpolled
  · rename_i hrefused
    split at hpolled
    · cases hpolled
      exact .unplanned hrefused
    · cases hpolled
  · rename_i prepared width hplanned
    split at hpolled
    · cases hpolled
      exact .begins hplanned
    · split at hpolled
      · rename_i hpulls
        cases hpolled
        exact .admits hplanned hpulls
      · cases hpolled
    · split at hpolled
      · rename_i hexhausted
        cases hpolled
        exact .collects hplanned hexhausted
      · cases hpolled
    · split at hpolled
      · rename_i hlisted hstarted
        obtain ⟨inner, htaken, rfl⟩ := Option.map_eq_some_iff.mp hpolled
        exact .item hplanned hlisted hstarted (itemUpdates_poll htaken)
      · cases hpolled
    · cases hpolled

/-- A node that has not ended goes on as it is; one that has, records its updates. -/
theorem keepNode_task (ctx : Context) (progress : Progress C) :
    (keepNode ctx progress).task = progress.task := by
  unfold keepNode
  split <;> rfl

/-- Every way a poll of a node of the superstep goes. -/
inductive NodePoll [DecidableEq C] (config : Config C) (node : Node C) (state : State C)
    (ctx : Context) (store : PendingWrites C) : List Nat → Act C → Task C → Progress C → Prop
  | reused {updates : List (Update C)} (hfound : ctx.recorded store = some updates) :
      NodePoll config node state ctx store [] .poll .waiting ⟨.ended (.ok updates), store, []⟩
  | first {inner : Progress C} (hmissing : ctx.recorded store = none)
      (hpolled : node.run config state ctx [] .poll .waiting store = some inner) :
      NodePoll config node state ctx store [] .poll .waiting
        (keepNode ctx { inner with notes := .ran ctx.occurrence :: inner.notes })
  | later {path : List Nat} {act : Act C} {task : Task C} {inner : Progress C}
      (hstarted : task ≠ .waiting)
      (hpolled : node.run config state ctx path act task store = some inner) :
      NodePoll config node state ctx store path act task (keepNode ctx inner)

theorem runRecorded_poll [DecidableEq C] {config : Config C} {node : Node C} {state : State C}
    {ctx : Context} {path : List Nat} {act : Act C} {task : Task C} {store : PendingWrites C}
    {progress : Progress C}
    (hpolled : runRecorded config node state ctx path act task store = some progress) :
    NodePoll config node state ctx store path act task progress := by
  unfold runRecorded at hpolled
  split at hpolled
  · split at hpolled
    · rename_i hfound
      cases hpolled
      exact .reused hfound
    · rename_i hmissing
      obtain ⟨inner, htaken, rfl⟩ := Option.map_eq_some_iff.mp hpolled
      exact .first hmissing htaken
  · cases hpolled
  · rename_i hstarted hnotFirst
    obtain ⟨inner, htaken, rfl⟩ := Option.map_eq_some_iff.mp hpolled
    exact .later (fun hwaiting => hstarted hwaiting) htaken

/-- A poll of the superstep polls the node at its position. -/
theorem advance_eq_some [DecidableEq C] {graph : Graph C} {config : Config C} {state : State C}
    {ctx : Context} {present : List NodeId} {driving next : Driving C} {position : Nat}
    {path : List Nat} {act : Act C}
    (hadvanced : driving.advance graph config state ctx present position path act = some next) :
    ∃ id task node progress, present[position]? = some id ∧ driving.tasks[position]? = some task ∧
      graph.node id = some node ∧
      NodePoll config node state (ctx.forNode id) driving.store path act task progress ∧
      next = { driving with
        tasks := driving.tasks.set position progress.task
        store := progress.store
        notes := driving.notes ++ progress.notes } := by
  unfold Driving.advance at hadvanced
  split at hadvanced
  · rename_i id task hlocated hstanding
    split at hadvanced
    · cases hadvanced
    · rename_i node hknown
      obtain ⟨progress, hpolled, rfl⟩ := Option.map_eq_some_iff.mp hadvanced
      exact ⟨id, task, node, progress, hlocated, hstanding, hknown, runRecorded_poll hpolled, rfl⟩
  · cases hadvanced

/-- What holds of a superstep when it starts, and is kept by every poll and by every command that
is not a cancel, holds when it stops. -/
theorem drive_preserves [DecidableEq C] {graph : Graph C} {config : Config C} {state : State C}
    {ctx : Context} {present : List NodeId} (holds : Driving C → Prop)
    (hpolls : ∀ driving next position path act, holds driving →
      driving.advance graph config state ctx present position path act = some next → holds next)
    (htakes : ∀ driving command, holds driving → holds (driving.take command))
    {driving stopped : Driving C} {events : List (Event C)} {result : StepResult C}
    (hstart : holds driving)
    (hdrove : drive graph config state ctx present driving events = some (stopped, result)) :
    holds stopped := by
  induction events generalizing driving with
  | nil =>
      unfold drive at hdrove
      split at hdrove
      · cases hdrove
        exact hstart
      · cases hdrove
  | cons event rest hstep =>
      unfold drive at hdrove
      split at hdrove
      · contradiction
      · split at hdrove
        · cases hdrove
          exact hstart
        · cases hdrove
      · rename_i hsame
        cases hsame
        exact hstep (htakes _ _ hstart) hdrove
      · rename_i hsame
        cases hsame
        split at hdrove
        · cases hdrove
        · rename_i next hadvanced
          exact hstep (hpolls _ _ _ _ _ hstart hadvanced) hdrove

/-- Where a superstep is done, every node has ended and the results are theirs. -/
theorem drive_done [DecidableEq C] {graph : Graph C} {config : Config C} {state : State C}
    {ctx : Context} {present : List NodeId} {driving stopped : Driving C} {events : List (Event C)}
    {results : Results C}
    (hdrove : drive graph config state ctx present driving events =
      some (stopped, .done results)) :
    stopped.tasks.all Task.isEnded = true ∧ results = pair present stopped.tasks := by
  induction events generalizing driving with
  | nil =>
      unfold drive at hdrove
      split at hdrove
      · rename_i hall
        cases hdrove
        exact ⟨hall, rfl⟩
      · cases hdrove
  | cons event rest hstep =>
      unfold drive at hdrove
      split at hdrove
      · contradiction
      · split at hdrove
        · cases hdrove
        · cases hdrove
      · rename_i hsame
        cases hsame
        exact hstep hdrove
      · rename_i hsame
        cases hsame
        split at hdrove
        · cases hdrove
        · exact hstep hdrove

end LlmGraph.Superstep
