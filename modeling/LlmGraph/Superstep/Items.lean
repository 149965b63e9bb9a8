/- digest: The items of a map: what a run of their body can come to, what their ends are, and how each
   of them stands while the map runs. -/

import LlmGraph.Superstep.Recorder

set_option autoImplicit false
set_option relaxedAutoImplicit false

namespace LlmGraph.Superstep

open OccurrenceKey (ofPath)

variable {C : Type} [Conversation C] [DecidableEq C]

/-- What a run of a node can come to, whatever the recorder holds at each of its polls. -/
inductive Comes (config : Config C) (node : Node C) (state : State C) (ctx : Context) :
    Task C → Prop
  | waits : Comes config node state ctx .waiting
  | polls {path : List Nat} {act : Act C} {task : Task C} {store : PendingWrites C}
      {progress : Progress C} (hhere : Comes config node state ctx task)
      (hpolled : node.run config state ctx path act task store = some progress) :
      Comes config node state ctx progress.task

/-- A run that has ended is not polled. -/
theorem run_ended (config : Config C) (node : Node C) (state : State C) (ctx : Context)
    (path : List Nat) (act : Act C) (outcome : RawOutcome C) (store : PendingWrites C) :
    node.run config state ctx path act (.ended outcome) store = none := by
  cases node with
  | host check =>
      unfold Node.run
      split
      · rename_i hsame
        cases hsame
      · rename_i hsame
        cases hsame
      · rfl
  | call check start =>
      unfold Node.run
      split
      · rename_i hsame
        cases hsame
      · rename_i hsame
        cases hsame
      · rfl
  | map fields body =>
      rcases hpolled : (Node.map fields body).run config state ctx path act (.ended outcome) store
        with _ | progress
      · rfl
      · cases run_map_poll hpolled

/-- A run that has been polled is under way, or has ended. -/
theorem run_begun {config : Config C} {node : Node C} {state : State C} {ctx : Context}
    {path : List Nat} {act : Act C} {task : Task C} {store : PendingWrites C} {progress : Progress C}
    (hpolled : node.run config state ctx path act task store = some progress) :
    progress.task ≠ .waiting := by
  cases node with
  | host check =>
      unfold Node.run at hpolled
      split at hpolled <;> cases hpolled <;> exact fun hsame => by cases hsame
  | call check start =>
      unfold Node.run at hpolled
      split at hpolled
      · split at hpolled <;> cases hpolled <;> exact fun hsame => by cases hsame
      · cases hpolled
        exact fun hsame => by cases hsame
      · cases hpolled
  | map fields body =>
      cases run_map_poll hpolled with
      | unplanned => exact fun hsame => by cases hsame
      | begins => exact fun hsame => by cases hsame
      | admits => exact fun hsame => by cases hsame
      | collects => exact fun hsame => by cases hsame
      | item =>
          unfold Progress.into
          split
          · exact fun hsame => by cases hsame
          · exact fun hsame => by cases hsame

/-- A map where it runs: its configuration and state, and the occurrence of its node. -/
structure MapSite (C : Type) [Conversation C] where
  config : Config C
  fields : Map C
  body : Node C
  state : State C
  run : OccurrenceKey
  id : NodeId
  base : List Nat
  recording : Bool

namespace MapSite

variable (site : MapSite C)

omit [DecidableEq C] in
/-- The occurrence of an item. -/
def occurrence (index : Nat) : OccurrenceKey := ofPath site.run site.id (site.base ++ [index])

omit [DecidableEq C] in
def context : Context := ⟨ofPath site.run site.id site.base, site.recording⟩

omit [DecidableEq C] in
def itemContext (index : Nat) : Context := ⟨site.occurrence index, site.recording⟩

/-- What the end of an item is: the updates an earlier attempt recorded on the same value, the
refusal of the item, or what its body ended with. -/
inductive ItemEnd (initial : PendingWrites C) (index : Nat) (item : Value C) : RawOutcome C → Prop
  | reused {updates : List (Update C)}
      (hfound : (site.itemContext index).recordedItem initial item = some updates) :
      ItemEnd initial index item (checked site.state updates)
  | underivable {error : GraphError C}
      (hrefused : site.state.derive site.fields.item item = .error error) :
      ItemEnd initial index item (.error (.graph error))
  | ran {derived : State C} {outcome : RawOutcome C}
      (hderives : site.state.derive site.fields.item item = .ok derived)
      (hended : Comes site.config site.body derived (site.itemContext index) (.ended outcome)) :
      ItemEnd initial index item (site.fields.itemOutcome site.state derived outcome)

/-- A run of the map, with where it stood before each of its polls: the rest of the superstep may
change the recorder meanwhile, but not at the occurrences of the items. -/
inductive Runs (initial : PendingWrites C) : List (Task C) → Task C → PendingWrites C → Prop
  | starts : Runs initial [] .waiting initial
  | polls {before : List (Task C)} {path : List Nat} {act : Act C} {task : Task C}
      {store : PendingWrites C} {progress : Progress C} (hhere : Runs initial before task store)
      (hpolled : (Node.map site.fields site.body).run site.config site.state site.context path act
        task store = some progress) :
      Runs initial (before ++ [task]) progress.task progress.store
  | others {before : List (Task C)} {task : Task C} {store changed : PendingWrites C}
      (hhere : Runs initial before task store)
      (hapart : ∀ index, changed (site.occurrence index) = store (site.occurrence index)) :
      Runs initial before task changed

/-- How the run of an item stands: it has not been polled, its body is under way, or it has ended,
and a success is recorded. -/
def ItemStands (initial store : PendingWrites C) (index : Nat) (item : Value C) : Task C → Prop
  | .waiting => site.recording = true →
      store (site.occurrence index) = initial (site.occurrence index)
  | .ended outcome => site.ItemEnd initial index item outcome ∧
      (∀ text, outcome ≠ .panicked text) ∧
      (site.recording = true → ∀ updates, outcome = .ok updates →
        store (site.occurrence index) = some ⟨updates, some item⟩)
  | task => ∃ derived, site.state.derive site.fields.item item = .ok derived ∧
      Comes site.config site.body derived (site.itemContext index) task

variable {site} {initial store changed : PendingWrites C} {index : Nat} {item : Value C}

/-- Where the recorder holds the same at an item, the same is recorded for it. -/
private theorem recordedItem_same
    (hsame : site.recording = true → store (site.occurrence index) =
      initial (site.occurrence index)) :
    (site.itemContext index).recordedItem store item =
      (site.itemContext index).recordedItem initial item := by
  unfold Context.recordedItem
  split
  · rename_i hrecording
    have hheld : store (site.itemContext index).occurrence =
        initial (site.itemContext index).occurrence := hsame hrecording
    rw [PendingWrites.matching, PendingWrites.matching, hheld]
  · rfl

/-- An item stands as it does while the recorder holds the same for it. -/
theorem ItemStands.frame {task : Task C}
    (hstands : site.ItemStands initial store index item task)
    (hsame : site.recording = true → changed (site.occurrence index) =
      store (site.occurrence index)) :
    site.ItemStands initial changed index item task := by
  cases task with
  | waiting => exact fun hrecording => (hsame hrecording).trans (hstands hrecording)
  | running => exact hstands
  | mapping => exact hstands
  | ended outcome =>
      obtain ⟨hends, hcalm, hrecorded⟩ := hstands
      refine ⟨hends, hcalm, fun hrecording updates hsuccess => ?_⟩
      rw [hsame hrecording]
      exact hrecorded hrecording updates hsuccess

omit [DecidableEq C] in
private theorem checked_calm (state : State C) (updates : List (Update C)) (text : String) :
    checked state updates ≠ .panicked text := by
  unfold checked
  split
  · exact fun hsame => by cases hsame
  · exact fun hsame => by cases hsame

/-- The end of an item records its success. -/
private theorem endItem_stands {progress : Progress C} {outcome : RawOutcome C}
    (hends : site.ItemEnd initial index item outcome) (hcalm : ∀ text, outcome ≠ .panicked text) :
    site.ItemStands initial (progress.endItem item (site.itemContext index) outcome).store index item
      (progress.endItem item (site.itemContext index) outcome).task := by
  rcases outcome with updates | error | text
  · refine ⟨hends, hcalm, fun hrecording own hsuccess => ?_⟩
    cases hsuccess
    have hkept : (site.itemContext index).recordItem progress.store item updates =
        progress.store.insert (site.occurrence index) ⟨updates, some item⟩ := if_pos hrecording
    exact (congrFun hkept _).trans (Function.update_self ..)
  · exact ⟨hends, hcalm, fun _ _ hsuccess => by cases hsuccess⟩
  · exact absurd rfl (hcalm text)

/-- The body of an item has panicked. -/
def ItemPanic (site : MapSite C) (item : Value C) (index : Nat) (text : String) : Prop :=
  ∃ derived, site.state.derive site.fields.item item = .ok derived ∧
    Comes site.config site.body derived (site.itemContext index) (.ended (.panicked text))

omit [DecidableEq C] in
/-- Only a panic of its body is one of an item. -/
private theorem itemOutcome_calm {fields : Map C} {state derived : State C} {outcome : RawOutcome C}
    (hcalm : ∀ text, outcome ≠ .panicked text) (text : String) :
    fields.itemOutcome state derived outcome ≠ .panicked text := by
  rcases outcome with updates | error | own
  · exact checked_calm state updates text
  · unfold Map.itemOutcome
    dsimp only
    split
    · split
      · exact checked_calm state _ text
      · exact fun hsame => by cases hsame
    · exact fun hsame => by cases hsame
    · exact fun hsame => by cases hsame
  · exact absurd rfl (hcalm own)

/-- An item stands as it must after a poll of its body, unless the body has panicked. -/
private theorem finishItem_stands {derived : State C} {progress : Progress C}
    (hderives : site.state.derive site.fields.item item = .ok derived)
    (hcomes : Comes site.config site.body derived (site.itemContext index) progress.task)
    (hbegun : progress.task ≠ .waiting) (finished : Progress C)
    (hmade : finished = site.fields.finishItem site.state derived item (site.itemContext index)
      progress) :
    (∃ text, finished.task = .ended (.panicked text) ∧ site.ItemPanic item index text) ∨
      (∀ text, finished.task ≠ .ended (.panicked text)) ∧
        site.ItemStands initial finished.store index item finished.task := by
  rcases hgoing : progress.task.isEnded with _ | _
  · right
    rw [hmade, finishItem_going hgoing]
    rcases htask : progress.task with _ | _ | tasks | outcome
    · exact absurd htask hbegun
    · exact ⟨fun text hsame => (by cases hsame), derived, hderives, htask ▸ hcomes⟩
    · exact ⟨fun text hsame => (by cases hsame), derived, hderives, htask ▸ hcomes⟩
    · rw [htask] at hgoing
      cases hgoing
  · obtain ⟨outcome, hended⟩ := Task.eq_ended hgoing
    rw [hended] at hcomes
    rw [hmade, finishItem_ended hended]
    by_cases hpanics : ∃ text, outcome = .panicked text
    · left
      obtain ⟨text, rfl⟩ := hpanics
      exact ⟨text, rfl, derived, hderives, hcomes⟩
    · right
      have hcalm : ∀ text, outcome ≠ .panicked text := fun text hsame => hpanics ⟨text, hsame⟩
      have hquiet := @itemOutcome_calm _ _ site.fields site.state derived outcome hcalm
      refine ⟨?_, endItem_stands (.ran hderives hcomes) hquiet⟩
      intro text hsame
      refine hquiet text ?_
      rcases hown : site.fields.itemOutcome site.state derived outcome with updates | error | other
      · rw [hown] at hsame
        cases hsame
      · rw [hown] at hsame
        cases hsame
      · rw [hown] at hsame
        cases hsame
        rfl

/-- An item stands as it must after each of its polls, unless its body has panicked. -/
theorem itemPoll_stands {path : List Nat} {act : Act C} {task : Task C}
    {progress : Progress C} (hstands : site.ItemStands initial store index item task)
    (hpolled : ItemPoll site.fields (site.body.run site.config) site.state item
      (site.itemContext index) store path act task progress) :
    task.isEnded = false ∧
      ((∃ text, progress.task = .ended (.panicked text) ∧ site.ItemPanic item index text) ∨
        (∀ text, progress.task ≠ .ended (.panicked text)) ∧
          site.ItemStands initial progress.store index item progress.task) := by
  cases hpolled with
  | @reused updates hfound =>
      refine ⟨rfl, Or.inr ⟨?_, ?_⟩⟩
      · intro text hsame
        exact checked_calm site.state updates text (Task.ended.inj hsame)
      · have hheld := hfound
        rw [recordedItem_same hstands] at hfound
        refine ⟨.reused hfound, checked_calm site.state updates, ?_⟩
        intro hrecording own hsuccess
        cases checked_ok hsuccess
        have hhere : (site.itemContext index).recording = true := hrecording
        rw [Context.recordedItem, if_pos hhere] at hheld
        exact store.matching_some hheld
  | underivable hmissing hrefused =>
      exact ⟨rfl, Or.inr ⟨fun text hsame => (by cases hsame), .underivable hrefused,
        fun text hsame => (by cases hsame), fun _ _ hsuccess => (by cases hsuccess)⟩⟩
  | @first derived inner hmissing hderives htaken =>
      have hcomes : Comes site.config site.body derived (site.itemContext index) inner.task :=
        Comes.waits.polls htaken
      have hbegun := run_begun htaken
      refine ⟨rfl, finishItem_stands hderives ?_ ?_ _ rfl⟩
      · exact hcomes
      · exact hbegun
  | @later derived path act task inner hstarted hderives htaken =>
      rcases task with _ | _ | tasks | outcome
      · exact absurd rfl hstarted
      · obtain ⟨own, hfound, hcomes⟩ := hstands
        rw [hderives] at hfound
        cases hfound
        exact ⟨rfl, finishItem_stands hderives (hcomes.polls htaken) (run_begun htaken) _ rfl⟩
      · obtain ⟨own, hfound, hcomes⟩ := hstands
        rw [hderives] at hfound
        cases hfound
        exact ⟨rfl, finishItem_stands hderives (hcomes.polls htaken) (run_begun htaken) _ rfl⟩
      · rw [run_ended] at htaken
        cases htaken

end MapSite

end LlmGraph.Superstep
