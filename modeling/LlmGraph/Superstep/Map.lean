/- digest: A map over the items of a list: whatever the width and the order in which its items end, its
   outcome is what the ends of the items, taken in list order, make of it. -/

import LlmGraph.Superstep.Calls
import LlmGraph.Superstep.Items

set_option autoImplicit false
set_option relaxedAutoImplicit false

namespace LlmGraph.Superstep

open OccurrenceKey (ofPath)

variable {C : Type} [Conversation C] [DecidableEq C]

/-- What was started is still there, what had ended has ended so, and after an error a map that
stops at one has started nothing more. -/
structure Map.Extends (fields : Map C) (earlier later : List (Task C)) : Prop where
  grows : earlier.length ≤ later.length
  keeps : ∀ (index : Nat) (outcome : RawOutcome C), earlier[index]? = some (.ended outcome) →
    later[index]? = some (.ended outcome)
  stops : fields.stopped earlier = true → later.length = earlier.length

section Extends

variable {fields : Map C} {earlier middle later : List (Task C)}

omit [DecidableEq C] in
/-- A stopped map is one that stops at an error, and an item has ended with one. -/
theorem Map.stopped_iff {tasks : List (Task C)} : fields.stopped tasks = true ↔
    fields.onItemFailure = .failFast ∧
      ∃ (index : Nat) (error : NodeError C), tasks[index]? = some (.ended (.error error)) := by
  have hfailed : tasks.any Task.isError = true ↔
      ∃ (index : Nat) (error : NodeError C), tasks[index]? = some (.ended (.error error)) := by
    rw [List.any_eq_true]
    constructor
    · rintro ⟨task, hmember, herror⟩
      obtain ⟨index, hfound⟩ := List.mem_iff_getElem?.mp hmember
      unfold Task.isError at herror
      split at herror
      · exact ⟨index, _, hfound⟩
      · cases herror
    · rintro ⟨index, error, hfound⟩
      exact ⟨_, List.mem_of_getElem? hfound, rfl⟩
  unfold Map.stopped
  split
  · rename_i hpolicy
    rw [hfailed, hpolicy, eq_self_iff_true, true_and]
  · rename_i hpolicy
    simp [hpolicy]
  · rename_i hpolicy
    simp [hpolicy]

omit [DecidableEq C] in
theorem Map.Extends.refl (fields : Map C) (tasks : List (Task C)) : fields.Extends tasks tasks :=
  ⟨le_rfl, fun _ _ hended => hended, fun _ => rfl⟩

omit [DecidableEq C] in
theorem Map.Extends.trans (hfirst : fields.Extends earlier middle)
    (hsecond : fields.Extends middle later) : fields.Extends earlier later := by
  refine ⟨hfirst.grows.trans hsecond.grows,
    fun index outcome hended => hsecond.keeps index outcome (hfirst.keeps index outcome hended), ?_⟩
  intro hstopped
  obtain ⟨hpolicy, index, error, hfailed⟩ := Map.stopped_iff.mp hstopped
  have hstill := Map.stopped_iff.mpr ⟨hpolicy, index, error, hfirst.keeps index _ hfailed⟩
  exact (hsecond.stops hstill).trans (hfirst.stops hstopped)

omit [DecidableEq C] in
/-- A map starts its next item only where it is not stopped. -/
theorem Map.Extends.admit {prepared : List (Value C × Context)} {width : Nat}
    (hpulls : fields.pulls prepared width earlier = true) :
    earlier.length < prepared.length ∧ fields.Extends earlier (earlier ++ [.waiting]) := by
  unfold Map.pulls at hpulls
  simp only [Bool.and_eq_true, Bool.not_eq_true', decide_eq_true_eq] at hpulls
  obtain ⟨⟨hmore, hgoing⟩, -⟩ := hpulls
  refine ⟨hmore, by simp, ?_, ?_⟩
  · intro index outcome hended
    have hbound := (List.getElem?_eq_some_iff.mp hended).1
    rw [List.getElem?_append_left hbound]
    exact hended
  · intro hstopped
    rw [hgoing] at hstopped
    cases hstopped

omit [DecidableEq C] in
/-- An item that has not ended goes on. -/
theorem Map.Extends.set {index : Nat} {task : Task C} (hatIndex : earlier[index]? = some task)
    (hgoing : task.isEnded = false) (next : Task C) : fields.Extends earlier
    (earlier.set index next) := by
  refine ⟨by rw [List.length_set], ?_, fun _ => List.length_set⟩
  intro other outcome hended
  rw [List.getElem?_set]
  split
  · rename_i hsame
    subst hsame
    rw [hatIndex] at hended
    cases hended
    cases hgoing
  · exact hended

end Extends

namespace MapSite

variable {site : MapSite C} {initial store changed : PendingWrites C} {index : Nat} {item : Value C}

/-- How a map under way stands: no more items have been started than there are, each stands as it
must, the others are as the map found them, and it has grown from where it stood before. -/
structure Stands (site : MapSite C) (items : List (Value C)) (initial : PendingWrites C)
    (before : List (Task C)) (tasks : List (Task C)) (store : PendingWrites C) : Prop where
  started : tasks.length ≤ items.length
  stands : ∀ (index : Nat) (task : Task C) (item : Value C), tasks[index]? = some task →
    items[index]? = some item → site.ItemStands initial store index item task
  untouched : site.recording = true → ∀ index, tasks.length ≤ index →
    store (site.occurrence index) = initial (site.occurrence index)
  grown : ∀ earlier, .mapping earlier ∈ before → site.fields.Extends earlier tasks

/-- What a map has come to when it has ended: the ends of the items it started, in list order, and
what they make of it. -/
structure Ends (site : MapSite C) (items : List (Value C)) (initial : PendingWrites C)
    (before : List (Task C)) (outcome : RawOutcome C) (store : PendingWrites C)
    (results : List (RawOutcome C)) : Prop where
  listed : results.length ≤ items.length
  ends : ∀ (index : Nat) (result : RawOutcome C) (item : Value C), results[index]? = some result →
    items[index]? = some item → site.ItemEnd initial index item result
  recorded : site.recording = true → ∀ (index : Nat) (updates : List (Update C)) (item : Value C),
    results[index]? = some (.ok updates) → items[index]? = some item →
      store (site.occurrence index) = some ⟨updates, some item⟩
  succeeds : ∀ batches : List (List (Update C)), results = batches.map .ok →
    outcome = .ok batches.flatten
  fails : ∀ (batches : List (List (Update C))) (error : NodeError C) (rest : List (RawOutcome C)),
    results = batches.map .ok ++ .error error :: rest → outcome = .error error
  calm : ∀ text, .panicked text ∉ results
  all : results.length = items.length ∨ site.fields.onItemFailure = .failFast ∧
    ∃ error, .error error ∈ results
  started : ∀ tasks, .mapping tasks ∈ before → tasks.length ≤ results.length
  admits : site.fields.onItemFailure = .failFast → ∀ tasks, .mapping tasks ∈ before →
    tasks.any Task.isError = true → results.length = tasks.length

section Collect

variable {results : List (RawOutcome C)}

omit [DecidableEq C] in
private theorem collect_ok (batches : List (List (Update C))) :
    collect ((batches.map .ok).map Task.ended) = .ok batches.flatten := by
  induction batches with
  | nil => rfl
  | cons batch rest hstep =>
      rw [List.map_cons, List.map_cons, collect, hstep]
      rfl

omit [DecidableEq C] in
private theorem collect_error (batches : List (List (Update C))) (error : NodeError C)
    (rest : List (RawOutcome C)) :
    collect ((batches.map .ok ++ .error error :: rest : List (RawOutcome C)).map Task.ended) =
      .error error := by
  induction batches with
  | nil => rfl
  | cons batch others hstep =>
      rw [List.map_cons, List.cons_append, List.map_cons, collect, hstep]

omit [DecidableEq C] in
private theorem ended_of_all {tasks : List (Task C)} (hall : tasks.all Task.isEnded = true) :
    ∃ results : List (RawOutcome C), tasks = results.map .ended := by
  induction tasks with
  | nil => exact ⟨[], rfl⟩
  | cons task rest hstep =>
      rw [List.all_cons, Bool.and_eq_true] at hall
      obtain ⟨results, rfl⟩ := hstep hall.2
      rcases task with _ | _ | _ | outcome
      · cases hall.1
      · cases hall.1
      · cases hall.1
      · exact ⟨outcome :: results, rfl⟩

end Collect

section Steps

variable {items : List (Value C)} {before tasks : List (Task C)}

/-- A map collects when every item it started has ended, and no other starts. -/
private theorem Stands.collects {prepared : List (Value C × Context)}
    (hstands : site.Stands items initial before tasks store)
    (hsized : prepared.length = items.length)
    (hexhausted : site.fields.exhausted prepared tasks = true) :
    ∃ results, site.Ends items initial (before ++ [.mapping tasks]) (collect tasks) store
      results := by
  rw [Map.exhausted, Bool.and_eq_true, Bool.or_eq_true, decide_eq_true_eq] at hexhausted
  obtain ⟨hall, hcomplete⟩ := hexhausted
  obtain ⟨results, rfl⟩ := ended_of_all hall
  have hended : ∀ (index : Nat) (result : RawOutcome C), results[index]? = some result →
      (results.map Task.ended)[index]? = some (.ended result) := by
    intro index result hfound
    rw [List.getElem?_map, hfound]
    rfl
  have hgrown : ∀ earlier, .mapping earlier ∈ before ++ [.mapping (results.map .ended)] →
      site.fields.Extends earlier (results.map .ended) := by
    intro earlier hmember
    rcases List.mem_append.mp hmember with hold | hlast
    · exact hstands.grown earlier hold
    · cases List.mem_singleton.mp hlast
      exact Map.Extends.refl _ _
  refine ⟨results, ?_⟩
  refine { listed := ?_, ends := ?_, recorded := ?_, succeeds := ?_, fails := ?_, calm := ?_,
           all := ?_, started := ?_, admits := ?_ }
  · have hbound := hstands.started
    rw [List.length_map] at hbound
    exact hbound
  · intro index result item hfound hgiven
    exact (hstands.stands index _ item (hended index result hfound) hgiven).1
  · intro hrecording index updates item hfound hgiven
    exact (hstands.stands index _ item (hended index _ hfound) hgiven).2.2 hrecording updates rfl
  · rintro batches rfl
    exact collect_ok batches
  · rintro batches error rest rfl
    exact collect_error batches error rest
  · intro text hmember
    obtain ⟨index, hfound⟩ := List.mem_iff_getElem?.mp hmember
    have hbound : index < items.length := by
      have hinside := (List.getElem?_eq_some_iff.mp hfound).1
      have hstarted := hstands.started
      rw [List.length_map] at hstarted
      omega
    exact (hstands.stands index _ _ (hended index _ hfound) (List.getElem?_eq_getElem hbound)).2.1 text
      rfl
  · rcases hcomplete with hwhole | hstopped
    · left
      rw [List.length_map] at hwhole
      exact hwhole.trans hsized
    · right
      obtain ⟨hpolicy, index, error, hfailed⟩ := Map.stopped_iff.mp hstopped
      refine ⟨hpolicy, error, ?_⟩
      have hmember := List.mem_of_getElem? hfailed
      obtain ⟨result, hinside, hsame⟩ := List.mem_map.mp hmember
      cases hsame
      exact hinside
  · intro earlier hmember
    have hgrows := (hgrown earlier hmember).grows
    rw [List.length_map] at hgrows
    exact hgrows
  · intro hpolicy earlier hmember hfailed
    have hstopped : site.fields.stopped earlier = true := by
      rw [Map.stopped, hpolicy]
      exact hfailed
    have hsame := (hgrown earlier hmember).stops hstopped
    rw [List.length_map] at hsame
    exact hsame

/-- A map starts its next item. -/
private theorem Stands.admits {prepared : List (Value C × Context)} {width : Nat}
    (hstands : site.Stands items initial before tasks store)
    (hsized : prepared.length = items.length)
    (hpulls : site.fields.pulls prepared width tasks = true) :
    site.Stands items initial (before ++ [.mapping tasks]) (tasks ++ [.waiting]) store := by
  obtain ⟨hmore, hstep⟩ := Map.Extends.admit hpulls
  refine ⟨?_, ?_, ?_, ?_⟩
  · rw [List.length_append, List.length_singleton]
    omega
  · intro index task item hfound hgiven
    rcases Nat.lt_or_ge index tasks.length with hold | hnew
    · rw [List.getElem?_append_left hold] at hfound
      exact hstands.stands index task item hfound hgiven
    · rw [List.getElem?_append_right hnew] at hfound
      have hlast : index - tasks.length = 0 := by
        have hbound := (List.getElem?_eq_some_iff.mp hfound).1
        rw [List.length_singleton] at hbound
        omega
      rw [hlast, List.getElem?_cons_zero] at hfound
      cases hfound
      exact fun hrecording => hstands.untouched hrecording index hnew
  · intro hrecording index hbeyond
    rw [List.length_append, List.length_singleton] at hbeyond
    exact hstands.untouched hrecording index (by omega)
  · intro earlier hmember
    rcases List.mem_append.mp hmember with hold | hlast
    · exact (hstands.grown earlier hold).trans hstep
    · cases List.mem_singleton.mp hlast
      exact hstep

/-- A poll of an item leaves the occurrences of the others alone. -/
private theorem itemPoll_apart {path : List Nat} {act : Act C} {task : Task C}
    {progress : Progress C} {other : Nat}
    (hpolled : ItemPoll site.fields (site.body.run site.config) site.state item
      (site.itemContext index) store path act task progress) (hapart : other ≠ index)
    (hrecording : site.recording = true) :
    progress.store (site.occurrence other) = store (site.occurrence other) := by
  have hcontext : site.itemContext index = ⟨ofPath site.run site.id (site.base ++ [index]), true⟩ := by
    rw [itemContext, hrecording]
    rfl
  rw [hcontext] at hpolled
  obtain ⟨hreplays, hnoted⟩ := itemPoll_notes (fun htaken => run_notes htaken) hpolled
  rw [hreplays]
  exact replay_apart hnoted hapart store

omit [DecidableEq C] in
private theorem into_calm {progress : Progress C}
    (hcalm : ∀ text, progress.task ≠ .ended (.panicked text)) :
    progress.into tasks index = { progress with task := .mapping (tasks.set index progress.task) } := by
  unfold Progress.into
  split
  · rename_i text hpanicked
    exact absurd hpanicked (hcalm text)
  · rfl

/-- A poll of an item keeps the map as it must stand, unless the body has panicked. -/
private theorem Stands.polls {path : List Nat} {act : Act C} {task : Task C} {inner : Progress C}
    (hstands : site.Stands items initial before tasks store) (hatIndex : tasks[index]? = some task)
    (hgiven : items[index]? = some item)
    (hpolled : ItemPoll site.fields (site.body.run site.config) site.state item
      (site.itemContext index) store path act task inner) :
    (∃ text, (inner.into tasks index).task = .ended (.panicked text) ∧
        site.ItemPanic item index text) ∨
      ∃ next, inner.into tasks index = { inner with task := .mapping next } ∧
        site.Stands items initial (before ++ [.mapping tasks]) next inner.store := by
  obtain ⟨hgoing, hpanics | ⟨hcalm, hown⟩⟩ := itemPoll_stands
    (hstands.stands index task item hatIndex hgiven)
    hpolled
  · obtain ⟨text, hpanicked, hpanic⟩ := hpanics
    refine Or.inl ⟨text, ?_, hpanic⟩
    unfold Progress.into
    rw [hpanicked]
  · refine Or.inr ⟨_, into_calm hcalm, ?_, ?_, ?_, ?_⟩
    · rw [List.length_set]
      exact hstands.started
    · intro other found_task found_item hfound hlisted
      rw [List.getElem?_set] at hfound
      split at hfound
      · rename_i hsame
        subst hsame
        rw [hgiven] at hlisted
        cases hlisted
        split at hfound
        · cases hfound
          exact hown
        · cases hfound
      · rename_i hapart
        exact (hstands.stands other _ _ hfound hlisted).frame fun hrecording =>
          itemPoll_apart hpolled (Ne.symm hapart) hrecording
    · intro hrecording other hbeyond
      rw [List.length_set] at hbeyond
      have hbound := (List.getElem?_eq_some_iff.mp hatIndex).1
      rw [itemPoll_apart hpolled (by omega) hrecording]
      exact hstands.untouched hrecording other hbeyond
    · intro earlier hmember
      have hstep := @Map.Extends.set _ _ site.fields _ _ _ hatIndex hgoing inner.task
      rcases List.mem_append.mp hmember with hold | hlast
      · exact (hstands.grown earlier hold).trans hstep
      · cases List.mem_singleton.mp hlast
        exact hstep

end Steps

section Runs

variable {items : List (Value C)} {before : List (Task C)} {task : Task C}

/-- What a map has come to at each moment of its run. -/
def Invariant (site : MapSite C) (items : List (Value C)) (initial : PendingWrites C)
    (before : List (Task C)) (task : Task C) (store : PendingWrites C) : Prop :=
  match task with
  | .waiting => (∀ earlier, .mapping earlier ∉ before) ∧ (site.recording = true →
      ∀ index, store (site.occurrence index) = initial (site.occurrence index))
  | .running => False
  | .mapping tasks => site.Stands items initial before tasks store
  | .ended outcome =>
      (∃ text index item, outcome = .panicked text ∧ items[index]? = some item ∧
          site.ItemPanic item index text) ∨
        ∃ results, site.Ends items initial before outcome store results

omit [DecidableEq C] in
/-- A map in a run always finds the occurrences of its items. -/
private theorem prepare_ok (items : List (Value C)) (from_ : Nat) :
    ∃ prepared, Map.prepare site.context from_ items = .ok prepared := by
  induction items generalizing from_ with
  | nil => exact ⟨[], rfl⟩
  | cons item rest hstep =>
      obtain ⟨others, hlater⟩ := hstep (from_ + 1)
      have hfound : site.context.occurrence.item from_ = some (site.occurrence from_) :=
        OccurrenceKey.item_ofPath site.run site.id site.base from_
      refine ⟨(item, site.context.withOccurrence (site.occurrence from_)) :: others, ?_⟩
      rw [Map.prepare, hfound, hlater]

omit [DecidableEq C] in
private theorem plan_eq {width : Nat} (hlisted : site.state.list site.fields.list = .ok items)
    (hsized : site.fields.width site.config items = .ok width) :
    ∃ prepared, site.fields.plan site.config site.state site.context = .ok (prepared, width) := by
  obtain ⟨prepared, hready⟩ := @prepare_ok _ _ site items 0
  refine ⟨prepared, ?_⟩
  rw [Map.plan, hlisted]
  dsimp only
  rw [hsized]
  dsimp only
  rw [hready]

/-- A poll of the map keeps its invariant. -/
private theorem Invariant.polls {width : Nat} {path : List Nat} {act : Act C}
    {progress : Progress C} (hlisted : site.state.list site.fields.list = .ok items)
    (hsized : site.fields.width site.config items = .ok width)
    (hholds : site.Invariant items initial before task store)
    (hpolled : (Node.map site.fields site.body).run site.config site.state site.context path act task
      store = some progress) :
    site.Invariant items initial (before ++ [task]) progress.task progress.store := by
  obtain ⟨prepared, hplanned⟩ := plan_eq hlisted hsized
  have hwhole := Map.plan_length hplanned hlisted
  cases run_map_poll hpolled with
  | unplanned hrefused =>
      rw [hplanned] at hrefused
      cases hrefused
  | begins =>
      obtain ⟨hfresh, huntouched⟩ := hholds
      refine ⟨Nat.zero_le _, by simp, fun hrecording index _ => huntouched hrecording index, ?_⟩
      intro earlier hmember
      rcases List.mem_append.mp hmember with hold | hlast
      · exact absurd hold (hfresh earlier)
      · cases List.mem_singleton.mp hlast
  | admits hagain hpulls =>
      rw [hplanned] at hagain
      cases hagain
      exact Stands.admits hholds hwhole hpulls
  | collects hagain hexhausted =>
      rw [hplanned] at hagain
      cases hagain
      exact Or.inr (Stands.collects hholds hwhole hexhausted)
  | @item _ _ tasks index path act item itemCtx task inner hagain hfound hstarted htaken =>
      rw [hplanned] at hagain
      cases hagain
      obtain ⟨own, hgiven, hhere, hsame⟩ := Map.plan_get hplanned hfound
      rw [hlisted] at hgiven
      cases hgiven
      cases hsame
      rcases Stands.polls hholds hstarted hhere htaken with ⟨text, hpanicked, hpanic⟩ |
        ⟨next, hgoes, hstands⟩
      · rw [hpanicked]
        exact Or.inl ⟨text, index, item, rfl, hhere, hpanic⟩
      · rw [hgoes]
        exact hstands

/-- A recorder that holds the same for the items keeps the invariant of their map. -/
private theorem Invariant.others (hholds : site.Invariant items initial before task store)
    (hapart : ∀ index, changed (site.occurrence index) = store (site.occurrence index)) :
    site.Invariant items initial before task changed := by
  cases task with
  | waiting => exact ⟨hholds.1, fun hrecording index => (hapart index).trans
    (hholds.2 hrecording index)⟩
  | running => exact hholds
  | mapping tasks =>
      refine ⟨hholds.started, ?_, ?_, hholds.grown⟩
      · intro index task item hfound hgiven
        exact (hholds.stands index task item hfound hgiven).frame fun _ => hapart index
      · intro hrecording index hbeyond
        exact (hapart index).trans (hholds.untouched hrecording index hbeyond)
  | ended outcome =>
      rcases hholds with hpanics | ⟨results, hends⟩
      · exact Or.inl hpanics
      · refine Or.inr ⟨results, { hends with recorded := ?_ }⟩
        intro hrecording index updates item hfound hgiven
        rw [hapart index]
        exact hends.recorded hrecording index updates item hfound hgiven

theorem invariant_of_runs {width : Nat}
    (hlisted : site.state.list site.fields.list = .ok items)
    (hsized : site.fields.width site.config items = .ok width)
    (hran : site.Runs initial before task store) :
    site.Invariant items initial before task store := by
  induction hran with
  | starts => exact ⟨fun _ => List.not_mem_nil, fun _ _ => rfl⟩
  | polls _ hpolled hstep => exact Invariant.polls hlisted hsized hstep hpolled
  | others _ hapart hstep => exact hstep.others hapart

end Runs

/-- An item whose updates, of a body that succeeded now or in an earlier attempt, are refused: its
lists do not take them, or they are not appends. -/
def Refused (site : MapSite C) (initial : PendingWrites C) (index : Nat) (item : Value C)
    (error : NodeError C) : Prop :=
  ∃ updates refusal, checkAppends site.state updates = .error refusal ∧ error = .graph refusal ∧
    ((site.itemContext index).recordedItem initial item = some updates ∨
      ∃ derived, site.state.derive site.fields.item item = .ok derived ∧
        Comes site.config site.body derived (site.itemContext index) (.ended (.ok updates)))

section Captures

variable {schema : Schema C} {captures : List (CaptureUpdate C)}

omit [DecidableEq C] in
/-- The items of a checked map may all be set into its item key. -/
private theorem derive_ok {fields : Map C} {state : State C} {items : List (Value C)}
    (hchecked : fields.check schema = .ok ()) (hmade : state.MadeFrom schema)
    (hlisted : state.list fields.list = .ok items) (hmember : item ∈ items) :
    ∃ derived, state.derive fields.item item = .ok derived := by
  unfold Map.check at hchecked
  dsimp only at hchecked
  split at hchecked
  · rename_i element kind hlistKind hitemKind
    split at hchecked
    · rename_i hsame
      have hequal := eq_of_beq hsame
      subst hequal
      obtain ⟨value, hheld, htyped⟩ := hmade.value_ok hlistKind
      unfold State.list at hlisted
      rw [hheld] at hlisted
      cases value with
      | list own =>
          cases hlisted
          rw [Value.matchesKind, List.all_eq_true] at htyped
          refine ⟨state.insert fields.item item, ?_⟩
          rw [State.derive, hmade.kindOf, hitemKind]
          exact if_pos (htyped item hmember)
      | _ => exact absurd htyped (by simp [Value.matchesKind])
    · cases hchecked
  · cases hchecked

/-- Where failures are captured, what fails an item is the refusal of updates. -/
theorem refused_of_capture {items : List (Value C)} {error : NodeError C}
    (hpolicy : site.fields.onItemFailure = .capture captures)
    (hchecked : site.fields.check schema = .ok ()) (hmade : site.state.MadeFrom schema)
    (hlisted : site.state.list site.fields.list = .ok items) (hgiven : items[index]? = some item)
    (hends : site.ItemEnd initial index item (.error error)) :
    site.Refused initial index item error := by
  have happends : ∀ updates, Superstep.checked site.state updates = .error error →
      ∃ refusal, checkAppends site.state updates = .error refusal ∧ error = .graph refusal := by
    intro updates hfailed
    unfold Superstep.checked at hfailed
    split at hfailed
    · cases hfailed
    · rename_i refusal hrefused
      cases hfailed
      exact ⟨refusal, hrefused, rfl⟩
  generalize hsame : (.error error : RawOutcome C) = result at hends
  cases hends with
  | @reused updates hfound =>
      obtain ⟨refusal, hrefused, rfl⟩ := happends updates hsame.symm
      exact ⟨updates, refusal, hrefused, rfl, Or.inl hfound⟩
  | underivable hrefused =>
      obtain ⟨derived, hderives⟩ := derive_ok hchecked hmade hlisted (List.mem_of_getElem? hgiven)
      rw [hderives] at hrefused
      cases hrefused
  | @ran derived outcome hderives hended =>
      rcases outcome with updates | failure | text
      · obtain ⟨refusal, hrefused, rfl⟩ := happends updates hsame.symm
        exact ⟨updates, refusal, hrefused, rfl, Or.inr ⟨derived, hderives, hended⟩⟩
      · obtain ⟨updates, hread, haccepted⟩ := @captured_accepted _ _ schema .mapBody derived captures
          (hmade.derive hderives) (Map.check_captures hchecked hpolicy) failure.display
        have htaken := (haccepted.appends rfl).2 site.state hmade
        have hcapturedOk : site.fields.itemOutcome site.state derived (.error failure) =
            .ok updates := by
          rw [Map.itemOutcome, hpolicy]
          dsimp only
          rw [hread]
          dsimp only
          rw [Superstep.checked, htaken]
        rw [hcapturedOk] at hsame
        cases hsame
      · cases hsame

end Captures

end MapSite

end LlmGraph.Superstep
