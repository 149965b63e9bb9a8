/- digest: A batch of updates is applied all or nothing: what it leaves is well formed, and it is
   refused for a key set twice or for an update the state before it cannot take. -/

import LlmGraph.Superstep.Cursor
import LlmGraph.Superstep.Typing

set_option autoImplicit false
set_option relaxedAutoImplicit false

namespace LlmGraph.Superstep

variable {C : Type} [Conversation C] {schema : Schema C}

/-- What an update does to the conversation of its key. -/
def Update.push : Update C → Option (C → Except (Conversation.MessageError C) C)
  | .set _ _ | .append _ _ => none
  | .input _ given => some (Conversation.pushInput · given)
  | .pushTurn _ turn => some (Conversation.pushTurn · turn)
  | .pushStep _ turn step => some (Conversation.pushStep · turn step)
  | .pushResult _ turn result => some (Conversation.pushResult · turn result)

namespace State

/-- The loop of `apply_batch` over its working copy: the answer, and the copy where it stopped. -/
def applyEach (working : State C) : List (Update C) → Except (GraphError C) Unit × State C
  | [] => (.ok (), working)
  | update :: rest =>
      match working.applyOne update with
      | .ok next => next.applyEach rest
      | .error error => (.error error, working)

/-- `apply_batch` on the state it is called on: the answer, and the state it leaves there. -/
def applyBatchHere (state : State C) (updates : List (Update C)) :
    Except (GraphError C) Unit × State C :=
  match setConflict [] updates with
  | some key => (.error (.SetConflict key), state)
  | none =>
      match state.applyEach updates with
      | (.ok (), working) => (.ok (), working)
      | (.error error, _) => (.error error, state)

/-- Why a state does not take an update. -/
inductive Refuses (state : State C) : Update C → Prop
  | unknown (update : Update C) (hkey : state.kindOf update.key = none) : state.Refuses update
  | setKind (key : Key) (value : Value C) (kind : Kind) (hkind : state.kindOf key = some kind)
      (hvalue : value.matchesKind kind = false) : state.Refuses (.set key value)
  | appendNotList (key : Key) (value : Value C) (kind : Kind)
      (hkind : state.kindOf key = some kind) (hnotList : ∀ element, kind ≠ .list element) :
      state.Refuses (.append key value)
  | appendKind (key : Key) (value : Value C) (element : Kind)
      (hkind : state.kindOf key = some (.list element))
      (hvalue : value.matchesKind element = false) : state.Refuses (.append key value)
  | notConversation (update : Update C) (kind : Kind) (hpush : update.push.isSome = true)
      (hkind : state.kindOf update.key = some kind) (hother : kind ≠ .conversation) :
      state.Refuses update
  | message (update : Update C) (push : C → Except (Conversation.MessageError C) C)
      (conversation : C) (error : Conversation.MessageError C) (hpush : update.push = some push)
      (hheld : state.values update.key = some (.conversation conversation))
      (hrefused : push conversation = .error error) : state.Refuses update

end State

section One

variable {state : State C} (hmade : state.MadeFrom schema)

include hmade

/-- A declared list key holds a list, so the append that meets another value is never made. -/
theorem State.MadeFrom.holds_list {key : Key} {value : Value C}
    (hchecked : state.checkAppend key value = .ok ()) :
    ∃ items, state.values key = some (.list items) := by
  unfold State.checkAppend at hchecked
  rw [hmade.kindOf] at hchecked
  split at hchecked
  · rename_i element hdeclared
    obtain ⟨held, hheld, htyped⟩ := hmade.complete.holds key _ hdeclared
    cases held with
    | list items => exact ⟨items, hheld⟩
    | _ => exact absurd htyped (by simp [Value.matchesKind])
  · cases hchecked
  · cases hchecked

/-- A declared conversation key holds a conversation. -/
private theorem holds_conversation {key : Key} (hdeclared : state.kindOf key = some .conversation) :
    ∃ conversation, state.values key = some (.conversation conversation) := by
  rw [hmade.kindOf] at hdeclared
  obtain ⟨held, hheld, htyped⟩ := hmade.complete.holds key _ hdeclared
  cases held with
  | conversation conversation => exact ⟨conversation, hheld⟩
  | _ => exact absurd htyped (by simp [Value.matchesKind])

/-- A key of another kind holds no conversation. -/
private theorem holds_other {key : Key} {kind : Kind} (hdeclared : state.kindOf key = some kind)
    (hother : kind ≠ .conversation) (conversation : C) :
    state.values key ≠ some (.conversation conversation) := by
  intro hheld
  rw [hmade.kindOf] at hdeclared
  obtain ⟨held, hfound, htyped⟩ := hmade.complete.holds key _ hdeclared
  rw [hheld, Option.some.injEq] at hfound
  subst hfound
  cases kind with
  | conversation => exact hother rfl
  | _ => exact absurd htyped (by simp [Value.matchesKind])

omit hmade in
private theorem checkAppend_of {key : Key} {value : Value C} {element : Kind}
    (hkind : state.kindOf key = some (.list element))
    (hvalue : value.matchesKind element = true) : state.checkAppend key value = .ok () := by
  unfold State.checkAppend
  rw [hkind]
  exact if_pos hvalue

/-- An append that its check accepts is made. -/
theorem State.MadeFrom.append_ok {key : Key} {value : Value C}
    (hchecked : state.checkAppend key value = .ok ()) :
    ∃ next, state.applyOne (.append key value) = .ok next := by
  obtain ⟨items, hheld⟩ := hmade.holds_list hchecked
  refine ⟨state.insert key (.list (items ++ [value])), ?_⟩
  show state.applyAppend key value = _
  unfold State.applyAppend
  rw [hchecked, hheld]

omit hmade in
private theorem set_ok {key : Key} {value : Value C}
    (htakes : ¬state.Refuses (.set key value)) :
    ∃ next, state.applyOne (.set key value) = .ok next := by
  rcases hkind : state.kindOf key with _ | kind
  · exact absurd (.unknown _ hkind) htakes
  · rcases hvalue : value.matchesKind kind with _ | _
    · exact absurd (.setKind key value kind hkind hvalue) htakes
    · refine ⟨state.insert key value, ?_⟩
      show state.derive key value = _
      unfold State.derive
      rw [hkind]
      exact if_pos hvalue

private theorem append_ok_of_takes {key : Key} {value : Value C}
    (htakes : ¬state.Refuses (.append key value)) :
    ∃ next, state.applyOne (.append key value) = .ok next := by
  rcases hkind : state.kindOf key with _ | kind
  · exact absurd (.unknown _ hkind) htakes
  · by_cases hlist : ∃ element, kind = .list element
    · obtain ⟨element, rfl⟩ := hlist
      rcases hvalue : value.matchesKind element with _ | _
      · exact absurd (.appendKind key value element hkind hvalue) htakes
      · exact hmade.append_ok (checkAppend_of hkind hvalue)
    · exact absurd (.appendNotList key value kind hkind fun element hsame =>
        hlist ⟨element, hsame⟩) htakes

/-- A push to a conversation is made unless the library refuses it. -/
private theorem change_ok {update : Update C} {push : C → Except (Conversation.MessageError C) C}
    (hpush : update.push = some push) (htakes : ¬state.Refuses update) :
    ∃ next, state.changeConversation update.key push = .ok next := by
  rcases hkind : state.kindOf update.key with _ | kind
  · exact absurd (.unknown update hkind) htakes
  · by_cases hconversation : kind = .conversation
    · subst hconversation
      obtain ⟨conversation, hheld⟩ := holds_conversation hmade hkind
      rcases hpushed : push conversation with error | pushed
      · exact absurd (.message update push conversation error hpush hheld hpushed) htakes
      · refine ⟨state.insert update.key (.conversation pushed), ?_⟩
        simp only [State.changeConversation, hkind, hheld, hpushed]
    · exact absurd (.notConversation update kind (by rw [hpush]; rfl) hkind hconversation) htakes

/-- What a state takes, and what it refuses. -/
theorem State.MadeFrom.applyOne_error_iff (update : Update C) :
    (∃ error, state.applyOne update = .error error) ↔ state.Refuses update := by
  constructor
  · rintro ⟨error, hfailed⟩
    by_contra htakes
    have hdone : ∃ next, state.applyOne update = .ok next := by
      cases update with
      | set key value => exact set_ok htakes
      | append key value => exact append_ok_of_takes hmade htakes
      | input | pushTurn | pushStep | pushResult => exact change_ok hmade rfl htakes
    obtain ⟨next, hnext⟩ := hdone
    rw [hfailed] at hnext
    cases hnext
  · intro hrefuses
    cases hrefuses with
    | unknown _ hkey =>
      cases update with
      | set key value =>
        have hnone : state.kindOf key = none := hkey
        exact ⟨_, by show state.derive key value = _; unfold State.derive; rw [hnone]⟩
      | append key value =>
        have hnone : state.kindOf key = none := hkey
        exact ⟨_, by
          show state.applyAppend key value = _
          unfold State.applyAppend State.checkAppend
          rw [hnone]⟩
      | input key _ | pushTurn key _ | pushStep key _ _ | pushResult key _ _ =>
        have hnone : state.kindOf key = none := hkey
        exact ⟨_, by
          show state.changeConversation key _ = _
          unfold State.changeConversation
          rw [hnone]⟩
    | setKind key value kind hkind hvalue =>
      refine ⟨.KindMismatch key kind value.tag, ?_⟩
      show state.derive key value = _
      unfold State.derive
      rw [hkind]
      exact if_neg (by rw [hvalue]; exact Bool.false_ne_true)
    | appendNotList key value kind hkind hnotList =>
      refine ⟨.AppendNotList key, ?_⟩
      show state.applyAppend key value = _
      unfold State.applyAppend State.checkAppend
      rw [hkind]
      cases kind with
      | list element => exact absurd rfl (hnotList element)
      | _ => rfl
    | appendKind key value element hkind hvalue =>
      refine ⟨.KindMismatch key element value.tag, ?_⟩
      show state.applyAppend key value = _
      unfold State.applyAppend State.checkAppend
      simp only [hkind, hvalue, Bool.false_eq_true, if_false]
    | notConversation _ kind hpush hkind hother =>
      have hno := holds_other hmade hkind hother
      have hchange (push : C → Except (Conversation.MessageError C) C) :
          state.changeConversation update.key push = .error (.NotConversation update.key) := by
        unfold State.changeConversation
        rw [hkind]
        dsimp only
        split
        · rename_i conversation hheld
          exact absurd hheld (hno conversation)
        · rfl
      cases update with
      | set | append => cases hpush
      | input | pushTurn | pushStep | pushResult => exact ⟨_, hchange _⟩
    | message _ push conversation error hpush hheld hrefused =>
      have hdeclared : ∃ kind, state.kindOf update.key = some kind := by
        rcases hkind : state.kindOf update.key with _ | kind
        · rw [hmade.kindOf] at hkind
          rw [hmade.complete.others _ hkind] at hheld
          cases hheld
        · exact ⟨kind, rfl⟩
      obtain ⟨kind, hkind⟩ := hdeclared
      have hchange : state.changeConversation update.key push = .error (.Message error) := by
        simp only [State.changeConversation, hkind, hheld, hrefused]
      cases update with
      | set | append => cases hpush
      | input | pushTurn | pushStep | pushResult =>
        cases hpush
        exact ⟨_, hchange⟩

end One

/-- Updates are applied one after another until one is refused. -/
theorem State.MadeFrom.applyAll_error_iff {state : State C} (hmade : state.MadeFrom schema)
    (updates : List (Update C)) :
    (∃ error, updates.foldlM State.applyOne state = .error error) ↔
      ∃ before update after middle, updates = before ++ update :: after ∧
        before.foldlM State.applyOne state = .ok middle ∧ middle.Refuses update := by
  induction updates generalizing state with
  | nil =>
    constructor
    · rintro ⟨error, himpossible⟩
      cases himpossible
    · rintro ⟨before, update, after, middle, hsplit, -⟩
      cases before <;> cases hsplit
  | cons first rest ih =>
    rcases hfirst : state.applyOne first with error | next
    · rw [List.foldlM_cons, hfirst]
      refine ⟨fun _ => ⟨[], first, rest, state, rfl, rfl, ?_⟩, fun _ => ⟨error, rfl⟩⟩
      exact (hmade.applyOne_error_iff first).mp ⟨error, hfirst⟩
    · have hrest := ih (hmade.applyOne hfirst)
      rw [List.foldlM_cons, hfirst]
      refine hrest.trans ⟨?_, ?_⟩
      · rintro ⟨before, update, after, middle, rfl, happlied, hrefuses⟩
        refine ⟨first :: before, update, after, middle, rfl, ?_, hrefuses⟩
        rw [List.foldlM_cons, hfirst]
        exact happlied
      · rintro ⟨before, update, after, middle, hsplit, happlied, hrefuses⟩
        cases before with
        | nil =>
          cases hsplit
          cases happlied
          obtain ⟨error, hfailed⟩ := (hmade.applyOne_error_iff first).mpr hrefuses
          rw [hfirst] at hfailed
          cases hfailed
        | cons head before =>
          cases hsplit
          rw [List.foldlM_cons, hfirst] at happlied
          exact ⟨before, update, after, middle, rfl, happlied, hrefuses⟩

/-- A key is set twice. -/
def SetsTwice (updates : List (Update C)) : Prop :=
  ∃ before key first between second after,
    updates = before ++ .set key first :: between ++ .set key second :: after

private theorem setConflict_some_iff (seen : List Key) (updates : List (Update C)) :
    (∃ key, State.setConflict seen updates = some key) ↔
      (∃ key ∈ seen, ∃ before value after, updates = before ++ .set key value :: after) ∨
        SetsTwice updates := by
  induction updates generalizing seen with
  | nil =>
    constructor
    · rintro ⟨key, himpossible⟩
      cases himpossible
    · rintro (⟨key, -, before, value, after, hsplit⟩ | ⟨before, key, _, _, _, _, hsplit⟩)
      · cases before <;> cases hsplit
      · cases before <;> cases hsplit
  | cons update rest ih =>
    have hpass : (∀ key value, update ≠ .set key value) →
        ((∃ key ∈ seen, ∃ before value after, update :: rest = before ++ .set key value :: after) ∨
            SetsTwice (update :: rest) ↔
          (∃ key ∈ seen, ∃ before value after, rest = before ++ .set key value :: after) ∨
            SetsTwice rest) := by
      intro hother
      constructor
      · rintro (⟨key, hseen, before, value, after, hsplit⟩ |
          ⟨before, key, first, between, second, after, hsplit⟩)
        · cases before with
          | nil =>
            cases hsplit
            exact absurd rfl (hother _ _)
          | cons head before =>
            cases hsplit
            exact .inl ⟨key, hseen, before, value, after, rfl⟩
        · cases before with
          | nil =>
            cases hsplit
            exact absurd rfl (hother _ _)
          | cons head before =>
            cases hsplit
            exact .inr ⟨before, key, first, between, second, after, rfl⟩
      · rintro (⟨key, hseen, before, value, after, rfl⟩ |
          ⟨before, key, first, between, second, after, rfl⟩)
        · exact .inl ⟨key, hseen, update :: before, value, after, rfl⟩
        · exact .inr ⟨update :: before, key, first, between, second, after, rfl⟩
    cases update with
    | set key value =>
      rw [State.setConflict]
      by_cases hseen : key ∈ seen
      · rw [if_pos hseen]
        exact ⟨fun _ => .inl ⟨key, hseen, [], value, rest, rfl⟩, fun _ => ⟨key, rfl⟩⟩
      · rw [if_neg hseen, ih]
        constructor
        · rintro (⟨other, hmem, before, own, after, rfl⟩ |
            ⟨before, other, first, between, second, after, rfl⟩)
          · rcases List.mem_cons.mp hmem with rfl | hearlier
            · exact .inr ⟨[], other, value, before, own, after, rfl⟩
            · exact .inl ⟨other, hearlier, .set key value :: before, own, after, rfl⟩
          · exact .inr ⟨.set key value :: before, other, first, between, second, after, rfl⟩
        · rintro (⟨other, hmem, before, own, after, hsplit⟩ |
            ⟨before, other, first, between, second, after, hsplit⟩)
          · cases before with
            | nil =>
              cases hsplit
              exact absurd hmem hseen
            | cons head before =>
              cases hsplit
              exact .inl ⟨other, List.mem_cons_of_mem _ hmem, before, own, after, rfl⟩
          · cases before with
            | nil =>
              cases hsplit
              exact .inl ⟨key, List.mem_cons_self, between, second, after, rfl⟩
            | cons head before =>
              cases hsplit
              exact .inr ⟨before, other, first, between, second, after, rfl⟩
    | append | input | pushTurn | pushStep | pushResult =>
      exact (ih seen).trans (hpass (by simp)).symm

/-- The loop over the working copy, where every update is taken. -/
private theorem applyEach_ok {state next : State C} {updates : List (Update C)}
    (happlied : updates.foldlM State.applyOne state = .ok next) :
    state.applyEach updates = (.ok (), next) := by
  induction updates generalizing state with
  | nil =>
    cases happlied
    rfl
  | cons update rest ih =>
    rw [List.foldlM_cons] at happlied
    unfold State.applyEach
    rcases hfirst : state.applyOne update with error | middle
    · rw [hfirst] at happlied
      cases happlied
    · rw [hfirst] at happlied
      exact ih happlied

/-- The loop over the working copy, where some update is refused. -/
private theorem applyEach_error {state : State C} {updates : List (Update C)}
    {error : GraphError C} (hrefused : updates.foldlM State.applyOne state = .error error) :
    ∃ working, state.applyEach updates = (.error error, working) := by
  induction updates generalizing state with
  | nil => cases hrefused
  | cons update rest ih =>
    rw [List.foldlM_cons] at hrefused
    unfold State.applyEach
    rcases hfirst : state.applyOne update with failure | middle
    · rw [hfirst] at hrefused
      cases hrefused
      exact ⟨state, rfl⟩
    · rw [hfirst] at hrefused
      exact ih hrefused

/-- The batch in place: the next state, or the refusal and the state as it was. -/
theorem State.applyBatchHere_eq (state : State C) (updates : List (Update C)) :
    state.applyBatchHere updates = match state.applyBatch updates with
      | .ok next => (.ok (), next)
      | .error error => (.error error, state) := by
  unfold State.applyBatchHere State.applyBatch
  rcases State.setConflict [] updates with _ | key
  · rcases happlied : updates.foldlM State.applyOne state with error | next
    · obtain ⟨working, hended⟩ := applyEach_error happlied
      rw [hended]
    · rw [applyEach_ok happlied]
  · rfl

/-- A check of an append reads nothing but the schema. -/
private theorem checkAppend_kept {state next : State C} (hmade : state.MadeFrom schema)
    (hnext : next.MadeFrom schema) (key : Key) (value : Value C) :
    next.checkAppend key value = state.checkAppend key value := by
  unfold State.checkAppend
  rw [hmade.kindOf, hnext.kindOf]

/-- Appends that a state checked are all made. -/
private theorem appends_ok {state : State C} (hmade : state.MadeFrom schema)
    {appends : List (Key × Value C)}
    (hchecked : ∀ entry ∈ appends, state.checkAppend entry.1 entry.2 = .ok ()) :
    ∃ next, (appends.map fun entry => Update.append entry.1 entry.2).foldlM State.applyOne state =
      .ok next := by
  induction appends generalizing state with
  | nil => exact ⟨state, rfl⟩
  | cons entry rest ih =>
    obtain ⟨hfirst, hrest⟩ := List.forall_mem_cons.mp hchecked
    obtain ⟨middle, happlied⟩ := hmade.append_ok hfirst
    have hmiddle := hmade.applyOne happlied
    obtain ⟨next, hlater⟩ := ih hmiddle fun other hother => by
      rw [checkAppend_kept hmade hmiddle]
      exact hrest other hother
    refine ⟨next, ?_⟩
    rw [List.map_cons, List.foldlM_cons, happlied]
    exact hlater

private theorem setConflict_appends (appends : List (Key × Value C)) :
    State.setConflict [] (appends.map fun entry => Update.append entry.1 entry.2) = none := by
  induction appends with
  | nil => rfl
  | cons entry rest ih => exact ih

/-- A batch on a state made from its schema.  Where it is taken, the next state is one again and is
what the updates give one after another; where it is refused, the state is left as it was.  It is
refused exactly where a key is set twice, or where some update is not one that the state after
those before it takes.  An append its check accepts always meets a list, and a batch of appends the
state checked is taken. -/
theorem batches_all_or_nothing {state : State C} (hmade : state.MadeFrom schema)
    (updates : List (Update C)) :
    (∀ next, state.applyBatch updates = .ok next →
      next.MadeFrom schema ∧ updates.foldlM State.applyOne state = .ok next ∧
        state.applyBatchHere updates = (.ok (), next)) ∧
    (∀ error, state.applyBatch updates = .error error →
      state.applyBatchHere updates = (.error error, state)) ∧
    ((∃ error, state.applyBatch updates = .error error) ↔
      SetsTwice updates ∨ ∃ before update after middle, updates = before ++ update :: after ∧
        before.foldlM State.applyOne state = .ok middle ∧ middle.Refuses update) ∧
    (∀ (before : List (Update C)) (middle : State C) (key : Key) (value : Value C),
      before.foldlM State.applyOne state = .ok middle → middle.checkAppend key value = .ok () →
        ∃ items, middle.values key = some (.list items) ∧
          middle.applyOne (.append key value) =
            .ok (middle.insert key (.list (items ++ [value])))) ∧
    ∀ appends : List (Key × Value C),
      (∀ entry ∈ appends, state.checkAppend entry.1 entry.2 = .ok ()) →
        ∃ next, state.applyBatch (appends.map fun entry => .append entry.1 entry.2) = .ok next := by
  refine ⟨?_, ?_, ⟨?_, ?_⟩, ?_, ?_⟩
  · intro next htaken
    refine ⟨hmade.applyBatch htaken, ?_, ?_⟩
    · unfold State.applyBatch at htaken
      split at htaken
      · cases htaken
      · exact htaken
    · rw [State.applyBatchHere_eq, htaken]
  · intro error hrefused
    rw [State.applyBatchHere_eq, hrefused]
  · rintro ⟨error, hrefused⟩
    rcases hconflict : State.setConflict [] updates with _ | key
    · rw [State.applyBatch, hconflict] at hrefused
      exact .inr ((hmade.applyAll_error_iff updates).mp ⟨error, hrefused⟩)
    · rcases (setConflict_some_iff [] updates).mp ⟨key, hconflict⟩ with ⟨_, hseen, -⟩ | htwice
      · cases hseen
      · exact .inl htwice
  · intro hreason
    rcases hconflict : State.setConflict [] updates with _ | key
    · rcases hreason with htwice | hrefuses
      · obtain ⟨key, hsome⟩ := (setConflict_some_iff [] updates).mpr (.inr htwice)
        rw [hconflict] at hsome
        cases hsome
      · rw [State.applyBatch, hconflict]
        exact (hmade.applyAll_error_iff updates).mpr hrefuses
    · rw [State.applyBatch, hconflict]
      exact ⟨.SetConflict key, rfl⟩
  · intro before middle key value happlied hchecked
    obtain ⟨items, hheld⟩ := (hmade.applyAll happlied).holds_list hchecked
    refine ⟨items, hheld, ?_⟩
    show middle.applyAppend key value = _
    unfold State.applyAppend
    rw [hchecked, hheld]
  · intro appends hchecked
    rw [State.applyBatch, setConflict_appends]
    exact appends_ok hmade hchecked

/-- A state of the schema of the fork: an item that is set and an element that is appended. -/
theorem batches_all_or_nothing_fork : ∃ state : State Unit, state.MadeFrom Fork.schema ∧
    ∃ next, state.applyBatch [.set "item" (.str "x"), .append "outs" (.str "y")] = .ok next ∧
      next.MadeFrom Fork.schema := by
  rcases hnew : State.new Fork.schema [("chat", .conversation ()), ("item", .str ""),
    ("items", .list []), ("outs", .list [])] with error | state
  · cases hnew
  · have hmade := State.new_made hnew
    cases hnew
    refine ⟨_, hmade, _, rfl, ?_⟩
    have hkept := (batches_all_or_nothing hmade
      [.set "item" (.str "x"), .append "outs" (.str "y")]).1
    exact (hkept _ rfl).1

end LlmGraph.Superstep
