/- digest: What a step does to a forest of tokens, one kind of change at a time. -/

import LlmGraph.Contract.Cancel

set_option autoImplicit false
set_option relaxedAutoImplicit false

namespace LlmGraph.Contract.Cancel

/-- Nothing of a token has changed but its references, its waiters while it is not triggered, and
perhaps its link to its parent. -/
structure Shared.Like (next shared : Shared) : Prop where
  triggered : next.triggered = shared.triggered
  flag : next.inner.triggered = shared.inner.triggered
  children : next.inner.children = shared.inner.children
  origin : next.origin = shared.origin
  slots : shared.triggered = true → shared.inner.waiters.slots = [] →
    next.inner.waiters.slots = []

theorem Shared.Like.refl (shared : Shared) : shared.Like shared := ⟨rfl, rfl, rfl, rfl, fun _ h => h⟩

theorem Shared.Like.trans {last next shared : Shared} (hlater : last.Like next)
    (hfirst : next.Like shared) : last.Like shared where
  triggered := hlater.triggered.trans hfirst.triggered
  flag := hlater.flag.trans hfirst.flag
  children := hlater.children.trans hfirst.children
  origin := hlater.origin.trans hfirst.origin
  slots hmarked hquiet := hlater.slots (hfirst.triggered.trans hmarked) (hfirst.slots hmarked hquiet)

namespace Forest

variable {forest next later : Forest} {id : Id}

/-- What a step does to the forest, one constructor for each way in which tokens, calls and
references change. -/
inductive Move (forest : Forest) : Forest → Prop
  | grown (origin : Option Id)
      (habove : ∀ parent, origin = some parent → 0 < (forest.token parent).held ∧
        (forest.token parent).inner.triggered = true) :
      Move forest (forest.grow { Shared.build origin.isSome none with origin })
  | attached (parent : Id) (children : List Id) (liveChildren : UInt64)
      (hheld : 0 < (forest.token parent).held)
      (huntriggered : (forest.token parent).inner.triggered = false)
      (hkept : ∀ child ∈ (forest.token parent).inner.children, forest.Live child →
        child ∈ children)
      (hwithin : ∀ child ∈ children, child ∈ (forest.token parent).inner.children) :
      Move forest
        ((forest.grow { Shared.build false (some parent) with origin := some parent }).set parent
          { forest.token parent with
            liveChildren
            inner := { (forest.token parent).inner with children := children ++ [forest.next] } })
  | touched (token : Id → Shared) (futures : List Triggered) (dropping : List Drop)
      (hlike : ∀ id, (token id).Like (forest.token id))
      (hlinked : ∀ id, (token id).parent = (forest.token id).parent ∨
        .Token id ∈ forest.dropping ∧ (token id).parent = none)
      (hlive : ∀ id, Live { forest with token, futures, dropping } id → forest.Live id)
      (hgone : ∀ id, .Token id ∈ dropping → .Token id ∈ forest.dropping ∨
        forest.Live id ∧ ¬ Live { forest with token, futures, dropping } id) :
      Move forest { forest with token, futures, dropping }
  | started (target : Id) (hheld : 0 < (forest.token target).held) :
      Move forest { forest.setCall forest.started (.start target) with
        started := forest.started + 1 }
  | upgraded (index : Nat) (child : Id) (rest pending : List Id)
      (hbegun : index < forest.started)
      (hrunning : (forest.call index).returned = false)
      (hweak : (forest.call index).children = child :: rest)
      (hfiring : (forest.call index).fired ≠ none)
      (hstrong : ∀ id, id ∈ pending ↔
        id ∈ (forest.call index).pending ∨ id = child ∧ forest.Live child) :
      Move forest (forest.setCall index { forest.call index with pending, children := rest })
  | released (index : Nat) (fired : Id)
      (hbegun : index < forest.started)
      (hrunning : (forest.call index).returned = false)
      (hfiring : (forest.call index).fired = some fired)
      (hthrough : (forest.call index).children = []) :
      Move forest { forest.setCall index { forest.call index with fired := none } with
        dropping := forest.dropping ++ [.Reference fired] }
  | passed (index : Nat) (shared : Id) (pending : List Id)
      (hbegun : index < forest.started)
      (hrunning : (forest.call index).returned = false)
      (hidle : (forest.call index).fired = none)
      (hpopped : (forest.call index).pending = pending ++ [shared])
      (halready : (forest.token shared).inner.triggered = true) :
      Move forest (forest.setCall index
        { forest.call index with pending, fired := some shared, children := [] })
  | fired (index : Nat) (shared : Id) (pending : List Id)
      (hbegun : index < forest.started)
      (hrunning : (forest.call index).returned = false)
      (hidle : (forest.call index).fired = none)
      (hpopped : (forest.call index).pending = pending ++ [shared])
      (huntriggered : (forest.token shared).inner.triggered = false) :
      Move forest ((forest.set shared
        { forest.token shared with
          triggered := true
          inner := ⟨true, (forest.token shared).inner.waiters.drain.1, []⟩ }).setCall index
        { forest.call index with
          pending
          fired := some shared
          children := (forest.token shared).inner.children
          wakers := (forest.call index).wakers ++ (forest.token shared).inner.waiters.drain.2 })
  | returned (index : Nat)
      (hbegun : index < forest.started)
      (hrunning : (forest.call index).returned = false)
      (hidle : (forest.call index).fired = none)
      (hthrough : (forest.call index).pending = []) :
      Move forest { forest.setCall index { forest.call index with returned := true } with
        woken := forest.woken ++ (forest.call index).wakers }

section Steps

theorem live_held (hheld : 0 < (forest.token id).held) : forest.Live id := Or.inl hheld

private theorem live_future {future : Triggered} (hmember : future ∈ forest.futures) :
    forest.Live future.shared := Or.inr (Or.inr (Or.inl ⟨future, hmember, rfl⟩))

theorem live_reference (hmember : .Reference id ∈ forest.dropping) : forest.Live id :=
  Or.inr (Or.inr (Or.inr (Or.inr hmember)))

/-- Other futures and drops bring nothing back when they refer to what is alive. -/
private theorem Move.ofParts (futures : List Triggered) (dropping : List Drop)
    (hfutured : ∀ future ∈ futures, forest.Live future.shared)
    (hdropped : ∀ id, .Reference id ∈ dropping → forest.Live id)
    (hgone : ∀ id, .Token id ∈ dropping → .Token id ∈ forest.dropping ∨
      forest.Live id ∧ ¬ Live { forest with futures, dropping } id) :
    Move forest { forest with futures, dropping } := by
  refine .touched forest.token futures dropping (fun _ => .refl _) (fun _ => Or.inl rfl)
    (fun id halive => ?_) hgone
  rcases halive with hown | hlink | ⟨future, hmember, hhere⟩ | hwalked | hletting
  · exact Or.inl hown
  · exact Or.inr (Or.inl hlink)
  · exact hhere ▸ hfutured future hmember
  · exact Or.inr (Or.inr (Or.inr (Or.inl hwalked)))
  · exact hdropped id hletting

/-- `set` to a token like the one there, with other references. -/
private theorem Move.ofSet (shared : Shared) (futures : List Triggered) (dropping : List Drop)
    (hlike : shared.Like (forest.token id)) (hsame : shared.parent = (forest.token id).parent)
    (hheld : 0 < shared.held → forest.Live id)
    (hfutured : ∀ future ∈ futures, forest.Live future.shared)
    (hdropped : ∀ id, .Reference id ∈ dropping → forest.Live id)
    (hgone : ∀ other, .Token other ∈ dropping → .Token other ∈ forest.dropping) :
    Move forest { forest.set id shared with futures, dropping } := by
  refine .touched (forest.set id shared).token futures dropping (fun other => ?_) (fun other => ?_)
    (fun other halive => ?_) fun other hmember => Or.inl (hgone other hmember)
  · rw [set_token]
    split
    · rename_i hhere
      exact hhere ▸ hlike
    · exact .refl _
  · rw [set_token]
    split
    · rename_i hhere
      exact Or.inl (hhere ▸ hsame)
    · exact Or.inl rfl
  · rcases halive with hown | ⟨child, hbelow, hlink⟩ | ⟨future, hmember, hhere⟩ | hwalked | hletting
    · simp only [set_token] at hown
      split at hown
      · rename_i hhere
        exact hhere ▸ hheld hown
      · exact Or.inl hown
    · refine Or.inr (Or.inl ⟨child, hbelow, ?_⟩)
      simp only [set_token] at hlink
      split at hlink
      · rename_i hhere
        rw [hhere, ← hsame]
        exact hlink
      · exact hlink
    · exact hhere ▸ hfutured future hmember
    · exact Or.inr (Or.inr (Or.inr (Or.inl hwalked)))
    · exact hdropped other hletting

theorem isTriggered_eq_false (huntriggered : forest.isTriggered id = false) :
    (forest.token id).triggered = false := by
  unfold isTriggered climb at huntriggered
  split at huntriggered
  · cases huntriggered
  · rename_i hunmarked
    simpa using hunmarked

/-- A poll registers a waker on a token that is not triggered, or changes nothing. -/
private theorem move_poll {index : Nat} {future : Triggered} {waker : Waker}
    (hfound : forest.futures[index]? = some future) :
    Move forest { (forest.pollTriggered future.shared future.key waker).1 with
      futures := (forest.pollTriggered future.shared future.key waker).1.futures.set index
        { future with key := (forest.pollTriggered future.shared future.key waker).2.1 } } := by
  have halive : forest.Live future.shared := live_future (List.mem_of_getElem? hfound)
  have hfutured : ∀ key, ∀ other ∈ forest.futures.set index { future with key },
      forest.Live other.shared := by
    intro key other hmember
    rcases List.mem_or_eq_of_mem_set hmember with hold | hnew
    · exact live_future hold
    · rw [hnew]
      exact halive
  unfold pollTriggered
  split
  · exact .ofParts _ forest.dropping (hfutured future.key) (fun _ hmember => live_reference hmember)
      fun _ hmember => Or.inl hmember
  · rename_i hunready
    have hunmarked := isTriggered_eq_false (by simpa using hunready)
    refine .ofSet _ _ forest.dropping ⟨rfl, rfl, rfl, rfl, fun hmarked => ?_⟩ rfl live_held
      (hfutured _) (fun _ hmember => live_reference hmember) fun _ hmember => hmember
    rw [hunmarked] at hmarked
    cases hmarked

/-- A future that is dropped takes its waker out of the slots of its token. -/
private theorem move_dropFuture {index : Nat} {future : Triggered}
    (hfound : forest.futures[index]? = some future)
    (htaken : forest.step (.DropFuture index) = some next) :
    Move forest next := by
  have halive : forest.Live future.shared := live_future (List.mem_of_getElem? hfound)
  have hfutured : ∀ other ∈ forest.futures.eraseIdx index, forest.Live other.shared :=
    fun other hmember => live_future (List.mem_of_mem_eraseIdx hmember)
  have hdropped : ∀ id, .Reference id ∈ forest.dropping ++ [.Reference future.shared] →
      forest.Live id := by
    intro id hmember
    rcases List.mem_append.mp hmember with hold | hnew
    · exact live_reference hold
    · cases List.mem_singleton.mp hnew
      exact halive
  have hgone : ∀ id, .Token id ∈ forest.dropping ++ [.Reference future.shared] →
      .Token id ∈ forest.dropping := by
    intro id hmember
    rcases List.mem_append.mp hmember with hold | hnew
    · exact hold
    · cases List.mem_singleton.mp hnew
  simp only [step, hfound] at htaken
  cases htaken
  rcases future.key with _ | key
  · exact .ofParts _ _ hfutured hdropped fun id hmember => Or.inl (hgone id hmember)
  · refine .ofSet _ _ _ ⟨rfl, rfl, rfl, rfl, fun _ hquiet => ?_⟩ rfl live_held hfutured hdropped hgone
    simp [Waiters.remove, hquiet]

private theorem move_child (hheld : 0 < (forest.token id).held) : Move forest (forest.child id) := by
  unfold child
  dsimp only
  split
  · rename_i htriggered
    exact .grown (some id) fun parent hsame => by cases hsame; exact ⟨hheld, htriggered⟩
  · rename_i huntriggered
    refine .attached id _ _ hheld (by simpa using huntriggered) (fun child hmember halive => ?_)
      fun child hmember => ?_
    · split
      · exact List.mem_filter.mpr ⟨hmember, by simpa using halive⟩
      · exact hmember
    · split at hmember
      · exact List.mem_of_mem_filter hmember
      · exact hmember

private theorem move_walk {index : Nat} (hbegun : index < forest.started)
    (htaken : forest.walk index = some next) : Move forest next := by
  unfold walk at htaken
  dsimp only at htaken
  split at htaken
  · cases htaken
  · rename_i hunreturned
    have hrunning : (forest.call index).returned = false := by simpa using hunreturned
    split at htaken
    · rename_i fired child rest hfiring hweak
      cases htaken
      refine .upgraded index child rest _ hbegun hrunning hweak (by rw [hfiring]; simp) fun id => ?_
      split
      · rename_i halive
        simp [halive]
      · rename_i hdead
        simp [hdead]
    · rename_i fired hfiring hthrough
      cases htaken
      exact .released index fired hbegun hrunning hfiring hthrough
    · rename_i hidle
      split at htaken
      · rename_i shared hlast
        have hpopped := (List.dropLast_append_getLast? shared hlast).symm
        rcases hflag : (forest.token shared).inner.triggered with _ | _
        · simp only [fire, hflag] at htaken
          cases htaken
          exact .fired index shared _ hbegun hrunning hidle hpopped hflag
        · simp only [fire, hflag, if_true, List.append_nil] at htaken
          cases htaken
          exact .passed index shared _ hbegun hrunning hidle hpopped hflag
      · rename_i hnothing
        cases htaken
        exact .returned index hbegun hrunning hidle (List.getLast?_eq_none_iff.mp hnothing)

/-- `release_parent` changes the tokens alone: one loses its link, and no reference to it is held
that was not. -/
private theorem releaseParent_like (other : Id) :
    ((forest.releaseParent id).1.token other).Like (forest.token other) ∧
      (((forest.releaseParent id).1.token other).parent = (forest.token other).parent ∨
        other = id ∧ ((forest.releaseParent id).1.token other).parent = none) ∧
      ((forest.releaseParent id).1.token other).held = (forest.token other).held := by
  unfold releaseParent
  dsimp only
  split
  · exact ⟨.refl _, Or.inl rfl, rfl⟩
  · rename_i parent hlinked
    simp only [set_token]
    by_cases hhere : other = id
    · subst hhere
      by_cases hown : other = parent
      · simp [hown]
        exact ⟨rfl, rfl, rfl, rfl, fun _ hquiet => hquiet⟩
      · simp [hown]
        exact ⟨rfl, rfl, rfl, rfl, fun _ hquiet => hquiet⟩
    · by_cases habove : other = parent
      · subst habove
        simp [hhere]
        exact ⟨rfl, rfl, rfl, rfl, fun _ hquiet => hquiet⟩
      · simp [hhere, habove, Shared.Like.refl]

private theorem releaseParent_eq : forest.releaseParent id =
    ({ forest with token := (forest.releaseParent id).1.token }, (forest.token id).parent) := by
  unfold releaseParent
  dsimp only
  split
  · rename_i hunlinked
    rw [hunlinked]
  · rename_i parent hlinked
    rw [hlinked]
    rfl

private theorem move_letGo {index : Nat}
    (hknown : ∀ id parent, (forest.token id).parent = some parent → id < forest.next)
    (htaken : forest.letGo index = some next) : Move forest next := by
  have hfutured : ∀ future ∈ forest.futures, forest.Live future.shared :=
    fun future hmember => live_future hmember
  have hdropped : ∀ id, .Reference id ∈ forest.dropping.eraseIdx index → forest.Live id :=
    fun id hmember => live_reference (List.mem_of_mem_eraseIdx hmember)
  have hgone : ∀ id, .Token id ∈ forest.dropping.eraseIdx index → .Token id ∈ forest.dropping :=
    fun id hmember => List.mem_of_mem_eraseIdx hmember
  unfold letGo at htaken
  split at htaken
  · cases htaken
  · rename_i id hfound
    dsimp only at htaken
    split at htaken
    · cases htaken
      exact .ofParts _ _ hfutured hdropped fun id hmember => Or.inl (hgone id hmember)
    · rename_i hdead
      cases htaken
      refine .ofParts _ _ hfutured (fun id hmember => ?_) fun other hmember => ?_
      · rcases List.mem_append.mp hmember with hold | hnew
        · exact hdropped id hold
        · cases List.mem_singleton.mp hnew
      · rcases List.mem_append.mp hmember with hold | hnew
        · exact Or.inl (hgone other hold)
        · cases List.mem_singleton.mp hnew
          refine Or.inr ⟨live_reference (List.mem_of_getElem? hfound), fun halive => hdead ?_⟩
          rcases halive with hown | hlink | hfuture | hwalked | hletting
          · exact Or.inl hown
          · exact Or.inr (Or.inl hlink)
          · exact Or.inr (Or.inr (Or.inl hfuture))
          · exact Or.inr (Or.inr (Or.inr (Or.inl hwalked)))
          · rcases List.mem_append.mp hletting with hold | hnew
            · exact Or.inr (Or.inr (Or.inr (Or.inr hold)))
            · cases List.mem_singleton.mp hnew
  · rename_i id hfound
    have hdying : .Token id ∈ forest.dropping := List.mem_of_getElem? hfound
    dsimp only at htaken
    rw [releaseParent_eq] at htaken
    have hlike := @releaseParent_like { forest with dropping := forest.dropping.eraseIdx index } id
    generalize (releaseParent { forest with dropping := forest.dropping.eraseIdx index } id).1.token
      = token at hlike htaken
    have hreleased : ∀ dropping, (∀ id, .Reference id ∈ dropping → forest.Live id) →
        (∀ id, .Token id ∈ dropping → .Token id ∈ forest.dropping) →
        Move forest { forest with token, futures := forest.futures, dropping } := by
      intro dropping hreferred hgone
      refine .touched token _ dropping (fun other => (hlike other).1) (fun other => ?_)
        (fun other halive => ?_) fun other hmember => Or.inl (hgone other hmember)
      · rcases (hlike other).2.1 with hsame | ⟨rfl, hnone⟩
        · exact Or.inl hsame
        · exact Or.inr ⟨hdying, hnone⟩
      · rcases halive with hown | ⟨child, hbelow, hlink⟩ | hfuture | hwalked | hletting
        · have hsame : (token other).held = (forest.token other).held := (hlike other).2.2
          exact Or.inl (hsame ▸ hown)
        · refine Or.inr (Or.inl ⟨child, hbelow, ?_⟩)
          rcases (hlike child).2.1 with hsame | ⟨-, hnone⟩
          · exact hsame ▸ hlink
          · exact absurd (hnone.symm.trans hlink) (by simp)
        · exact Or.inr (Or.inr (Or.inl hfuture))
        · exact Or.inr (Or.inr (Or.inr (Or.inl hwalked)))
        · exact hreferred other hletting
    rcases hlinked : (forest.token id).parent with _ | parent
    · simp only [hlinked] at htaken
      cases htaken
      exact hreleased _ hdropped hgone
    · simp only [hlinked] at htaken
      cases htaken
      refine hreleased _ (fun other hmember => ?_) fun other hmember => ?_
      · rcases List.mem_append.mp hmember with hold | hnew
        · exact hdropped other hold
        · cases List.mem_singleton.mp hnew
          exact Or.inr (Or.inl ⟨id, hknown id parent hlinked, hlinked⟩)
      · rcases List.mem_append.mp hmember with hold | hnew
        · exact hgone other hold
        · cases List.mem_singleton.mp hnew

theorem step_move {action : Action}
    (hknown : ∀ id parent, (forest.token id).parent = some parent → id < forest.next)
    (htaken : forest.step action = some next) : Move forest next := by
  have hfutured : ∀ future ∈ forest.futures, forest.Live future.shared :=
    fun future hmember => live_future hmember
  have hdropped : ∀ id, .Reference id ∈ forest.dropping → forest.Live id :=
    fun id hmember => live_reference hmember
  cases action with
  | New =>
      cases htaken
      exact .grown none fun parent hsame => by cases hsame
  | Clone id =>
      simp only [step] at htaken
      split at htaken
      · rename_i hheld
        cases htaken
        exact .ofSet _ _ _ ⟨rfl, rfl, rfl, rfl, fun _ hquiet => hquiet⟩ rfl (fun _ => live_held hheld)
          hfutured hdropped fun _ hmember => hmember
      · cases htaken
  | DropHandle id =>
      simp only [step] at htaken
      split at htaken
      · rename_i hheld
        cases htaken
        refine .ofSet _ _ _ ⟨rfl, rfl, rfl, rfl, fun _ hquiet => hquiet⟩ rfl (fun _ => live_held hheld)
          hfutured (fun other hmember => ?_) fun other hmember => ?_
        · rcases List.mem_append.mp hmember with hold | hnew
          · exact live_reference hold
          · cases List.mem_singleton.mp hnew
            exact live_held hheld
        · rcases List.mem_append.mp hmember with hold | hnew
          · exact hold
          · cases List.mem_singleton.mp hnew
      · cases htaken
  | Child id =>
      simp only [step] at htaken
      split at htaken
      · rename_i hheld
        cases htaken
        exact move_child hheld
      · cases htaken
  | Triggered id =>
      simp only [step] at htaken
      split at htaken
      · rename_i hheld
        cases htaken
        refine .ofParts _ _ (fun future hmember => ?_) hdropped fun _ hmember => Or.inl hmember
        rcases List.mem_append.mp hmember with hold | hnew
        · exact live_future hold
        · cases List.mem_singleton.mp hnew
          exact live_held hheld
      · cases htaken
  | Poll index waker =>
      simp only [step] at htaken
      split at htaken
      · cases htaken
      · rename_i future hfound
        cases htaken
        exact move_poll hfound
  | DropFuture index =>
      rcases hfound : forest.futures[index]? with _ | future
      · simp [step, hfound] at htaken
      · exact move_dropFuture hfound htaken
  | Trigger id =>
      simp only [step] at htaken
      split at htaken
      · rename_i hheld
        cases htaken
        exact .started id hheld
      · cases htaken
  | Walk index =>
      simp only [step] at htaken
      split at htaken
      · rename_i hbegun
        exact move_walk hbegun htaken
      · cases htaken
  | LetGo index => exact move_letGo hknown htaken

end Steps

end Forest

end LlmGraph.Contract.Cancel
