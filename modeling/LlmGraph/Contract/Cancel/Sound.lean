/- digest: What holds of every forest of tokens: how the tokens hang together, what the calls of
   trigger have left to reach, and that nothing comes back to life. -/

import LlmGraph.Contract.Cancel.Moves

set_option autoImplicit false
set_option relaxedAutoImplicit false

namespace LlmGraph.Contract.Cancel

open Relation (ReflTransGen)

namespace Forest

variable {forest next later : Forest} {id : Id}

/-- What holds of every forest that the program can reach. -/
structure Sound (forest : Forest) : Prop where
  flags : ∀ id, (forest.token id).triggered = (forest.token id).inner.triggered
  fresh : ∀ id, forest.next ≤ id → (forest.token id).Like (.build false none)
  range : ∀ id, forest.Live id → id < forest.next
  parents : ∀ id parent, (forest.token id).parent = some parent →
    (forest.token id).origin = some parent
  origins : ∀ id parent, (forest.token id).origin = some parent → parent < id ∧
    ((forest.token id).parent = some parent ∨ (forest.token id).triggered = true ∨ ¬ forest.Live id)
  lists : ∀ parent, ∀ id ∈ (forest.token parent).inner.children,
    (forest.token id).origin = some parent
  listed : ∀ id parent, (forest.token id).parent = some parent → forest.Live id →
    (forest.token parent).triggered = false → id ∈ (forest.token parent).inner.children
  reached : ∀ id parent, (forest.token id).parent = some parent → forest.Live id →
    (forest.token parent).triggered = true → (forest.token id).triggered = true ∨
      ∃ index < forest.started, (forest.call index).returned = false ∧
        (id ∈ (forest.call index).pending ∨ id ∈ (forest.call index).children)
  quiet : ∀ id, (forest.token id).triggered = true → (forest.token id).inner.waiters.slots = []
  cause : ∀ id, (forest.token id).triggered = true →
    ∃ index < forest.started, forest.Descends (forest.call index).target id
  walks : ∀ index < forest.started, ∀ id,
    id ∈ (forest.call index).pending ∨ id ∈ (forest.call index).children →
      forest.Descends (forest.call index).target id
  target : ∀ index < forest.started, (forest.call index).target ∈ (forest.call index).pending ∨
    (forest.token (forest.call index).target).triggered = true
  idle : ∀ index < forest.started, (forest.call index).fired = none →
    (forest.call index).children = []
  ended : ∀ index < forest.started, (forest.call index).returned = true →
    (forest.call index).pending = [] ∧ (forest.call index).children = [] ∧
      ∀ waker ∈ (forest.call index).wakers, waker ∈ forest.woken
  gone : ∀ id, .Token id ∈ forest.dropping → id < forest.next ∧ ¬ forest.Live id

namespace Sound

variable (hsound : forest.Sound)

include hsound

theorem known (id parent : Id) (hlinked : (forest.token id).parent = some parent) :
    id < forest.next := by
  by_contra hbeyond
  have hnone := (hsound.fresh id (Nat.le_of_not_lt hbeyond)).origin
  rw [hsound.parents id parent hlinked] at hnone
  cases hnone

theorem known_of_origin {id parent : Id} (hmade : (forest.token id).origin = some parent) :
    id < forest.next := by
  by_contra hbeyond
  have hnone := (hsound.fresh id (Nat.le_of_not_lt hbeyond)).origin
  rw [hmade] at hnone
  cases hnone

theorem known_of_triggered {id : Id} (htriggered : (forest.token id).triggered = true) :
    id < forest.next := by
  by_contra hbeyond
  have hnone := (hsound.fresh id (Nat.le_of_not_lt hbeyond)).triggered
  rw [htriggered] at hnone
  cases hnone

end Sound

theorem sound_empty : empty.Sound where
  flags _ := rfl
  fresh _ _ := .refl _
  range id halive := by
    rcases halive with hown | ⟨_, hbelow, _⟩ | ⟨_, hmember, _⟩ | ⟨_, hbelow, _⟩ | hmember
    · exact absurd hown (by simp [empty, Shared.build])
    · exact absurd hbelow (by simp [empty])
    · cases hmember
    · exact absurd hbelow (by simp [empty])
    · cases hmember
  parents _ _ hlinked := by cases hlinked
  origins _ _ hmade := by cases hmade
  lists _ _ hmember := by cases hmember
  listed _ _ hlinked := by cases hlinked
  reached _ _ hlinked := by cases hlinked
  quiet _ htriggered := by cases htriggered
  cause _ htriggered := by cases htriggered
  walks _ hbegun := by cases hbegun
  target _ hbegun := by cases hbegun
  idle _ hbegun := by cases hbegun
  ended _ hbegun := by cases hbegun
  gone _ hmember := by cases hmember

/-- What refers to tokens that are alive keeps no others alive. -/
private theorem live_of_holders {call : Nat → Call} {dropping : List Drop} {woken : List Waker}
    (hholds : ∀ index < forest.started, ∀ id, (call index).Holds id → forest.Live id)
    (hreferred : ∀ id, .Reference id ∈ dropping → forest.Live id)
    (halive : Live { forest with call, dropping, woken } id) : forest.Live id := by
  rcases halive with hown | hlink | hfuture | ⟨index, hbelow, hheld⟩ | hletting
  · exact Or.inl hown
  · exact Or.inr (Or.inl hlink)
  · exact Or.inr (Or.inr (Or.inl hfuture))
  · exact hholds index hbelow id hheld
  · exact hreferred id hletting

theorem live_holds {index : Nat} (hbegun : index < forest.started)
    (hholds : (forest.call index).Holds id) : forest.Live id :=
  Or.inr (Or.inr (Or.inr (Or.inl ⟨index, hbegun, hholds⟩)))

/-- The calls hold what is alive when the one that went on does. -/
private theorem holds_setCall {index : Nat} {call : Call}
    (hown : ∀ id, call.Holds id → forest.Live id) (other : Nat) (hbegun : other < forest.started)
    (id : Id) (hholds : ((forest.setCall index call).call other).Holds id) : forest.Live id := by
  rw [setCall_call] at hholds
  split at hholds
  · exact hown id hholds
  · exact live_holds hbegun hholds

/-- Nothing comes back to life: what a step leaves alive was alive, or is new. -/
theorem Move.live (hmove : Move forest next) (hsound : forest.Sound) (halive : next.Live id) :
    forest.Live id ∨ id = forest.next ∧ forest.next < next.next := by
  cases hmove with
  | grown origin habove =>
      by_cases hnew : id = forest.next
      · exact Or.inr ⟨hnew, Nat.lt_succ_self _⟩
      · refine Or.inl ?_
        rcases halive with hown | ⟨child, hbelow, hlink⟩ | hfuture | hwalked | hletting
        · rw [grow_token, if_neg hnew] at hown
          exact Or.inl hown
        · rw [grow_token] at hlink
          split at hlink
          · cases hlink
          · rename_i hold
            exact Or.inr (Or.inl ⟨child, Nat.lt_of_le_of_ne (Nat.le_of_lt_succ hbelow) hold, hlink⟩)
        · exact Or.inr (Or.inr (Or.inl hfuture))
        · exact Or.inr (Or.inr (Or.inr (Or.inl hwalked)))
        · exact Or.inr (Or.inr (Or.inr (Or.inr hletting)))
  | attached parent children liveChildren hheld huntriggered hkept hwithin =>
      have hbefore := hsound.range parent (Or.inl hheld)
      by_cases hnew : id = forest.next
      · exact Or.inr ⟨hnew, Nat.lt_succ_self _⟩
      · refine Or.inl ?_
        rcases halive with hown | ⟨child, hbelow, hlink⟩ | hfuture | hwalked | hletting
        · rw [set_token] at hown
          split at hown
          · rename_i hhere
            exact hhere ▸ Or.inl hheld
          · rw [grow_token, if_neg hnew] at hown
            exact Or.inl hown
        · rw [set_token] at hlink
          split at hlink
          · exact Or.inr (Or.inl ⟨parent, hbefore, hlink⟩)
          · rw [grow_token] at hlink
            split at hlink
            · cases hlink
              exact Or.inl hheld
            · rename_i hold
              exact Or.inr
                (Or.inl ⟨child, Nat.lt_of_le_of_ne (Nat.le_of_lt_succ hbelow) hold, hlink⟩)
        · exact Or.inr (Or.inr (Or.inl hfuture))
        · exact Or.inr (Or.inr (Or.inr (Or.inl hwalked)))
        · exact Or.inr (Or.inr (Or.inr (Or.inr hletting)))
  | touched token futures dropping hlike hlinked hlive hgone => exact Or.inl (hlive id halive)
  | started target hheld =>
      refine Or.inl ?_
      rcases halive with hown | hlink | hfuture | ⟨index, hbelow, hholds⟩ | hletting
      · exact Or.inl hown
      · exact Or.inr (Or.inl hlink)
      · exact Or.inr (Or.inr (Or.inl hfuture))
      · rw [setCall_call] at hholds
        split at hholds
        · rcases hholds with hpending | hfired
          · cases List.mem_singleton.mp hpending
            exact Or.inl hheld
          · cases hfired
        · have hwithin : index < forest.started + 1 := hbelow
          exact live_holds (by omega) hholds
      · exact Or.inr (Or.inr (Or.inr (Or.inr hletting)))
  | upgraded index child rest pending hbegun hrunning hweak hfiring hstrong =>
      refine Or.inl (live_of_holders (holds_setCall fun other hholds => ?_)
        (fun _ hmember => live_reference hmember) halive)
      rcases hholds with hpending | hfired
      · rcases (hstrong other).mp hpending with hold | ⟨rfl, hupgraded⟩
        · exact live_holds hbegun (Or.inl hold)
        · exact hupgraded
      · exact live_holds hbegun (Or.inr hfired)
  | released index fired hbegun hrunning hfiring hthrough =>
      refine Or.inl (live_of_holders (holds_setCall fun other hholds => ?_) (fun other hmember => ?_)
        halive)
      · rcases hholds with hpending | hfired
        · exact live_holds hbegun (Or.inl hpending)
        · cases hfired
      · rcases List.mem_append.mp hmember with hold | hnew
        · exact live_reference hold
        · cases List.mem_singleton.mp hnew
          exact live_holds hbegun (Or.inr hfiring)
  | passed index shared pending hbegun hrunning hidle hpopped halready =>
      refine Or.inl (live_of_holders (holds_setCall fun other hholds => ?_)
        (fun _ hmember => live_reference hmember) halive)
      refine live_holds hbegun (Or.inl ?_)
      rw [hpopped]
      rcases hholds with hlater | hfired
      · exact List.mem_append_left _ hlater
      · cases hfired
        exact List.mem_append_right _ List.mem_cons_self
  | fired index shared pending hbegun hrunning hidle hpopped huntriggered =>
      refine Or.inl ?_
      have hown : ∀ other, Call.Holds { forest.call index with
          pending, fired := some shared, children := (forest.token shared).inner.children,
          wakers := (forest.call index).wakers ++ (forest.token shared).inner.waiters.drain.2 }
          other → forest.Live other := by
        intro other hholds
        refine live_holds hbegun (Or.inl ?_)
        rw [hpopped]
        rcases hholds with hlater | hfired
        · exact List.mem_append_left _ hlater
        · cases hfired
          exact List.mem_append_right _ List.mem_cons_self
      rcases halive with hheld | ⟨child, hbelow, hlink⟩ | hfuture | ⟨other, hbelow, hholds⟩ | hletting
      · rw [setCall_token, set_token] at hheld
        split at hheld
        · rename_i hhere
          exact hhere ▸ Or.inl hheld
        · exact Or.inl hheld
      · rw [setCall_token, set_token] at hlink
        split at hlink
        · rename_i hhere
          exact Or.inr (Or.inl ⟨child, hbelow, hhere ▸ hlink⟩)
        · exact Or.inr (Or.inl ⟨child, hbelow, hlink⟩)
      · exact Or.inr (Or.inr (Or.inl hfuture))
      · exact holds_setCall hown other hbelow id hholds
      · exact live_reference hletting
  | returned index hbegun hrunning hidle hthrough =>
      have hown : ∀ other, Call.Holds { forest.call index with returned := true } other →
          forest.Live other := fun other hholds => live_holds hbegun hholds
      exact Or.inl (live_of_holders (holds_setCall hown) (fun _ hmember => live_reference hmember)
        halive)

/-- A token keeps its origin. -/
theorem Move.origin (hmove : Move forest next) (hsound : forest.Sound) {parent : Id}
    (hmade : (forest.token id).origin = some parent) : (next.token id).origin = some parent := by
  have hold : id ≠ forest.next := Nat.ne_of_lt (hsound.known_of_origin hmade)
  cases hmove with
  | grown origin habove =>
      rw [grow_token, if_neg hold]
      exact hmade
  | attached above children liveChildren hheld huntriggered hkept hwithin =>
      rw [set_token]
      split
      · rename_i hhere
        exact hhere ▸ hmade
      · rw [grow_token, if_neg hold]
        exact hmade
  | touched token futures dropping hlike hlinked hlive hgone => exact (hlike id).origin.trans hmade
  | fired index shared pending hbegun hrunning hidle hpopped huntriggered =>
      rw [setCall_token, set_token]
      split
      · rename_i hhere
        exact hhere ▸ hmade
      · exact hmade
  | started | upgraded | released | passed | returned => exact hmade

theorem Move.descends (hmove : Move forest next) (hsound : forest.Sound) {ancestor : Id}
    (hbelow : forest.Descends ancestor id) : next.Descends ancestor id :=
  ReflTransGen.mono (fun _ _ hmade => hmove.origin hsound hmade) _ _ hbelow

/-- A token that is triggered stays so. -/
theorem Move.triggered (hmove : Move forest next) (hsound : forest.Sound)
    (htriggered : (forest.token id).triggered = true) : (next.token id).triggered = true := by
  have hold : id ≠ forest.next := Nat.ne_of_lt (hsound.known_of_triggered htriggered)
  cases hmove with
  | grown origin habove =>
      rw [grow_token, if_neg hold]
      exact htriggered
  | attached above children liveChildren hheld huntriggered hkept hwithin =>
      rw [set_token]
      split
      · rename_i hhere
        exact hhere ▸ htriggered
      · rw [grow_token, if_neg hold]
        exact htriggered
  | touched token futures dropping hlike hlinked hlive hgone =>
      exact (hlike id).triggered.trans htriggered
  | fired index shared pending hbegun hrunning hidle hpopped huntriggered =>
      rw [setCall_token, set_token]
      split
      · rfl
      · exact htriggered
  | started | upgraded | released | passed | returned => exact htriggered

section Preserved

variable (hsound : forest.Sound)

include hsound

private theorem sound_grown {origin : Option Id}
    (habove : ∀ parent, origin = some parent → 0 < (forest.token parent).held ∧
      (forest.token parent).inner.triggered = true) :
    (forest.grow { Shared.build origin.isSome none with origin }).Sound := by
  have hmove := Move.grown origin habove
  generalize hmade : { Shared.build origin.isSome none with origin } = shared at hmove ⊢
  have hapart : ∀ {id}, id ≠ forest.next → (forest.grow shared).token id = forest.token id :=
    fun hold => by rw [grow_token, if_neg hold]
  have hnew : (forest.grow shared).token forest.next = shared.fromShared := by
    rw [grow_token, if_pos rfl]
  refine ⟨fun id => ?_, fun id hbeyond => ?_, fun id halive => ?_, fun id parent hlinked => ?_,
    fun id parent hchild => ?_, fun parent id hmember => ?_,
      fun id parent hlinked halive hunmarked => ?_,
    fun id parent hlinked halive hmarked => ?_, fun id hmarked => ?_, fun id hmarked => ?_,
    fun index hbegun id hwaiting => hmove.descends hsound (hsound.walks index hbegun id hwaiting),
    fun index hbegun => ?_, hsound.idle, hsound.ended, fun id hdying => ?_⟩
  · by_cases hhere : id = forest.next
    · rw [hhere, hnew, ← hmade]
      rfl
    · rw [hapart hhere]
      exact hsound.flags id
  · have hold : id ≠ forest.next := fun hhere => by
      rw [hhere] at hbeyond
      exact absurd hbeyond (Nat.not_succ_le_self _)
    rw [hapart hold]
    exact hsound.fresh id (Nat.le_of_succ_le hbeyond)
  · rcases hmove.live hsound halive with hbefore | ⟨hhere, -⟩
    · exact Nat.lt_succ_of_lt (hsound.range id hbefore)
    · exact hhere ▸ Nat.lt_succ_self _
  · by_cases hhere : id = forest.next
    · rw [hhere, hnew, ← hmade] at hlinked
      cases hlinked
    · rw [hapart hhere] at hlinked ⊢
      exact hsound.parents id parent hlinked
  · by_cases hhere : id = forest.next
    · rw [hhere, hnew, ← hmade] at hchild ⊢
      have hsame : origin = some parent := hchild
      refine ⟨hsound.range parent (Or.inl (habove parent hsame).1), Or.inr (Or.inl ?_)⟩
      rw [hsame]
      rfl
    · rw [hapart hhere] at hchild ⊢
      obtain ⟨hbelow, hkept⟩ := hsound.origins id parent hchild
      refine ⟨hbelow, hkept.imp_right fun hkept => hkept.imp_right fun hdead halive => hdead ?_⟩
      exact (hmove.live hsound halive).resolve_right fun hfresh => hhere hfresh.1
  · by_cases hhere : parent = forest.next
    · rw [hhere, hnew, ← hmade] at hmember
      cases hmember
    · rw [hapart hhere] at hmember
      have hchild := hsound.lists parent id hmember
      exact hmove.origin hsound hchild
  · have hhere : id ≠ forest.next := fun hhere => by
      rw [hhere, hnew, ← hmade] at hlinked
      cases hlinked
    rw [hapart hhere] at hlinked
    have hold : parent ≠ forest.next := Nat.ne_of_lt (Nat.lt_trans
      (hsound.origins id parent (hsound.parents id parent hlinked)).1 (hsound.known id parent hlinked))
    rw [hapart hold] at hunmarked ⊢
    exact hsound.listed id parent hlinked
      ((hmove.live hsound halive).resolve_right fun hfresh => hhere hfresh.1) hunmarked
  · have hhere : id ≠ forest.next := fun hhere => by
      rw [hhere, hnew, ← hmade] at hlinked
      cases hlinked
    rw [hapart hhere] at hlinked ⊢
    have hold : parent ≠ forest.next := Nat.ne_of_lt (Nat.lt_trans
      (hsound.origins id parent (hsound.parents id parent hlinked)).1 (hsound.known id parent hlinked))
    rw [hapart hold] at hmarked
    exact hsound.reached id parent hlinked
      ((hmove.live hsound halive).resolve_right fun hfresh => hhere hfresh.1) hmarked
  · by_cases hhere : id = forest.next
    · rw [hhere, hnew, ← hmade]
      rfl
    · rw [hapart hhere] at hmarked ⊢
      exact hsound.quiet id hmarked
  · by_cases hhere : id = forest.next
    · rw [hhere, hnew, ← hmade] at hmarked
      obtain ⟨parent, hsame⟩ := Option.isSome_iff_exists.mp hmarked
      have hflagged := (hsound.flags parent).trans (habove parent hsame).2
      obtain ⟨index, hbegun, hbelow⟩ := hsound.cause parent hflagged
      refine ⟨index, hbegun, (hmove.descends hsound hbelow).tail ?_⟩
      rw [hhere, hnew, ← hmade]
      exact hsame
    · rw [hapart hhere] at hmarked
      obtain ⟨index, hbegun, hbelow⟩ := hsound.cause id hmarked
      exact ⟨index, hbegun, hmove.descends hsound hbelow⟩
  · exact (hsound.target index hbegun).imp_right (hmove.triggered hsound)
  · obtain ⟨hknown, hdead⟩ := hsound.gone id hdying
    refine ⟨Nat.lt_succ_of_lt hknown, fun halive => hdead ?_⟩
    exact (hmove.live hsound halive).resolve_right fun hfresh => absurd hfresh.1 (Nat.ne_of_lt hknown)

private theorem sound_attached {above : Id} {children : List Id} {liveChildren : UInt64}
    (hheld : 0 < (forest.token above).held)
    (huntriggered : (forest.token above).inner.triggered = false)
    (hkept : ∀ child ∈ (forest.token above).inner.children, forest.Live child → child ∈ children)
    (hwithin : ∀ child ∈ children, child ∈ (forest.token above).inner.children) :
    ((forest.grow { Shared.build false (some above) with origin := some above }).set above
      { forest.token above with
        liveChildren
        inner := { (forest.token above).inner with children := children ++ [forest.next] } }).Sound
      := by
  have hmove := Move.attached above children liveChildren hheld huntriggered hkept hwithin
  have hbefore : above < forest.next := hsound.range above (Or.inl hheld)
  have hunmarked : (forest.token above).triggered = false := (hsound.flags above).trans huntriggered
  have hnew : ((forest.grow { Shared.build false (some above) with origin := some above }).set above
      { forest.token above with
        liveChildren
        inner := { (forest.token above).inner with children := children ++ [forest.next] }
          }).token forest.next =
      ({ Shared.build false (some above) with origin := some above } : Shared).fromShared := by
    rw [set_token, if_neg (Nat.ne_of_gt hbefore), grow_token, if_pos rfl]
  have hold : ∀ id, id ≠ forest.next →
      ((forest.grow { Shared.build false (some above) with origin := some above }).set above
        { forest.token above with
          liveChildren
          inner := { (forest.token above).inner with children := children ++ [forest.next] }
            }).token id =
      if id = above then { forest.token above with
          liveChildren
          inner := { (forest.token above).inner with children := children ++ [forest.next] } }
      else forest.token id := by
    intro id hother
    rw [set_token, grow_token, if_neg hother]
  generalize hresult : Forest.set _ above _ = next at hmove hnew hold ⊢
  have hstarted : next.started = forest.started := by rw [← hresult]; rfl
  have hcall : next.call = forest.call := by rw [← hresult]; rfl
  have hdropping : next.dropping = forest.dropping := by rw [← hresult]; rfl
  have hwoken : next.woken = forest.woken := by rw [← hresult]; rfl
  have hgrown : next.next = forest.next + 1 := by rw [← hresult]; rfl
  have hsame : ∀ id, id ≠ forest.next → (next.token id).triggered = (forest.token id).triggered ∧
      (next.token id).inner.triggered = (forest.token id).inner.triggered ∧
      (next.token id).parent = (forest.token id).parent ∧
      (next.token id).origin = (forest.token id).origin ∧
      (next.token id).inner.waiters = (forest.token id).inner.waiters := by
    intro id hother
    rw [hold id hother]
    split
    · rename_i hhere
      subst hhere
      exact ⟨rfl, rfl, rfl, rfl, rfl⟩
    · exact ⟨rfl, rfl, rfl, rfl, rfl⟩
  have haliveBefore : ∀ id, id ≠ forest.next → next.Live id → forest.Live id :=
    fun id hother halive => (hmove.live hsound halive).resolve_right fun hfresh => hother hfresh.1
  refine ⟨fun id => ?_, fun id hbeyond => ?_, fun id halive => ?_, fun id parent hlinked => ?_,
    fun id parent hchild => ?_, fun parent id hmember => ?_,
      fun id parent hlinked halive hunmarked => ?_,
    fun id parent hlinked halive hmarked => ?_, fun id hmarked => ?_, fun id hmarked => ?_,
    fun index hbegun id hwaiting => ?_, fun index hbegun => ?_, ?_, ?_, fun id hdying => ?_⟩
  · by_cases hhere : id = forest.next
    · rw [hhere, hnew]
      rfl
    · rw [(hsame id hhere).1, (hsame id hhere).2.1]
      exact hsound.flags id
  · rw [hgrown] at hbeyond
    have hfar : id ≠ forest.next := Nat.ne_of_gt (Nat.lt_of_succ_le hbeyond)
    have hother : id ≠ above := Nat.ne_of_gt (Nat.lt_trans hbefore (Nat.lt_of_succ_le hbeyond))
    rw [hold id hfar, if_neg hother]
    exact hsound.fresh id (Nat.le_of_succ_le hbeyond)
  · rw [hgrown]
    rcases hmove.live hsound halive with hbefore | ⟨hhere, -⟩
    · exact Nat.lt_succ_of_lt (hsound.range id hbefore)
    · exact hhere ▸ Nat.lt_succ_self _
  · by_cases hhere : id = forest.next
    · rw [hhere, hnew] at hlinked ⊢
      exact hlinked
    · rw [(hsame id hhere).2.2.1] at hlinked
      rw [(hsame id hhere).2.2.2.1]
      exact hsound.parents id parent hlinked
  · by_cases hhere : id = forest.next
    · rw [hhere, hnew] at hchild ⊢
      have hown : some above = some parent := hchild
      cases hown
      exact ⟨hbefore, Or.inl rfl⟩
    · rw [(hsame id hhere).2.2.2.1] at hchild
      rw [(hsame id hhere).2.2.1, (hsame id hhere).1]
      obtain ⟨hbelow, hkept⟩ := hsound.origins id parent hchild
      exact ⟨hbelow, hkept.imp_right fun hkept => hkept.imp_right fun hdead halive =>
        hdead (haliveBefore id hhere halive)⟩
  · by_cases hhere : parent = forest.next
    · rw [hhere, hnew] at hmember
      cases hmember
    · rw [hold parent hhere] at hmember
      split at hmember
      · rename_i hown
        rcases List.mem_append.mp hmember with hlisted | hadded
        · exact hmove.origin hsound (hown ▸ hsound.lists above id (hwithin id hlisted))
        · rw [List.mem_singleton.mp hadded, hnew, hown]
          rfl
      · exact hmove.origin hsound (hsound.lists parent id hmember)
  · by_cases hhere : id = forest.next
    · rw [hhere, hnew] at hlinked
      have hown : some above = some parent := hlinked
      cases hown
      rw [hhere, hold above (Nat.ne_of_lt hbefore), if_pos rfl]
      exact List.mem_append_right _ List.mem_cons_self
    · rw [(hsame id hhere).2.2.1] at hlinked
      have hfar : parent ≠ forest.next := Nat.ne_of_lt (Nat.lt_trans
        (hsound.origins id parent (hsound.parents id parent hlinked)).1
        (hsound.known id parent hlinked))
      rw [(hsame parent hfar).1] at hunmarked
      have hlisted := hsound.listed id parent hlinked (haliveBefore id hhere halive) hunmarked
      rw [hold parent hfar]
      split
      · rename_i hown
        exact List.mem_append_left _ (hkept id (hown ▸ hlisted) (haliveBefore id hhere halive))
      · exact hlisted
  · by_cases hhere : id = forest.next
    · rw [hhere, hnew] at hlinked
      have hown : some above = some parent := hlinked
      cases hown
      rw [(hsame above (Nat.ne_of_lt hbefore)).1, hunmarked] at hmarked
      cases hmarked
    · rw [(hsame id hhere).2.2.1] at hlinked
      have hfar : parent ≠ forest.next := Nat.ne_of_lt (Nat.lt_trans
        (hsound.origins id parent (hsound.parents id parent hlinked)).1
        (hsound.known id parent hlinked))
      rw [(hsame parent hfar).1] at hmarked
      rw [(hsame id hhere).1, hstarted, hcall]
      exact hsound.reached id parent hlinked (haliveBefore id hhere halive) hmarked
  · by_cases hhere : id = forest.next
    · rw [hhere, hnew]
      rfl
    · rw [(hsame id hhere).1] at hmarked
      rw [(hsame id hhere).2.2.2.2]
      exact hsound.quiet id hmarked
  · by_cases hhere : id = forest.next
    · rw [hhere, hnew] at hmarked
      cases hmarked
    · rw [(hsame id hhere).1] at hmarked
      obtain ⟨index, hbegun, hbelow⟩ := hsound.cause id hmarked
      rw [hstarted, hcall]
      exact ⟨index, hbegun, hmove.descends hsound hbelow⟩
  · rw [hstarted] at hbegun
    rw [hcall] at hwaiting ⊢
    exact hmove.descends hsound (hsound.walks index hbegun id hwaiting)
  · rw [hstarted] at hbegun
    rw [hcall]
    exact (hsound.target index hbegun).imp_right (hmove.triggered hsound)
  · rw [hstarted, hcall]
    exact hsound.idle
  · rw [hstarted, hcall, hwoken]
    exact hsound.ended
  · rw [hdropping] at hdying
    rw [hgrown]
    obtain ⟨hknown, hdead⟩ := hsound.gone id hdying
    exact ⟨Nat.lt_succ_of_lt hknown, fun halive =>
      hdead (haliveBefore id (Nat.ne_of_lt hknown) halive)⟩

private theorem sound_touched {token : Id → Shared} {futures : List Triggered}
    {dropping : List Drop} (hlike : ∀ id, (token id).Like (forest.token id))
    (hlinked : ∀ id, (token id).parent = (forest.token id).parent ∨
      .Token id ∈ forest.dropping ∧ (token id).parent = none)
    (hlive : ∀ id, Live { forest with token, futures, dropping } id → forest.Live id)
    (hgone : ∀ id, .Token id ∈ dropping → .Token id ∈ forest.dropping ∨
      forest.Live id ∧ ¬ Live { forest with token, futures, dropping } id) :
    Sound { forest with token, futures, dropping } := by
  have hmove := Move.touched token futures dropping hlike hlinked hlive hgone
  have hlink : ∀ {id parent}, (token id).parent = some parent →
      (forest.token id).parent = some parent := by
    intro id parent hhere
    rcases hlinked id with hsame | ⟨-, hnone⟩
    · exact hsame ▸ hhere
    · rw [hhere] at hnone
      cases hnone
  exact
    { flags := fun id => ((hlike id).triggered.trans (hsound.flags id)).trans (hlike id).flag.symm
      fresh := fun id hbeyond => (hlike id).trans (hsound.fresh id hbeyond)
      range := fun id halive => hsound.range id (hlive id halive)
      parents := fun id parent hhere => (hlike id).origin.trans
        (hsound.parents id parent (hlink hhere))
      origins := fun id parent hmade => by
        obtain ⟨hbelow, hkept⟩ := hsound.origins id parent ((hlike id).origin.symm.trans hmade)
        refine ⟨hbelow, ?_⟩
        rcases hkept with hattached | hmarked | hdead
        · rcases hlinked id with hsame | ⟨hdying, -⟩
          · exact Or.inl (hsame.trans hattached)
          · exact Or.inr (Or.inr fun halive => (hsound.gone id hdying).2 (hlive id halive))
        · exact Or.inr (Or.inl ((hlike id).triggered.trans hmarked))
        · exact Or.inr (Or.inr fun halive => hdead (hlive id halive))
      lists := fun parent id hmember => (hlike id).origin.trans
        (hsound.lists parent id ((hlike parent).children ▸ hmember))
      listed := fun id parent hhere halive hunmarked => (hlike parent).children ▸
        hsound.listed id parent (hlink hhere) (hlive id halive) ((hlike parent).triggered ▸ hunmarked)
      reached := fun id parent hhere halive hmarked =>
        (hsound.reached id parent (hlink hhere) (hlive id halive)
          ((hlike parent).triggered ▸ hmarked)).imp_left (hlike id).triggered.trans
      quiet := fun id hmarked => (hlike id).slots ((hlike id).triggered ▸ hmarked)
        (hsound.quiet id ((hlike id).triggered ▸ hmarked))
      cause := fun id hmarked => by
        obtain ⟨index, hbegun, hbelow⟩ := hsound.cause id ((hlike id).triggered ▸ hmarked)
        exact ⟨index, hbegun, hmove.descends hsound hbelow⟩
      walks := fun index hbegun id hwaiting =>
        hmove.descends hsound (hsound.walks index hbegun id hwaiting)
      target := fun index hbegun => (hsound.target index hbegun).imp_right (hmove.triggered hsound)
      idle := hsound.idle
      ended := hsound.ended
      gone := fun id hdying => by
        rcases hgone id hdying with hold | ⟨hbefore, hdead⟩
        · exact ⟨(hsound.gone id hold).1, fun halive => (hsound.gone id hold).2 (hlive id halive)⟩
        · exact ⟨hsound.range id hbefore, hdead⟩ }

private theorem sound_started {target : Id} (hheld : 0 < (forest.token target).held) :
    Sound { forest.setCall forest.started (.start target) with
      started := forest.started + 1 } := by
  have hmove := Move.started target hheld
  have hlive : ∀ {id}, Live _ id → forest.Live id := fun {id} halive =>
    (@Move.live _ _ id hmove hsound halive).resolve_right fun hfresh => absurd hfresh.2
    (Nat.lt_irrefl _)
  have hold : ∀ {index}, index < forest.started →
      (forest.setCall forest.started (.start target)).call index = forest.call index :=
    fun hbegun => by rw [setCall_call, if_neg (Nat.ne_of_lt hbegun)]
  have hnew : (forest.setCall forest.started (.start target)).call forest.started =
      .start target := by rw [setCall_call, if_pos rfl]
  have hcalls : ∀ {index}, index < forest.started + 1 →
      index < forest.started ∨ index = forest.started := fun hbegun =>
    Nat.lt_or_eq_of_le (Nat.le_of_lt_succ hbegun)
  exact
    { hsound with
      range := fun id halive => hsound.range id (hlive halive)
      origins := fun id parent hmade => (hsound.origins id parent hmade).imp_right fun hkept =>
        hkept.imp_right fun hkept => hkept.imp_right fun hdead halive => hdead (hlive halive)
      listed := fun id parent hlinked halive => hsound.listed id parent hlinked (hlive halive)
      reached := fun id parent hlinked halive hmarked => by
        refine (hsound.reached id parent hlinked (hlive halive) hmarked).imp_right ?_
        rintro ⟨index, hbegun, hwaiting⟩
        refine ⟨index, Nat.lt_succ_of_lt hbegun, ?_⟩
        rw [hold hbegun]
        exact hwaiting
      cause := fun id hmarked => by
        obtain ⟨index, hbegun, hbelow⟩ := hsound.cause id hmarked
        refine ⟨index, Nat.lt_succ_of_lt hbegun, ?_⟩
        rw [hold hbegun]
        exact hbelow
      walks := fun index hbegun id hwaiting => by
        rcases hcalls hbegun with hearlier | rfl
        · rw [hold hearlier] at hwaiting ⊢
          exact hsound.walks index hearlier id hwaiting
        · rw [hnew] at hwaiting ⊢
          rcases hwaiting with hpending | hchild
          · rw [List.mem_singleton.mp hpending]
            exact .refl
          · cases hchild
      target := fun index hbegun => by
        rcases hcalls hbegun with hearlier | rfl
        · rw [hold hearlier]
          exact hsound.target index hearlier
        · rw [hnew]
          exact Or.inl List.mem_cons_self
      idle := fun index hbegun hidle => by
        rcases hcalls hbegun with hearlier | rfl
        · rw [hold hearlier] at hidle ⊢
          exact hsound.idle index hearlier hidle
        · rw [hnew]
          rfl
      ended := fun index hbegun hreturned => by
        rcases hcalls hbegun with hearlier | rfl
        · rw [hold hearlier] at hreturned ⊢
          exact hsound.ended index hearlier hreturned
        · rw [hnew] at hreturned
          cases hreturned
      gone := fun id hdying => (hsound.gone id hdying).imp_right fun hdead halive => hdead
        (hlive halive) }

/-- A call that goes on, when nothing that it had to reach is left out and it reaches nothing but
descendants of its target. -/
private theorem sound_walked {index : Nat} {call : Call} {dropping : List Drop}
    {woken : List Waker}
    (hmove : Move forest { forest.setCall index call with dropping, woken })
    (hbegun : index < forest.started)
    (hsame : call.target = (forest.call index).target)
    (hcovers : ∀ id, forest.Live id → id ∈ (forest.call index).pending ∨
      id ∈ (forest.call index).children → (forest.token id).triggered = true ∨
        call.returned = false ∧ (id ∈ call.pending ∨ id ∈ call.children))
    (hwithin : ∀ id, id ∈ call.pending ∨ id ∈ call.children →
      id ∈ (forest.call index).pending ∨ id ∈ (forest.call index).children)
    (htarget : (forest.call index).target ∈ (forest.call index).pending →
      (forest.call index).target ∈ call.pending ∨
        (forest.token (forest.call index).target).triggered = true)
    (hidle : call.fired = none → call.children = [])
    (hended : call.returned = true → call.pending = [] ∧ call.children = [] ∧
      ∀ waker ∈ call.wakers, waker ∈ woken)
    (hmore : ∀ waker ∈ forest.woken, waker ∈ woken)
    (hgone : ∀ id, .Token id ∈ dropping → .Token id ∈ forest.dropping) :
    Sound { forest.setCall index call with dropping, woken } := by
  have hlive : ∀ {id}, Live { forest.setCall index call with dropping, woken } id →
      forest.Live id := fun {id} halive =>
    (@Move.live _ _ id hmove hsound halive).resolve_right fun hfresh => absurd hfresh.2
    (Nat.lt_irrefl _)
  have hhere : (forest.setCall index call).call index = call := by rw [setCall_call, if_pos rfl]
  have hapart : ∀ {other}, other ≠ index →
      (forest.setCall index call).call other = forest.call other :=
    fun hother => by rw [setCall_call, if_neg hother]
  exact
    { hsound with
      range := fun id halive => hsound.range id (hlive halive)
      origins := fun id parent hmade => (hsound.origins id parent hmade).imp_right fun hkept =>
        hkept.imp_right fun hkept => hkept.imp_right fun hdead halive => hdead (hlive halive)
      listed := fun id parent hlinked halive => hsound.listed id parent hlinked (hlive halive)
      reached := fun id parent hlinked halive hmarked => by
        rcases hsound.reached id parent hlinked (hlive halive) hmarked with hdone |
          ⟨other, hstarted, hwait⟩
        · exact Or.inl hdone
        · by_cases hown : other = index
          · subst hown
            refine (hcovers id (hlive halive) hwait.2).imp_right fun hwaiting => ⟨other, hstarted, ?_⟩
            rw [hhere]
            exact hwaiting
          · refine Or.inr ⟨other, hstarted, ?_⟩
            rw [hapart hown]
            exact hwait
      cause := fun id hmarked => by
        obtain ⟨other, hstarted, hbelow⟩ := hsound.cause id hmarked
        refine ⟨other, hstarted, ?_⟩
        by_cases hown : other = index
        · subst hown
          rw [hhere, hsame]
          exact hbelow
        · rw [hapart hown]
          exact hbelow
      walks := fun other hstarted id hwaiting => by
        by_cases hown : other = index
        · subst hown
          rw [hhere] at hwaiting ⊢
          rw [hsame]
          exact hsound.walks other hstarted id (hwithin id hwaiting)
        · rw [hapart hown] at hwaiting ⊢
          exact hsound.walks other hstarted id hwaiting
      target := fun other hstarted => by
        by_cases hown : other = index
        · subst hown
          rw [hhere, hsame]
          exact (hsound.target other hstarted).elim htarget Or.inr
        · rw [hapart hown]
          exact hsound.target other hstarted
      idle := fun other hstarted hresting => by
        by_cases hown : other = index
        · subst hown
          rw [hhere] at hresting ⊢
          exact hidle hresting
        · rw [hapart hown] at hresting ⊢
          exact hsound.idle other hstarted hresting
      ended := fun other hstarted hreturned => by
        by_cases hown : other = index
        · subst hown
          rw [hhere] at hreturned ⊢
          exact hended hreturned
        · rw [hapart hown] at hreturned ⊢
          obtain ⟨hpending, hchildren, hwakers⟩ := hsound.ended other hstarted hreturned
          exact ⟨hpending, hchildren, fun waker hmember => hmore waker (hwakers waker hmember)⟩
      gone := fun id hdying => (hsound.gone id (hgone id hdying)).imp_right fun hdead halive =>
        hdead (hlive halive) }

private theorem sound_fired {index : Nat} {shared : Id} {pending : List Id}
    (hbegun : index < forest.started) (hrunning : (forest.call index).returned = false)
    (hidle : (forest.call index).fired = none)
    (hpopped : (forest.call index).pending = pending ++ [shared])
    (huntriggered : (forest.token shared).inner.triggered = false) :
    ((forest.set shared
      { forest.token shared with
        triggered := true
        inner := ⟨true, (forest.token shared).inner.waiters.drain.1, []⟩ }).setCall index
      { forest.call index with
        pending
        fired := some shared
        children := (forest.token shared).inner.children
        wakers := (forest.call index).wakers ++
          (forest.token shared).inner.waiters.drain.2 }).Sound := by
  have hmove := Move.fired index shared pending hbegun hrunning hidle hpopped huntriggered
  have hlast : shared ∈ (forest.call index).pending := by
    rw [hpopped]
    exact List.mem_append_right _ List.mem_cons_self
  have hearlier : ∀ {id}, id ∈ pending → id ∈ (forest.call index).pending := fun hmember => by
    rw [hpopped]
    exact List.mem_append_left _ hmember
  have hunmarked : (forest.token shared).triggered = false :=
    (hsound.flags shared).trans huntriggered
  have hknown : shared < forest.next := hsound.range shared (live_holds hbegun (Or.inl hlast))
  have hthere : ∀ id, ((forest.set shared
      { forest.token shared with
        triggered := true
        inner := ⟨true, (forest.token shared).inner.waiters.drain.1, []⟩ }).setCall index
      { forest.call index with
        pending
        fired := some shared
        children := (forest.token shared).inner.children
        wakers := (forest.call index).wakers ++
          (forest.token shared).inner.waiters.drain.2 }).token id =
      if id = shared then { forest.token shared with
        triggered := true
        inner := ⟨true, (forest.token shared).inner.waiters.drain.1, []⟩ } else forest.token id :=
    fun id => set_token forest shared id _
  have hcall : ∀ other, ((forest.set shared
      { forest.token shared with
        triggered := true
        inner := ⟨true, (forest.token shared).inner.waiters.drain.1, []⟩ }).setCall index
      { forest.call index with
        pending
        fired := some shared
        children := (forest.token shared).inner.children
        wakers := (forest.call index).wakers ++
          (forest.token shared).inner.waiters.drain.2 }).call other =
      if other = index then { forest.call index with
        pending
        fired := some shared
        children := (forest.token shared).inner.children
        wakers := (forest.call index).wakers ++
          (forest.token shared).inner.waiters.drain.2 } else forest.call other :=
    fun other => setCall_call _ index _ other
  generalize hresult : (Forest.setCall _ index _) = next at hmove hthere hcall ⊢
  have hstarted : next.started = forest.started := by rw [← hresult]; rfl
  have hdropping : next.dropping = forest.dropping := by rw [← hresult]; rfl
  have hwoken : next.woken = forest.woken := by rw [← hresult]; rfl
  have hsize : next.next = forest.next := by rw [← hresult]; rfl
  have hlive : ∀ {id}, next.Live id → forest.Live id := fun {id} halive =>
    (@Move.live _ _ id hmove hsound halive).resolve_right fun hfresh => by
      rw [hsize] at hfresh
      exact absurd hfresh.2 (Nat.lt_irrefl _)
  have hsame : ∀ id, (next.token id).parent = (forest.token id).parent ∧
      (next.token id).origin = (forest.token id).origin := by
    intro id
    rw [hthere id]
    split
    · rename_i hhere
      subst hhere
      exact ⟨rfl, rfl⟩
    · exact ⟨rfl, rfl⟩
  have hmarked : (next.token shared).triggered = true := by
    rw [hthere, if_pos rfl]
  have hapart : ∀ {id}, id ≠ shared → next.token id = forest.token id := fun hother => by
    rw [hthere, if_neg hother]
  refine ⟨fun id => ?_, fun id hbeyond => ?_, fun id halive => ?_, fun id parent hlinked => ?_,
    fun id parent hchild => ?_, fun parent id hmember => ?_,
      fun id parent hlinked halive hunfired => ?_,
    fun id parent hlinked halive hfired => ?_, fun id hfired => ?_, fun id hfired => ?_,
    fun other hearlier id hwaiting => ?_, fun other hearlier => ?_, fun other hearlier hresting => ?_,
    fun other hearlier hreturned => ?_, fun id hdying => ?_⟩
  · by_cases hhere : id = shared
    · rw [hhere, hthere, if_pos rfl]
    · rw [hapart hhere]
      exact hsound.flags id
  · rw [hsize] at hbeyond
    have hfar : id ≠ shared := Nat.ne_of_gt (Nat.lt_of_lt_of_le hknown hbeyond)
    rw [hapart hfar]
    exact hsound.fresh id hbeyond
  · rw [hsize]
    exact hsound.range id (hlive halive)
  · rw [(hsame id).1] at hlinked
    rw [(hsame id).2]
    exact hsound.parents id parent hlinked
  · rw [(hsame id).2] at hchild
    rw [(hsame id).1]
    obtain ⟨hbelow, hkept⟩ := hsound.origins id parent hchild
    refine ⟨hbelow, hkept.imp_right fun hkept => ?_⟩
    exact hkept.imp (hmove.triggered hsound) fun hdead halive => hdead (hlive halive)
  · rw [(hsame id).2]
    by_cases hhere : parent = shared
    · rw [hhere, hthere, if_pos rfl] at hmember
      cases hmember
    · rw [hapart hhere] at hmember
      exact hsound.lists parent id hmember
  · rw [(hsame id).1] at hlinked
    have hother : parent ≠ shared := fun hhere => by
      rw [hhere, hmarked] at hunfired
      cases hunfired
    rw [hapart hother] at hunfired ⊢
    exact hsound.listed id parent hlinked (hlive halive) hunfired
  · rw [(hsame id).1] at hlinked
    rw [hstarted]
    by_cases hhere : parent = shared
    · rw [hhere] at hlinked
      refine Or.inr ⟨index, hbegun, ?_⟩
      rw [hcall, if_pos rfl]
      exact ⟨hrunning, Or.inr (hsound.listed id shared hlinked (hlive halive) hunmarked)⟩
    · rw [hapart hhere] at hfired
      rcases hsound.reached id parent hlinked (hlive halive) hfired with hdone |
        ⟨other, hbefore, hwait⟩
      · exact Or.inl (hmove.triggered hsound hdone)
      · by_cases hown : other = index
        · subst hown
          rcases hwait.2 with hwaiting | hchild
          · rw [hpopped] at hwaiting
            rcases List.mem_append.mp hwaiting with hlater | hnow
            · refine Or.inr ⟨other, hbefore, ?_⟩
              rw [hcall, if_pos rfl]
              exact ⟨hrunning, Or.inl hlater⟩
            · rw [List.mem_singleton.mp hnow]
              exact Or.inl hmarked
          · rw [hsound.idle other hbegun hidle] at hchild
            cases hchild
        · refine Or.inr ⟨other, hbefore, ?_⟩
          rw [hcall, if_neg hown]
          exact hwait
  · by_cases hhere : id = shared
    · rw [hhere, hthere, if_pos rfl]
      rfl
    · rw [hapart hhere] at hfired ⊢
      exact hsound.quiet id hfired
  · have htarget : ∀ other, (next.call other).target = (forest.call other).target := by
      intro other
      rw [hcall]
      split
      · rename_i hhere
        rw [hhere]
      · rfl
    rw [hstarted]
    by_cases hhere : id = shared
    · refine ⟨index, hbegun, ?_⟩
      rw [htarget, hhere]
      exact hmove.descends hsound (hsound.walks index hbegun shared (Or.inl hlast))
    · rw [hapart hhere] at hfired
      obtain ⟨other, hbefore, hbelow⟩ := hsound.cause id hfired
      refine ⟨other, hbefore, ?_⟩
      rw [htarget]
      exact hmove.descends hsound hbelow
  · rw [hstarted] at hearlier
    rw [hcall] at hwaiting ⊢
    split at hwaiting
    · rw [if_pos ‹_›]
      rcases hwaiting with hlater | hchild
      · refine hmove.descends hsound (hsound.walks index hbegun id (Or.inl ?_))
        rw [hpopped]
        exact List.mem_append_left _ hlater
      · refine (hmove.descends hsound (hsound.walks index hbegun shared (Or.inl hlast))).tail ?_
        rw [(hsame id).2]
        exact hsound.lists shared id hchild
    · rw [if_neg ‹_›]
      exact hmove.descends hsound (hsound.walks other hearlier id hwaiting)
  · rw [hstarted] at hearlier
    rw [hcall]
    split
    · rename_i hown
      rcases hsound.target index hbegun with hwaiting | hfired
      · rw [hpopped] at hwaiting
        rcases List.mem_append.mp hwaiting with hlater | hnow
        · exact Or.inl hlater
        · exact Or.inr (List.mem_singleton.mp hnow ▸ hmarked)
      · exact Or.inr (hmove.triggered hsound hfired)
    · exact (hsound.target other hearlier).imp_right (hmove.triggered hsound)
  · rw [hstarted] at hearlier
    rw [hcall] at hresting ⊢
    split at hresting
    · cases hresting
    · rw [if_neg ‹_›]
      exact hsound.idle other hearlier hresting
  · rw [hstarted] at hearlier
    rw [hcall] at hreturned
    rw [hcall, hwoken]
    split at hreturned
    · rw [hrunning] at hreturned
      cases hreturned
    · rw [if_neg ‹_›]
      exact hsound.ended other hearlier hreturned
  · rw [hdropping] at hdying
    rw [hsize]
    exact (hsound.gone id hdying).imp_right fun hdead halive => hdead (hlive halive)

end Preserved

/-- Every step keeps what holds of the forest. -/
theorem Move.sound (hmove : Move forest next) (hsound : forest.Sound) : next.Sound := by
  have hown := hmove
  cases hmove with
  | grown origin habove => exact sound_grown hsound habove
  | attached above children liveChildren hheld huntriggered hkept hwithin =>
      exact sound_attached hsound hheld huntriggered hkept hwithin
  | touched token futures dropping hlike hlinked hlive hgone =>
      exact sound_touched hsound hlike hlinked hlive hgone
  | started target hheld => exact sound_started hsound hheld
  | upgraded index child rest pending hbegun hrunning hweak hfiring hstrong =>
      refine sound_walked hsound hown hbegun rfl (fun id halive hwaiting => Or.inr ⟨hrunning, ?_⟩)
        (fun id hwaiting => ?_) (fun hmember => Or.inl ((hstrong _).mpr (Or.inl hmember)))
        (fun hresting => absurd hresting hfiring) (fun hreturned => ?_) (fun _ hmember => hmember)
        fun _ hmember => hmember
      · rcases hwaiting with hbefore | hmember
        · exact Or.inl ((hstrong id).mpr (Or.inl hbefore))
        · rw [hweak] at hmember
          rcases List.mem_cons.mp hmember with rfl | hlater
          · exact Or.inl ((hstrong id).mpr (Or.inr ⟨rfl, halive⟩))
          · exact Or.inr hlater
      · rw [hweak]
        rcases hwaiting with hbefore | hmember
        · rcases (hstrong id).mp hbefore with hold | ⟨rfl, -⟩
          · exact Or.inl hold
          · exact Or.inr List.mem_cons_self
        · exact Or.inr (List.mem_cons_of_mem _ hmember)
      · rw [hrunning] at hreturned
        cases hreturned
  | released index fired hbegun hrunning hfiring hthrough =>
      refine sound_walked hsound hown hbegun rfl
        (fun id halive hwaiting => Or.inr ⟨hrunning, hwaiting⟩) (fun id hwaiting => hwaiting) Or.inl
        (fun _ => hthrough) (fun hreturned => ?_) (fun _ hmember => hmember) fun id hmember => ?_
      · rw [hrunning] at hreturned
        cases hreturned
      · rcases List.mem_append.mp hmember with hold | hnew
        · exact hold
        · cases List.mem_singleton.mp hnew
  | passed index shared pending hbegun hrunning hidle hpopped halready =>
      have hmarked := (hsound.flags shared).trans halready
      have hnone := hsound.idle index hbegun hidle
      refine sound_walked hsound hown hbegun rfl (fun id halive hwaiting => ?_)
        (fun id hwaiting => ?_) (fun hmember => ?_) (fun hresting => by cases hresting)
        (fun hreturned => ?_) (fun _ hmember => hmember) fun _ hmember => hmember
      · rw [hpopped, hnone] at hwaiting
        rcases hwaiting with hbefore | hmember
        · rcases List.mem_append.mp hbefore with hlater | hnow
          · exact Or.inr ⟨hrunning, Or.inl hlater⟩
          · exact Or.inl (List.mem_singleton.mp hnow ▸ hmarked)
        · cases hmember
      · rw [hpopped]
        rcases hwaiting with hlater | hmember
        · exact Or.inl (List.mem_append_left _ hlater)
        · cases hmember
      · rw [hpopped] at hmember
        rcases List.mem_append.mp hmember with hlater | hnow
        · exact Or.inl hlater
        · exact Or.inr (List.mem_singleton.mp hnow ▸ hmarked)
      · rw [hrunning] at hreturned
        cases hreturned
  | fired index shared pending hbegun hrunning hidle hpopped huntriggered =>
      exact sound_fired hsound hbegun hrunning hidle hpopped huntriggered
  | returned index hbegun hrunning hidle hthrough =>
      have hnone := hsound.idle index hbegun hidle
      refine sound_walked hsound hown hbegun rfl (fun id halive hwaiting => ?_)
        (fun id hwaiting => hwaiting) Or.inl (fun _ => hnone)
        (fun _ => ⟨hthrough, hnone, fun waker hmember => List.mem_append_right _ hmember⟩)
        (fun waker hmember => List.mem_append_left _ hmember) fun _ hmember => hmember
      rw [hthrough, hnone] at hwaiting
      rcases hwaiting with hmember | hmember
      · cases hmember
      · cases hmember

theorem step_sound (hsound : forest.Sound) (htaken : forest.Step next) : next.Sound := by
  obtain ⟨action, htaken⟩ := htaken
  exact (step_move hsound.known htaken).sound hsound

theorem steps_sound (hsound : forest.Sound) (hsteps : forest.Steps later) : later.Sound := by
  induction hsteps with
  | refl => exact hsound
  | tail _ htaken hkept => exact step_sound hkept htaken

theorem Reachable.sound (hreached : forest.Reachable) : forest.Sound :=
  steps_sound sound_empty hreached

end Forest

end LlmGraph.Contract.Cancel
