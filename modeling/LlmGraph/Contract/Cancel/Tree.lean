/- digest: The cancellation tree: what is triggered stays so, a trigger reaches the whole subtree
   and nothing else, every waiter is woken, and every call of trigger returns. -/

import Mathlib.Order.Interval.Finset.Nat
import LlmGraph.Contract.Cancel.Sound

set_option autoImplicit false
set_option relaxedAutoImplicit false

namespace LlmGraph.Contract.Cancel

open Relation (ReflTransGen)

namespace Forest

variable {forest next later : Forest} {id : Id} {index : Nat}

/-- Some steps in a row. -/
def run (forest : Forest) (actions : List Action) : Option Forest := actions.foldlM step forest

theorem run_steps {actions : List Action} (hran : forest.run actions = some later) :
    forest.Steps later := by
  induction actions generalizing forest with
  | nil =>
      cases hran
      exact .refl
  | cons action rest hlonger =>
      rcases htaken : forest.step action with _ | next
      · simp [run, htaken] at hran
      · have honward : next.run rest = some later := by simpa [run, htaken] using hran
        exact .head ⟨action, htaken⟩ (hlonger honward)

section Climb

variable (hsound : forest.Sound)

include hsound

theorem Sound.parent_lt {parent : Id} (hlinked : (forest.token id).parent = some parent) :
    parent < id :=
  (hsound.origins id parent (hsound.parents id parent hlinked)).1

/-- The loop up to the root does not depend on the bound, when it exceeds the token. -/
private theorem climb_eq {fuel : Nat} (henough : id < fuel) :
    forest.climb fuel id = forest.isTriggered id := by
  induction id using Nat.strong_induction_on generalizing fuel with
  | _ id habove =>
      obtain ⟨fuel, rfl⟩ := Nat.exists_eq_succ_of_ne_zero (Nat.ne_of_gt (Nat.zero_lt_of_lt henough))
      unfold isTriggered climb
      split
      · rfl
      · split
        · rename_i parent hlinked
          have hbelow := hsound.parent_lt hlinked
          rw [habove parent hbelow (Nat.lt_of_lt_of_le hbelow (Nat.le_of_lt_succ henough)),
            habove parent hbelow hbelow]
        · rfl

/-- A token is triggered when it is marked, or its parent is triggered. -/
theorem isTriggered_iff : forest.isTriggered id = true ↔
    (forest.token id).triggered = true ∨
      ∃ parent, (forest.token id).parent = some parent ∧ forest.isTriggered parent = true := by
  conv_lhs => unfold isTriggered climb
  split
  · rename_i hmarked
    simp [hmarked]
  · rename_i hunmarked
    rcases hlinked : (forest.token id).parent with _ | parent
    · simp [hunmarked]
    · simp [hunmarked, climb_eq hsound (hsound.parent_lt hlinked)]

/-- A live token is triggered when a token that it descends from is marked. -/
theorem isTriggered_of_descends {ancestor : Id} (hbelow : forest.Descends ancestor id)
    (halive : forest.Live id) (hmarked : (forest.token ancestor).triggered = true) :
    forest.isTriggered id = true := by
  induction hbelow with
  | refl => exact (isTriggered_iff hsound).mpr (Or.inl hmarked)
  | @tail middle id hbelow hmade hstep =>
      rcases (hsound.origins id middle hmade).2 with hlinked | hown | hdead
      · have hknown := hsound.known id middle hlinked
        have habove : forest.Live middle := Or.inr (Or.inl ⟨id, hknown, hlinked⟩)
        exact (isTriggered_iff hsound).mpr (Or.inr ⟨middle, hlinked, hstep habove⟩)
      · exact (isTriggered_iff hsound).mpr (Or.inl hown)
      · exact absurd halive hdead

/-- What is triggered descends from the object of a call of `trigger`. -/
theorem triggered_cause (htriggered : forest.isTriggered id = true) :
    ∃ index < forest.started, forest.Descends (forest.call index).target id := by
  induction id using Nat.strong_induction_on with
  | _ id habove =>
      rcases (isTriggered_iff hsound).mp htriggered with hmarked | ⟨parent, hlinked, hhigher⟩
      · exact hsound.cause id hmarked
      · obtain ⟨index, hbegun, hbelow⟩ := habove parent (hsound.parent_lt hlinked) hhigher
        exact ⟨index, hbegun, hbelow.tail (hsound.parents id parent hlinked)⟩

/-- When no call is on its way, a live token that is triggered is marked itself. -/
theorem marked_of_triggered (hstill : ∀ index < forest.started, (forest.call index).returned = true)
    (halive : forest.Live id) (htriggered : forest.isTriggered id = true) :
    (forest.token id).triggered = true := by
  induction id using Nat.strong_induction_on with
  | _ id habove =>
      rcases (isTriggered_iff hsound).mp htriggered with hmarked | ⟨parent, hlinked, hhigher⟩
      · exact hmarked
      · have hheld : forest.Live parent := Or.inr
          (Or.inl ⟨id, hsound.known id parent hlinked, hlinked⟩)
        have hmarked := habove parent (hsound.parent_lt hlinked) hheld hhigher
        rcases hsound.reached id parent hlinked halive hmarked with hown | ⟨index, hbegun, hrunning, -⟩
        · exact hown
        · rw [hstill index hbegun] at hrunning
          cases hrunning

/-- The object of a call that has returned is marked. -/
theorem Sound.target_marked (hbegun : index < forest.started)
    (hreturned : (forest.call index).returned = true) :
    (forest.token (forest.call index).target).triggered = true := by
  rcases hsound.target index hbegun with hwaiting | hmarked
  · rw [(hsound.ended index hbegun hreturned).1] at hwaiting
    cases hwaiting
  · exact hmarked

end Climb

section Runs

/-- A token keeps its parent while it is alive. -/
private theorem Move.parent (hmove : Move forest next) (hsound : forest.Sound) {parent : Id}
    (hlinked : (forest.token id).parent = some parent) :
    (next.token id).parent = some parent ∨ ¬ forest.Live id := by
  have hold : id ≠ forest.next := Nat.ne_of_lt (hsound.known id parent hlinked)
  cases hmove with
  | grown origin habove =>
      rw [grow_token, if_neg hold]
      exact Or.inl hlinked
  | attached above children liveChildren hheld huntriggered hkept hwithin =>
      refine Or.inl ?_
      rw [set_token]
      split
      · rename_i hhere
        exact hhere ▸ hlinked
      · rw [grow_token, if_neg hold]
        exact hlinked
  | touched token futures dropping hlike hlink hlive hgone =>
      rcases hlink id with hsame | ⟨hdying, -⟩
      · exact Or.inl (hsame.trans hlinked)
      · exact Or.inr (hsound.gone id hdying).2
  | fired index shared pending hbegun hrunning hidle hpopped huntriggered =>
      refine Or.inl ?_
      rw [setCall_token, set_token]
      split
      · rename_i hhere
        exact hhere ▸ hlinked
      · exact hlinked
  | started | upgraded | released | passed | returned => exact Or.inl hlinked

private theorem Move.next_le (hmove : Move forest next) : forest.next ≤ next.next := by
  cases hmove with
  | grown | attached => exact Nat.le_succ _
  | touched | started | upgraded | released | passed | fired | returned => exact Nat.le_refl _

/-- A live token that was triggered is triggered after a step. -/
private theorem step_isTriggered (hsound : forest.Sound) (htaken : forest.Step next)
    (hknown : id < forest.next) (halive : next.Live id) (htriggered : forest.isTriggered id = true) :
    next.isTriggered id = true := by
  obtain ⟨action, htaken⟩ := htaken
  have hmove := step_move hsound.known htaken
  have hkept := hmove.sound hsound
  induction id using Nat.strong_induction_on with
  | _ id habove =>
      refine (isTriggered_iff hkept).mpr ?_
      rcases (isTriggered_iff hsound).mp htriggered with hmarked | ⟨parent, hlinked, hhigher⟩
      · exact Or.inl (hmove.triggered hsound hmarked)
      · have hbefore : forest.Live id := (hmove.live hsound halive).resolve_right fun hfresh =>
          absurd hfresh.1 (Nat.ne_of_lt hknown)
        have hlink := (hmove.parent hsound hlinked).resolve_right fun hdead => hdead hbefore
        have hbelow := hsound.parent_lt hlinked
        have hheld : next.Live parent :=
          Or.inr (Or.inl ⟨id, Nat.lt_of_lt_of_le hknown hmove.next_le, hlink⟩)
        exact Or.inr ⟨parent, hlink, habove parent hbelow (Nat.lt_trans hbelow hknown) hheld hhigher⟩

private theorem steps_next_le (hsound : forest.Sound) (hsteps : forest.Steps later) :
    forest.next ≤ later.next := by
  induction hsteps with
  | refl => exact Nat.le_refl _
  | tail hbefore htaken hless =>
      obtain ⟨action, htaken⟩ := htaken
      exact Nat.le_trans hless (step_move (steps_sound hsound hbefore).known htaken).next_le

/-- What is alive later was alive, when it was there. -/
private theorem steps_live (hsound : forest.Sound) (hsteps : forest.Steps later)
    (hknown : id < forest.next) (halive : later.Live id) : forest.Live id := by
  induction hsteps with
  | refl => exact halive
  | @tail middle later hsteps htaken hstep =>
      obtain ⟨action, htaken⟩ := htaken
      have hkept := steps_sound hsound hsteps
      refine hstep (((step_move hkept.known htaken).live hkept halive).resolve_right fun hfresh => ?_)
      exact absurd hfresh.1 (Nat.ne_of_lt (Nat.lt_of_lt_of_le hknown (steps_next_le hsound hsteps)))

/-- A triggered token never becomes untriggered, as long as there is one that could ask. -/
theorem steps_isTriggered (hsound : forest.Sound) (hsteps : forest.Steps later)
    (hknown : id < forest.next) (halive : later.Live id) (htriggered : forest.isTriggered id = true) :
    later.isTriggered id = true := by
  induction hsteps using ReflTransGen.head_induction_on with
  | refl => exact htriggered
  | @head forest middle htaken hsteps hstep =>
      have hkept := step_sound hsound htaken
      have hwithin : forest.next ≤ middle.next := steps_next_le hsound (.single htaken)
      have hheld := steps_live hkept hsteps (Nat.lt_of_lt_of_le hknown hwithin) halive
      exact hstep hkept (Nat.lt_of_lt_of_le hknown hwithin)
        (step_isTriggered hsound htaken hknown hheld htriggered)

/-- The wakers that a call has drained stay with it. -/
private theorem Move.wakers (hmove : Move forest next) (hbegun : index < forest.started)
    {waker : Waker} (hdrained : waker ∈ (forest.call index).wakers) :
    index < next.started ∧ waker ∈ (next.call index).wakers := by
  cases hmove with
  | grown | attached | touched => exact ⟨hbegun, hdrained⟩
  | started target hheld =>
      refine ⟨Nat.lt_succ_of_lt hbegun, ?_⟩
      rw [setCall_call, if_neg (Nat.ne_of_lt hbegun)]
      exact hdrained
  | upgraded other | released other | passed other | returned other =>
      refine ⟨hbegun, ?_⟩
      rw [setCall_call]
      split
      · rename_i hhere
        exact hhere ▸ hdrained
      · exact hdrained
  | fired other =>
      refine ⟨hbegun, ?_⟩
      rw [setCall_call]
      split
      · rename_i hhere
        exact List.mem_append_left _ (hhere ▸ hdrained)
      · exact hdrained

/-- The step that marks a token is one of a call, which takes every waker registered on it. -/
private theorem Move.drains (hmove : Move forest next) (hknown : id < forest.next)
    (hbefore : (forest.token id).triggered = false) (hafter : (next.token id).triggered = true) :
    ∃ index < next.started, ∀ slot ∈ (forest.token id).inner.waiters.slots,
      slot.2 ∈ (next.call index).wakers := by
  cases hmove with
  | grown origin habove =>
      rw [grow_token, if_neg (Nat.ne_of_lt hknown), hbefore] at hafter
      cases hafter
  | attached above children liveChildren hheld huntriggered hkept hwithin =>
      rw [set_token] at hafter
      split at hafter
      · rename_i hhere
        rw [hhere] at hbefore
        rw [hbefore] at hafter
        cases hafter
      · rw [grow_token, if_neg (Nat.ne_of_lt hknown), hbefore] at hafter
        cases hafter
  | touched token futures dropping hlike hlinked hlive hgone =>
      have hsame : (token id).triggered = (forest.token id).triggered := (hlike id).triggered
      rw [hbefore] at hsame
      rw [hsame] at hafter
      cases hafter
  | fired index shared pending hbegun hrunning hidle hpopped huntriggered =>
      rw [setCall_token, set_token] at hafter
      split at hafter
      · rename_i hhere
        refine ⟨index, hbegun, fun slot hmember => ?_⟩
        rw [setCall_call, if_pos rfl]
        exact List.mem_append_right _ (List.mem_map_of_mem (hhere ▸ hmember))
      · rw [hbefore] at hafter
        cases hafter
  | started | upgraded | released | passed | returned =>
      have hsame : (forest.token id).triggered = true := hafter
      rw [hbefore] at hsame
      cases hsame

private theorem steps_wakers (hsound : forest.Sound) (hsteps : forest.Steps later)
    (hbegun : index < forest.started) {waker : Waker}
    (hdrained : waker ∈ (forest.call index).wakers) :
    index < later.started ∧ waker ∈ (later.call index).wakers := by
  induction hsteps with
  | refl => exact ⟨hbegun, hdrained⟩
  | tail hbefore htaken hkept =>
      obtain ⟨action, htaken⟩ := htaken
      exact (step_move (steps_sound hsound hbefore).known htaken).wakers hkept.1 hkept.2

/-- A live child stays with its parent until the parent is marked. -/
private theorem Move.kept (hmove : Move forest next) {child : Id}
    (hmember : child ∈ (forest.token id).inner.children) (hknown : id < forest.next)
    (halive : forest.Live child) :
    child ∈ (next.token id).inner.children ∨ (next.token id).triggered = true := by
  cases hmove with
  | grown origin habove =>
      rw [grow_token, if_neg (Nat.ne_of_lt hknown)]
      exact Or.inl hmember
  | attached above children liveChildren hheld huntriggered hkept hwithin =>
      refine Or.inl ?_
      rw [set_token]
      split
      · rename_i hhere
        exact List.mem_append_left _ (hkept child (hhere ▸ hmember) halive)
      · rw [grow_token, if_neg (Nat.ne_of_lt hknown)]
        exact hmember
  | touched token futures dropping hlike hlinked hlive hgone =>
      exact Or.inl ((hlike id).children ▸ hmember)
  | fired index shared pending hbegun hrunning hidle hpopped huntriggered =>
      rw [setCall_token, set_token]
      split
      · exact Or.inr rfl
      · exact Or.inl hmember
  | started | upgraded | released | passed | returned => exact Or.inl hmember

end Runs

section Returns

/-- The steps of one call, with none between. -/
abbrev Walks (forest : Forest) (index : Nat) (later : Forest) : Prop :=
  ReflTransGen (fun before after => before.step (.Walk index) = some after) forest later

/-- The tokens that are not marked. -/
def unmarked (forest : Forest) : Finset Id :=
  (Finset.range forest.next).filter fun id => (forest.token id).triggered = false

/-- What a call has left to do before it next marks a token. -/
def left (forest : Forest) (index : Nat) : Nat :=
  3 * (forest.call index).children.length + 2 * (forest.call index).pending.length +
    (if (forest.call index).fired.isSome then 1 else 0) +
      (if (forest.call index).returned then 0 else 1)

/-- Firing a token that is not marked takes it out of those that are not. -/
private theorem unmarked_fire {shared : Id} (hknown : shared < forest.next)
    (hflag : (forest.token shared).inner.triggered = false)
    (hunfired : (forest.token shared).triggered = false) (call : Call) :
    ((forest.fire shared).1.setCall index call).unmarked ⊂ forest.unmarked := by
  have hfired : (forest.fire shared).1 = forest.set shared
      { forest.token shared with
        triggered := true
        inner := ⟨true, (forest.token shared).inner.waiters.drain.1, []⟩ } := by
    unfold fire
    dsimp only
    rw [hflag]
    rfl
  rw [hfired]
  have hsame : ((forest.set shared { forest.token shared with
      triggered := true
      inner := ⟨true, (forest.token shared).inner.waiters.drain.1, []⟩ }).setCall index call).unmarked
      = forest.unmarked.erase shared := by
    ext id
    simp only [unmarked, Finset.mem_filter, Finset.mem_erase, setCall_token, set_token]
    by_cases hhere : id = shared
    · simp [hhere]
    · simp [hhere]
  rw [hsame]
  refine Finset.erase_ssubset (Finset.mem_filter.mpr ⟨?_, hunfired⟩)
  exact Finset.mem_range.mpr hknown

/-- Each step of a call marks a token, or leaves less to do before the next. -/
private theorem walk_shrinks (hsound : forest.Sound) (hbegun : index < forest.started)
    (htaken : forest.walk index = some next) :
    next.unmarked ⊂ forest.unmarked ∨
      next.unmarked = forest.unmarked ∧ next.left index < forest.left index := by
  unfold walk at htaken
  dsimp only at htaken
  split at htaken
  · cases htaken
  · rename_i hunreturned
    have hrunning : (forest.call index).returned = false := by simpa using hunreturned
    split at htaken
    · rename_i fired child rest hfiring hweak
      cases htaken
      refine Or.inr ⟨rfl, ?_⟩
      unfold left
      rw [setCall_call, if_pos rfl, hweak, hfiring]
      split
      · simp
        omega
      · simp
    · rename_i fired hfiring hthrough
      cases htaken
      refine Or.inr ⟨rfl, ?_⟩
      have hhere : ({ forest.setCall index { forest.call index with fired := none } with
          dropping := forest.dropping ++ [.Reference fired] } : Forest).call index =
          { forest.call index with fired := none } := by rw [setCall_call, if_pos rfl]
      unfold left
      rw [hhere, hfiring]
      simp
    · rename_i hidle
      split at htaken
      · rename_i shared hlast
        cases htaken
        have hpopped := (List.dropLast_append_getLast? shared hlast).symm
        have hshorter : (forest.call index).pending.length =
            (forest.call index).pending.dropLast.length + 1 := by
          rw [hpopped]
          simp
        rcases hflag : (forest.token shared).inner.triggered with _ | _
        · refine Or.inl ?_
          have hknown := hsound.range shared
            (live_holds hbegun (Or.inl (List.mem_of_getLast? hlast)))
          have hbefore := (hsound.flags shared).trans hflag
          exact unmarked_fire hknown hflag hbefore _
        · refine Or.inr ⟨by simp [unmarked, fire, hflag], ?_⟩
          unfold left
          rw [setCall_call, if_pos rfl, hidle]
          simp [fire, hflag]
          omega
      · rename_i hnothing
        cases htaken
        refine Or.inr ⟨rfl, ?_⟩
        have hhere : ({ forest.setCall index { forest.call index with returned := true } with
            woken := forest.woken ++ (forest.call index).wakers } : Forest).call index =
            { forest.call index with returned := true } := by rw [setCall_call, if_pos rfl]
        unfold left
        rw [hhere, hrunning]
        simp

private theorem walk_isSome (hrunning : ¬ (forest.call index).returned = true) :
    ∃ next, forest.walk index = some next := by
  unfold walk
  dsimp only
  rw [if_neg hrunning]
  split
  · exact ⟨_, rfl⟩
  · exact ⟨_, rfl⟩
  · split
    · exact ⟨_, rfl⟩
    · exact ⟨_, rfl⟩

private theorem walk_started (htaken : forest.walk index = some next) :
    next.started = forest.started := by
  unfold walk at htaken
  dsimp only at htaken
  split at htaken
  · cases htaken
  · split at htaken
    · cases htaken
      rfl
    · cases htaken
      rfl
    · split at htaken
      · cases htaken
        unfold fire
        dsimp only
        split
        · rfl
        · rfl
      · cases htaken
        rfl

/-- A call that has begun returns by its own steps, whatever the others leave it. -/
theorem returns (hsound : forest.Sound) (hbegun : index < forest.started) :
    ∃ later, forest.Walks index later ∧ (later.call index).returned = true := by
  induction htokens : forest.unmarked.card using Nat.strong_induction_on generalizing forest with
  | _ tokens hfewer =>
      subst htokens
      induction hrest : forest.left index using Nat.strong_induction_on generalizing forest with
      | _ rest hless =>
          subst hrest
          by_cases hreturned : (forest.call index).returned = true
          · exact ⟨forest, .refl, hreturned⟩
          · obtain ⟨next, htaken⟩ := walk_isSome hreturned
            have hstepped : forest.step (.Walk index) = some next := by
              simpa [step, hbegun] using htaken
            have hkept := step_sound hsound ⟨_, hstepped⟩
            have hstarted : index < next.started := by
              rw [walk_started htaken]
              exact hbegun
            have honward : (∃ later, next.Walks index later ∧
                (later.call index).returned = true) → ∃ later, forest.Walks index later ∧
                  (later.call index).returned = true := by
              rintro ⟨later, hwalks, hdone⟩
              exact ⟨later, .head hstepped hwalks, hdone⟩
            rcases walk_shrinks hsound hbegun htaken with hshrunk | ⟨hsame, hshorter⟩
            · exact honward (hfewer _ (Finset.card_lt_card hshrunk) hkept hstarted rfl)
            · refine honward (hless _ hshorter hkept hstarted (fun count hbelow => ?_) rfl)
              rw [hsame] at hbelow
              exact hfewer count hbelow

end Returns

/-- Whatever the interleaving: a triggered token stays triggered; once a call of `trigger` has
returned, its object and every live descendant is triggered, and once no call is on its way each of
them is marked itself and has no waiter left; nothing else is triggered; whoever waits on a token
when it is marked is woken by the time the call that marked it returns, as every call does; and a
token that is not marked holds every live child. -/
theorem cancellation_tree (hreached : forest.Reachable) :
    (∀ later, forest.Steps later → ∀ id < forest.next, later.Live id →
      forest.isTriggered id = true → later.isTriggered id = true) ∧
    (∀ index < forest.started, (forest.call index).returned = true → ∀ id, forest.Live id →
      forest.Descends (forest.call index).target id → forest.isTriggered id = true) ∧
    ((∀ index < forest.started, (forest.call index).returned = true) → ∀ id, forest.Live id →
      forest.isTriggered id = true → (forest.token id).triggered = true ∧
        (forest.token id).inner.waiters.slots = []) ∧
    (∀ id, forest.isTriggered id = true →
      ∃ index < forest.started, forest.Descends (forest.call index).target id) ∧
    (∀ next, forest.Step next → ∀ id < forest.next, (forest.token id).triggered = false →
      (next.token id).triggered = true → ∃ index < next.started,
        ∀ slot ∈ (forest.token id).inner.waiters.slots, ∀ later, next.Steps later →
          slot.2 ∈ (later.call index).wakers ∧
            ((later.call index).returned = true → slot.2 ∈ later.woken)) ∧
    (∀ index < forest.started, ∃ later, forest.Walks index later ∧
      (later.call index).returned = true) ∧
    (∀ next, forest.Step next → ∀ id < forest.next,
      ∀ child ∈ (forest.token id).inner.children, forest.Live child →
        child ∈ (next.token id).inner.children ∨ (next.token id).triggered = true) ∧
    (∀ id parent, (forest.token id).parent = some parent → forest.Live id →
      (forest.token parent).triggered = false → id ∈ (forest.token parent).inner.children) := by
  have hsound := hreached.sound
  refine ⟨fun later hsteps id hknown halive htriggered => ?_,
    fun index hbegun hreturned id halive hbelow => ?_,
    fun hstill id halive htriggered => ?_, fun id htriggered => triggered_cause hsound htriggered,
    fun next htaken id hknown hbefore hafter => ?_, fun index hbegun => returns hsound hbegun,
    fun next htaken id hknown child hmember halive => ?_, hsound.listed⟩
  · exact steps_isTriggered hsound hsteps hknown halive htriggered
  · exact isTriggered_of_descends hsound hbelow halive (hsound.target_marked hbegun hreturned)
  · have hmarked := marked_of_triggered hsound hstill halive htriggered
    exact ⟨hmarked, hsound.quiet id hmarked⟩
  · have hkept := step_sound hsound htaken
    obtain ⟨action, htaken⟩ := htaken
    obtain ⟨index, hbegun, hdrained⟩ := (step_move hsound.known htaken).drains hknown hbefore hafter
    refine ⟨index, hbegun, fun slot hmember later hsteps => ?_⟩
    have hheld := steps_wakers hkept hsteps hbegun (hdrained slot hmember)
    refine ⟨hheld.2, fun hreturned => ?_⟩
    exact ((steps_sound hkept hsteps).ended index hheld.1 hreturned).2.2 slot.2 hheld.2
  · obtain ⟨action, htaken⟩ := htaken
    exact (step_move hsound.known htaken).kept hmember hknown halive

namespace Race

/-- A child made by a view of a token that a trigger is about to fire, its parent marked already. -/
def actions : List Action :=
  [.New, .Child 0, .Triggered 1, .Poll 0 7, .Trigger 0, .Walk 0, .Child 1, .Walk 0, .Walk 0, .Walk 0,
    .Walk 0, .Walk 0, .Walk 0, .Walk 0, .Walk 0]

def race : Forest := (empty.run actions).get (by decide +kernel)

theorem race_reachable : race.Reachable := run_steps (Option.some_get _).symm

theorem descends_grandchild : race.Descends 0 2 := by
  have hfirst : (race.token 1).origin = some 0 := by decide +kernel
  have hsecond : (race.token 2).origin = some 1 := by decide +kernel
  have hchild : race.Descends 0 1 := .single hfirst
  exact hchild.tail hsecond

/-- The call has returned, and the child made on its way has not escaped it. -/
theorem cancellation_tree_race : race.isTriggered 2 = true ∧ (race.token 2).triggered = true := by
  obtain ⟨-, hreached, hmarked, -⟩ := cancellation_tree race_reachable
  have halive : race.Live 2 := by decide +kernel
  have htriggered := hreached 0 (by decide +kernel) (by decide +kernel) 2 halive descends_grandchild
  exact ⟨htriggered, (hmarked (by decide +kernel) 2 halive htriggered).1⟩

end Race

end Forest

end LlmGraph.Contract.Cancel
