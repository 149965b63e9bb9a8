/- digest: Trails of a machine that has at most one next step, with the labels of the steps: a trail
   that has halted passes through every point another trail from its start reaches. -/

import Mathlib.Logic.Basic

set_option autoImplicit false
set_option relaxedAutoImplicit false

namespace LlmGraph.Lib

universe u v

variable {α : Type u} {σ : Type v}

/-- The labels of some steps in a row, from a start to where they lead. -/
inductive Trail (step : σ → Option (α × σ)) (start : σ) : List α → σ → Prop
  | nothing : Trail step start [] start
  | snoc {labels : List α} {middle last : σ} {label : α} (hpast : Trail step start labels middle)
      (htaken : step middle = some (label, last)) : Trail step start (labels ++ [label]) last

namespace Trail

variable {step : σ → Option (α × σ)} {start middle last : σ} {labels rest : List α}

/-- A trail of no labels has not moved. -/
theorem stays (htrail : Trail step start [] last) : last = start := by
  generalize hsame : ([] : List α) = labels at htrail
  cases htrail with
  | nothing => rfl
  | snoc => exact absurd hsame (by simp)

/-- The first step of a trail. -/
theorem head {label : α} (htrail : Trail step start (label :: rest) last) :
    ∃ next, step start = some (label, next) ∧ Trail step next rest last := by
  generalize hsame : label :: rest = all at htrail
  induction htrail generalizing rest with
  | nothing => cases hsame
  | @snoc labels middle last final hpast htaken hshorter =>
      rcases labels with _ | ⟨first, others⟩
      · cases hsame
        rw [hpast.stays] at htaken
        exact ⟨last, htaken, nothing⟩
      · cases hsame
        obtain ⟨next, hfirstTaken, hlater⟩ := hshorter rfl
        exact ⟨next, hfirstTaken, hlater.snoc htaken⟩

/-- A halted trail passes through every point that another trail from the same start reaches. -/
theorem through (hhalted : step last = none) (hwhole : Trail step start labels last)
    {before : List α} (hreached : Trail step start before middle) :
    ∃ after, labels = before ++ after ∧ Trail step middle after last := by
  induction before generalizing start labels with
  | nil =>
      rw [hreached.stays]
      exact ⟨labels, rfl, hwhole⟩
  | cons label others hshorter =>
      obtain ⟨next, htaken, hlater⟩ := hreached.head
      rcases labels with _ | ⟨first, remaining⟩
      · rw [hwhole.stays, htaken] at hhalted
        cases hhalted
      · obtain ⟨other, hfirstTaken, htail⟩ := hwhole.head
        rw [htaken] at hfirstTaken
        cases hfirstTaken
        obtain ⟨after, hsame, honward⟩ := hshorter htail hlater
        exact ⟨after, by rw [hsame, List.cons_append], honward⟩

/-- Two halted trails from one start are the same. -/
theorem unique (hhalted : step last = none) (htrail : Trail step start labels last) {last' : σ}
    {labels' : List α} (hhalted' : step last' = none) (htrail' : Trail step start labels' last') :
    labels = labels' ∧ last = last' := by
  obtain ⟨after, hsame, honward⟩ := htrail.through hhalted htrail'
  rcases after with _ | ⟨label, others⟩
  · exact ⟨by rw [hsame, List.append_nil], honward.stays⟩
  · obtain ⟨next, htaken, -⟩ := honward.head
    rw [hhalted'] at htaken
    cases htaken

end Trail

end LlmGraph.Lib
