/- digest: Folds that may fail, taken apart where they succeed. -/

import Mathlib.Logic.Basic

set_option autoImplicit false
set_option relaxedAutoImplicit false

namespace LlmGraph.Lib

universe u v w

variable {α : Type u} {β : Type v} {ε : Type w} {f : β → α → Except ε β} {start last : β}

theorem foldlM_cons_ok {item : α} {rest : List α} :
    (item :: rest).foldlM f start = .ok last ↔
      ∃ middle, f start item = .ok middle ∧ rest.foldlM f middle = .ok last := by
  rw [List.foldlM_cons]
  constructor
  · intro hfolded
    rcases hfirst : f start item with error | middle
    · rw [hfirst] at hfolded
      cases hfolded
    · rw [hfirst] at hfolded
      exact ⟨middle, rfl, hfolded⟩
  · rintro ⟨middle, hfirst, hfolded⟩
    rw [hfirst]
    exact hfolded

theorem foldlM_single_ok {item : α} : [item].foldlM f start = .ok last ↔ f start item = .ok last := by
  rw [foldlM_cons_ok]
  constructor
  · rintro ⟨middle, hfirst, hfolded⟩
    cases hfolded
    exact hfirst
  · exact fun hfirst => ⟨last, hfirst, rfl⟩

theorem foldlM_append_ok {front back : List α} :
    (front ++ back).foldlM f start = .ok last ↔
      ∃ middle, front.foldlM f start = .ok middle ∧ back.foldlM f middle = .ok last := by
  induction front generalizing start with
  | nil =>
      constructor
      · exact fun hfolded => ⟨start, rfl, hfolded⟩
      · rintro ⟨middle, hnothing, hfolded⟩
        cases hnothing
        exact hfolded
  | cons item rest hstep =>
      rw [List.cons_append, foldlM_cons_ok]
      constructor
      · rintro ⟨first, htaken, hfolded⟩
        obtain ⟨middle, hearlier, hlater⟩ := hstep.mp hfolded
        exact ⟨middle, foldlM_cons_ok.mpr ⟨first, htaken, hearlier⟩, hlater⟩
      · rintro ⟨middle, hearlier, hlater⟩
        obtain ⟨first, htaken, hfolded⟩ := foldlM_cons_ok.mp hearlier
        exact ⟨first, htaken, hstep.mpr ⟨middle, hfolded, hlater⟩⟩

end LlmGraph.Lib
