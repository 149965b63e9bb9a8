/- digest: Keys numbered from one, of which a map holds those up to a last one: how the map grows by the
   next key, and how the values before the last one are kept. -/

import Mathlib.Data.List.Nodup
import Mathlib.Data.List.Perm.Subperm
import Mathlib.Logic.Function.Basic

set_option autoImplicit false
set_option relaxedAutoImplicit false

namespace LlmGraph.Lib

open Function (update)

universe u v

variable {κ : Type u} {μ : Type v}

/-- Each number has a key of its own. -/
def Numbered (key : Nat → κ) : Prop :=
  ∀ rank other, 0 < rank → 0 < other → key rank = key other → rank = other

/-- The numbered keys that a map holds are those up to the last, and each value before it is past. -/
structure Ranked (key : Nat → κ) (past : μ → Prop) (held : κ → Option μ) (last : Nat) : Prop where
  upTo : ∀ rank, 0 < rank → ((held (key rank)).isSome = true ↔ rank ≤ last)
  past : ∀ rank value, 0 < rank → rank < last → held (key rank) = some value → past value

namespace Ranked

variable {key : Nat → κ} {past : μ → Prop} {held next : κ → Option μ} {last : Nat}

theorem none_of_lt (hranked : Ranked key past held last) {rank : Nat} (hafter : last < rank) :
    held (key rank) = none := by
  cases hheld : held (key rank) with
  | none => rfl
  | some value =>
    have hle := (hranked.upTo rank (Nat.lt_of_le_of_lt (Nat.zero_le _) hafter)).mp (by rw [hheld]; rfl)
    omega

theorem some_of_le (hranked : Ranked key past held last) {rank : Nat} (hpos : 0 < rank)
    (hle : rank ≤ last) : ∃ value, held (key rank) = some value :=
  Option.isSome_iff_exists.mp ((hranked.upTo rank hpos).mpr hle)

/-- The last of the held keys is the only one. -/
theorem last_unique (hranked : Ranked key past held last) {other : Nat}
    (hother : Ranked key past held other) : other = last := by
  by_contra hne
  rcases Nat.lt_or_gt_of_ne hne with hlt | hlt
  · have hsome := hranked.some_of_le (Nat.lt_of_le_of_lt (Nat.zero_le _) hlt) (Nat.le_refl last)
    obtain ⟨value, hvalue⟩ := hsome
    rw [hother.none_of_lt hlt] at hvalue
    cases hvalue
  · have hsome := hother.some_of_le (Nat.lt_of_le_of_lt (Nat.zero_le _) hlt) (Nat.le_refl other)
    obtain ⟨value, hvalue⟩ := hsome
    rw [hranked.none_of_lt hlt] at hvalue
    cases hvalue

/-- Only what is held under the numbered keys counts. -/
theorem congr (hranked : Ranked key past held last)
    (hsame : ∀ rank, 0 < rank → next (key rank) = held (key rank)) : Ranked key past next last where
  upTo := by
    intro rank hpos
    rw [hsame rank hpos]
    exact hranked.upTo rank hpos
  past := by
    intro rank value hpos hlt hvalue
    rw [hsame rank hpos] at hvalue
    exact hranked.past rank value hpos hlt hvalue

variable [DecidableEq κ]

/-- A value that is put where one was held: it is past where the one before it was. -/
theorem replace (hranked : Ranked key past held last) {other : κ} {before value : μ}
    (hheld : held other = some before) (hpast : past before → past value) :
    Ranked key past (update held other (some value)) last where
  upTo := by
    intro rank hpos
    rw [← hranked.upTo rank hpos]
    by_cases hkey : key rank = other
    · rw [hkey, Function.update_self, hheld]
      simp
    · rw [Function.update_of_ne hkey]
  past := by
    intro rank found hpos hlt hfound
    by_cases hkey : key rank = other
    · rw [hkey, Function.update_self] at hfound
      cases hfound
      exact hpast (hranked.past rank before hpos hlt (hkey ▸ hheld))
    · rw [Function.update_of_ne hkey] at hfound
      exact hranked.past rank found hpos hlt hfound

/-- The next key is taken once the value of the last one is past. -/
theorem extend (hranked : Ranked key past held last) (hnumbered : Numbered key)
    (hlast : 0 < last → ∀ value, held (key last) = some value → past value) (value : μ) :
    Ranked key past (update held (key (last + 1)) (some value)) (last + 1) where
  upTo := by
    intro rank hpos
    by_cases hrank : rank = last + 1
    · subst hrank
      rw [Function.update_self]
      simp
    · have hne : key rank ≠ key (last + 1) := fun heq =>
        hrank (hnumbered rank (last + 1) hpos (Nat.succ_pos last) heq)
      rw [Function.update_of_ne hne, hranked.upTo rank hpos]
      omega
  past := by
    intro rank found hpos hlt hfound
    have hne : key rank ≠ key (last + 1) := fun heq => by
      have hrank := hnumbered rank (last + 1) hpos (Nat.succ_pos last) heq
      omega
    rw [Function.update_of_ne hne] at hfound
    by_cases hrank : rank = last
    · subst hrank
      exact hlast hpos found hfound
    · exact hranked.past rank found hpos (by omega) hfound

end Ranked

/-- Numbered keys that are all among some keys are no more than these. -/
theorem ranks_le {key : Nat → κ} (hnumbered : Numbered key) {keys : List κ} {last : Nat}
    (hall : ∀ rank, 0 < rank → rank ≤ last → key rank ∈ keys) : last ≤ keys.length := by
  have hdistinct : ((List.range' 1 last).map key).Nodup := by
    refine List.Nodup.map_on (fun rank hrank other hother => ?_) List.nodup_range'
    have hfirst := List.mem_range'_1.mp hrank
    have hsecond := List.mem_range'_1.mp hother
    exact hnumbered rank other (by omega) (by omega)
  have hsub : (List.range' 1 last).map key ⊆ keys := by
    intro found hfound
    obtain ⟨rank, hrank, rfl⟩ := List.mem_map.mp hfound
    have hbounds := List.mem_range'_1.mp hrank
    exact hall rank (by omega) (by omega)
  have hlength := (hdistinct.subperm hsub).length_le
  rw [List.length_map, List.length_range'] at hlength
  exact hlength

end LlmGraph.Lib
