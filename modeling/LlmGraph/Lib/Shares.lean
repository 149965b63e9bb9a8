/- digest: A list divided among owners of disjoint keys: each element goes to one share, and the shares
   together are the list again. -/

import Mathlib.Data.List.Perm.Basic

set_option autoImplicit false
set_option relaxedAutoImplicit false

namespace LlmGraph.Lib

variable {α κ : Type} [BEq κ] [LawfulBEq κ]

/-- The elements whose key an owner holds, in order. -/
def share (key : α → κ) (items : List α) (owned : List κ) : List α :=
  items.filter fun item => owned.contains (key item)

/-- The shares of two owners with no key in common are the share of both. -/
private theorem share_append (key : α → κ) (items : List α) (first second : List κ)
    (hdisjoint : ∀ k ∈ first, k ∉ second) :
    (share key items first ++ share key items second).Perm
      (share key items (first ++ second)) := by
  have hsplit := List.filter_append_perm (fun item => first.contains (key item))
    (share key items (first ++ second))
  refine List.Perm.trans (List.Perm.of_eq ?_) hsplit
  rw [share, share, share, List.filter_filter, List.filter_filter]
  congr 1
  · refine List.filter_congr fun item _ => ?_
    by_cases hfirst : key item ∈ first <;> simp [hfirst]
  · refine List.filter_congr fun item _ => ?_
    by_cases hfirst : key item ∈ first
    · have hsecond := hdisjoint (key item) hfirst
      simp [hfirst, hsecond]
    · simp [hfirst]

/-- The shares of owners with no key in common make up the elements whose keys are held. -/
theorem shares_perm (key : α → κ) (items : List α) (owners : List (List κ))
    (hnodup : owners.flatten.Nodup) :
    (owners.flatMap (share key items)).Perm (share key items owners.flatten) := by
  induction owners with
  | nil =>
    have hnone : share key items [] = [] := List.filter_eq_nil_iff.mpr fun _ _ => by simp
    simp [hnone]
  | cons owned rest ih =>
    rw [List.flatten_cons, List.nodup_append] at hnodup
    obtain ⟨-, hrest, hapart⟩ := hnodup
    rw [List.flatMap_cons, List.flatten_cons]
    refine ((ih hrest).append_left _).trans (share_append key items owned rest.flatten ?_)
    intro k hown hother
    exact hapart k hown k hother rfl

/-- The share of an owner that holds every key is the whole. -/
theorem share_whole (key : α → κ) (items : List α) (owned : List κ)
    (hall : ∀ item ∈ items, key item ∈ owned) : share key items owned = items :=
  List.filter_eq_self.mpr fun item hmem => List.contains_iff_mem.mpr (hall item hmem)

end LlmGraph.Lib
