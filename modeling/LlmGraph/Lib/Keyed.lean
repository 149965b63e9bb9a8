/- digest: Records with distinct keys: in whatever order they are listed, a record is found under its
   key, and sorting by the key gives one list. -/

import Mathlib.Data.List.Nodup
import Mathlib.Data.List.Perm.Basic
import Mathlib.Order.Lattice

set_option autoImplicit false
set_option relaxedAutoImplicit false

namespace LlmGraph.Lib

universe u v

variable {α : Type u} {κ : Type v} {key : α → κ} {first second : List α}

theorem find?_of_mem [DecidableEq κ] (hdistinct : (first.map key).Nodup) {record : α}
    (hmem : record ∈ first) : first.find? (key · == key record) = some record := by
  induction first with
  | nil => cases hmem
  | cons head rest ih =>
    rw [List.map_cons, List.nodup_cons] at hdistinct
    rw [List.find?_cons]
    rcases List.mem_cons.mp hmem with rfl | hlater
    · simp
    · have hdiffers : key head ≠ key record :=
        fun hsame => hdistinct.1 (hsame ▸ List.mem_map_of_mem hlater)
      rw [beq_false_of_ne hdiffers]
      exact ih hdistinct.2 hlater

/-- A key stands at one place only. -/
theorem split_of_key {before before' after after' : List α} {one other : α}
    (hdistinct : (first.map key).Nodup) (hone : first = before ++ one :: after)
    (hother : first = before' ++ other :: after') (hkey : key one = key other) :
    before = before' ∧ one = other ∧ after = after' := by
  induction before generalizing first before' with
  | nil =>
      cases before' with
      | nil =>
          rw [hone, List.nil_append, List.nil_append, List.cons.injEq] at hother
          exact ⟨rfl, hother⟩
      | cons head before' =>
          rw [hone, List.nil_append, List.cons_append, List.cons.injEq] at hother
          obtain ⟨rfl, rfl⟩ := hother
          rw [hone, List.nil_append, List.map_cons, List.nodup_cons] at hdistinct
          refine absurd ?_ hdistinct.1
          rw [hkey]
          exact List.mem_map_of_mem (List.mem_append_right _ List.mem_cons_self)
  | cons head before hind =>
      rw [hone, List.cons_append, List.map_cons, List.nodup_cons] at hdistinct
      cases before' with
      | nil =>
          rw [hone, List.nil_append, List.cons_append, List.cons.injEq] at hother
          obtain ⟨rfl, rfl⟩ := hother
          refine absurd ?_ hdistinct.1
          rw [← hkey]
          exact List.mem_map_of_mem (List.mem_append_right _ List.mem_cons_self)
      | cons head' before' =>
          rw [hone, List.cons_append, List.cons_append, List.cons.injEq] at hother
          obtain ⟨rfl, hrest⟩ := hother
          obtain ⟨rfl, hsame, hafter⟩ := hind hdistinct.2 rfl hrest
          exact ⟨rfl, hsame, hafter⟩

/-- A record is found under its key in whatever order the records are listed. -/
theorem find?_perm [DecidableEq κ] (hdistinct : (first.map key).Nodup)
    (hperm : first.Perm second) (wanted : κ) :
    first.find? (key · == wanted) = second.find? (key · == wanted) := by
  have hdistinct' : (second.map key).Nodup := (hperm.map key).nodup_iff.mp hdistinct
  rcases hfound : first.find? (key · == wanted) with _ | record
  · symm
    rw [List.find?_eq_none] at hfound ⊢
    exact fun record hmem => hfound record (hperm.mem_iff.mpr hmem)
  · have hkey : key record = wanted := by simpa using List.find?_some hfound
    have hmem : record ∈ second := hperm.mem_iff.mp (List.mem_of_find?_eq_some hfound)
    rw [← hkey]
    exact (find?_of_mem hdistinct' hmem).symm

/-- Lists of the same records that are sorted by distinct keys are the same. -/
theorem eq_of_sorted_perm [LinearOrder κ] (hdistinct : (first.map key).Nodup)
    (hperm : first.Perm second) (hfirst : first.Pairwise fun a b => key a ≤ key b)
    (hsecond : second.Pairwise fun a b => key a ≤ key b) : first = second := by
  refine hperm.eq_of_pairwise (fun a b ha hb hab hba => ?_) hfirst hsecond
  exact List.inj_on_of_nodup_map hdistinct ha (hperm.mem_iff.mpr hb) (le_antisymm hab hba)

/-- The first records of a sorted list are those up to the key of the last of them. -/
theorem mem_take_of_le [LinearOrder κ] (hsorted : first.Pairwise fun a b => key a < key b)
    {limit : Nat} {last record : α} (hlast : (first.take limit).getLast? = some last)
    (hmem : record ∈ first) (hle : key record ≤ key last) : record ∈ first.take limit := by
  rw [← List.take_append_drop limit first] at hsorted hmem
  rcases List.mem_append.mp hmem with htaken | hdropped
  · exact htaken
  · have hbefore := (List.pairwise_append.mp hsorted).2.2 last (List.mem_of_getLast? hlast) record
      hdropped
    exact absurd hle (not_le.mpr hbefore)

/-- No record comes behind the last of a sorted list. -/
theorem le_getLast? [LinearOrder κ] (hsorted : first.Pairwise fun a b => key a < key b)
    {last record : α} (hlast : first.getLast? = some last) (hmem : record ∈ first) :
    key record ≤ key last := by
  obtain ⟨before, rfl⟩ := List.getLast?_eq_some_iff.mp hlast
  rcases List.mem_append.mp hmem with hbefore | hsame
  · exact le_of_lt ((List.pairwise_append.mp hsorted).2.2 record hbefore last
      (List.mem_singleton_self _))
  · rw [List.mem_singleton.mp hsame]

end LlmGraph.Lib
