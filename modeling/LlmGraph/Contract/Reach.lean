/- digest: The flood computes exactly the positions that can be reached from its seeds. -/

import Mathlib.Data.List.Perm.Subperm
import Mathlib.Logic.Relation
import LlmGraph.Contract.Structure

set_option autoImplicit false
set_option relaxedAutoImplicit false

namespace LlmGraph.Contract

open Relation (ReflTransGen)

/-- The arrows of an adjacency. -/
def Leads (adjacency : Nat → List Nat) (a b : Nat) : Prop := b ∈ adjacency a

/-- A visit marks what it had not seen, each position once, and pushes what it marks. -/
private theorem visit_spec (seen pending found : List Nat) :
    ∃ fresh, visit seen pending found = (fresh ++ seen, fresh ++ pending) ∧ fresh.Nodup ∧
      (∀ x ∈ fresh, x ∉ seen ∧ x ∈ found) ∧ ∀ x ∈ found, x ∈ fresh ++ seen := by
  induction found generalizing seen pending with
  | nil => exact ⟨[], rfl, List.nodup_nil, by simp, by simp⟩
  | cons next rest ih =>
    rw [visit]
    by_cases hseen : next ∈ seen
    · obtain ⟨fresh, hvisit, hnodup, hnew, hall⟩ := ih seen pending
      refine ⟨fresh, by rw [if_pos hseen, hvisit], hnodup, ?_, ?_⟩
      · intro x hx
        exact ⟨(hnew x hx).1, List.mem_cons_of_mem _ (hnew x hx).2⟩
      · intro x hx
        rcases List.mem_cons.mp hx with rfl | hrest
        · exact List.mem_append_right _ hseen
        · exact hall x hrest
    · obtain ⟨fresh, hvisit, hnodup, hnew, hall⟩ := ih (next :: seen) (next :: pending)
      refine ⟨fresh ++ [next], ?_, ?_, ?_, ?_⟩
      · rw [if_neg hseen, hvisit]
        simp
      · rw [List.nodup_append]
        refine ⟨hnodup, List.nodup_singleton next, ?_⟩
        intro x hx y hy hxy
        rw [List.mem_singleton] at hy
        exact (hnew x hx).1 (by rw [hxy, hy]; exact List.mem_cons_self)
      · intro x hx
        rcases List.mem_append.mp hx with hx | hx
        · have hfresh := (hnew x hx).1
          rw [List.mem_cons, not_or] at hfresh
          exact ⟨hfresh.2, List.mem_cons_of_mem _ (hnew x hx).2⟩
        · rw [List.mem_singleton] at hx
          subst hx
          exact ⟨hseen, List.mem_cons_self⟩
      · intro x hx
        have hthere : x ∈ fresh ++ next :: seen := by
          rcases List.mem_cons.mp hx with rfl | hrest
          · simp
          · exact hall x hrest
        simpa using hthere

/-- What holds at every turn of the flood's loop: the pending positions are marked, and a marked
position that is not pending has all its successors marked. -/
structure Flooding (adjacency : Nat → List Nat) (count : Nat) (seen pending : List Nat) : Prop where
  nodup : seen.Nodup
  within : ∀ x ∈ seen, x < count
  marked : ∀ x ∈ pending, x ∈ seen
  closed : ∀ x ∈ seen, x ∉ pending → ∀ y ∈ adjacency x, y ∈ seen

private theorem Flooding.length_le {adjacency : Nat → List Nat} {count : Nat}
    {seen pending : List Nat} (hflooding : Flooding adjacency count seen pending) :
    seen.length ≤ count := by
  have hsub : seen ⊆ List.range count := fun x hx => List.mem_range.mpr (hflooding.within x hx)
  have hlength := (List.subperm_of_subset hflooding.nodup hsub).length_le
  simpa using hlength

private theorem floodLoop_spec {adjacency : Nat → List Nat} {count : Nat}
    (hbound : ∀ x < count, ∀ y ∈ adjacency x, y < count) {fuel : Nat} {seen pending : List Nat}
    (hflooding : Flooding adjacency count seen pending)
    (hfuel : count + pending.length ≤ fuel + seen.length) :
    (∀ x ∈ seen, x ∈ floodLoop adjacency fuel seen pending) ∧
      (∀ x ∈ floodLoop adjacency fuel seen pending, ∀ y ∈ adjacency x,
        y ∈ floodLoop adjacency fuel seen pending) ∧
      ∀ x ∈ floodLoop adjacency fuel seen pending,
        ∃ first ∈ seen, ReflTransGen (Leads adjacency) first x := by
  induction fuel generalizing seen pending with
  | zero =>
    have hlength := hflooding.length_le
    have hnone : pending = [] := List.eq_nil_of_length_eq_zero (by omega)
    subst hnone
    refine ⟨fun x hx => hx, ?_, fun x hx => ⟨x, hx, .refl⟩⟩
    intro x hx
    exact hflooding.closed x hx (by simp)
  | succ fuel ih =>
    cases pending with
    | nil =>
      refine ⟨fun x hx => hx, ?_, fun x hx => ⟨x, hx, .refl⟩⟩
      intro x hx
      exact hflooding.closed x hx (by simp)
    | cons current rest =>
      obtain ⟨fresh, hvisit, hnodup, hnew, hall⟩ := visit_spec seen rest (adjacency current)
      have hcurrent := hflooding.marked current List.mem_cons_self
      have hnext : Flooding adjacency count (fresh ++ seen) (fresh ++ rest) := by
        refine ⟨?_, ?_, ?_, ?_⟩
        · rw [List.nodup_append]
          refine ⟨hnodup, hflooding.nodup, ?_⟩
          rintro x hx y hy rfl
          exact (hnew x hx).1 hy
        · intro x hx
          rcases List.mem_append.mp hx with hx | hx
          · exact hbound current (hflooding.within current hcurrent) x (hnew x hx).2
          · exact hflooding.within x hx
        · intro x hx
          rcases List.mem_append.mp hx with hx | hx
          · exact List.mem_append_left _ hx
          · exact List.mem_append_right _ (hflooding.marked x (List.mem_cons_of_mem _ hx))
        · intro x hx hdone y hy
          rw [List.mem_append, not_or] at hdone
          have hseen : x ∈ seen := (List.mem_append.mp hx).resolve_left hdone.1
          by_cases heq : x = current
          · exact hall y (heq ▸ hy)
          · refine List.mem_append_right _ (hflooding.closed x hseen ?_ y hy)
            rw [List.mem_cons, not_or]
            exact ⟨heq, hdone.2⟩
      have hfuel' : count + (fresh ++ rest).length ≤ fuel + (fresh ++ seen).length := by
        simp only [List.length_append, List.length_cons] at hfuel ⊢
        omega
      have hloop : floodLoop adjacency (fuel + 1) seen (current :: rest) =
          floodLoop adjacency fuel (fresh ++ seen) (fresh ++ rest) := by
        rw [floodLoop, hvisit]
      obtain ⟨hkept, hclosed, hreached⟩ := ih hnext hfuel'
      rw [hloop]
      refine ⟨fun x hx => hkept x (List.mem_append_right _ hx), hclosed, ?_⟩
      intro x hx
      obtain ⟨first, hfirst, hpath⟩ := hreached x hx
      rcases List.mem_append.mp hfirst with hin | hin
      · exact ⟨current, hcurrent, .head (hnew first hin).2 hpath⟩
      · exact ⟨first, hin, hpath⟩

/-- The flood from some seeds marks exactly what can be reached from one of them. -/
theorem mem_flood {adjacency : Nat → List Nat} {count : Nat} {seeds : List Nat}
    (hbound : ∀ x < count, ∀ y ∈ adjacency x, y < count) (hseeds : ∀ x ∈ seeds, x < count)
    (x : Nat) :
    x ∈ flood adjacency count seeds ↔
      ∃ seed ∈ seeds, ReflTransGen (Leads adjacency) seed x := by
  obtain ⟨fresh, hvisit, hnodup, hnew, hall⟩ := visit_spec [] [] seeds
  rw [List.append_nil] at hvisit hall
  have hstart : Flooding adjacency count fresh fresh :=
    ⟨hnodup, fun y hy => hseeds y (hnew y hy).2, fun _ hy => hy, fun _ hy hnot => absurd hy hnot⟩
  have hflood : flood adjacency count seeds = floodLoop adjacency count fresh fresh := by
    rw [flood, hvisit]
  obtain ⟨hkept, hclosed, hreached⟩ := floodLoop_spec hbound hstart (le_refl _)
  rw [hflood]
  constructor
  · intro hx
    obtain ⟨first, hfirst, hpath⟩ := hreached x hx
    exact ⟨first, (hnew first hfirst).2, hpath⟩
  · rintro ⟨seed, hseed, hpath⟩
    induction hpath with
    | refl => exact hkept seed (hall seed hseed)
    | tail _ hstep ih => exact hclosed _ ih _ hstep

end LlmGraph.Contract
