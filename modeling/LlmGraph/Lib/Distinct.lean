/- digest: Lists that keep each element once, at its first place, as a loop that pushes what it does
   not yet hold builds them. -/

import Mathlib.Data.List.Nodup

set_option autoImplicit false
set_option relaxedAutoImplicit false

namespace LlmGraph.Lib

universe u

variable {α : Type u} [DecidableEq α]

/-- Push an element that is not yet held. -/
def pushNew (kept : List α) (element : α) : List α :=
  if element ∈ kept then kept else kept ++ [element]

/-- Push the elements one after the other. -/
def pushAll (kept elements : List α) : List α := elements.foldl pushNew kept

/-- The first element that is held already, or that comes twice. -/
def firstTwice (held : List α) : List α → Option α
  | [] => none
  | element :: rest => if element ∈ held then some element else firstTwice (element :: held) rest

theorem mem_pushNew {kept : List α} {element other : α} :
    other ∈ pushNew kept element ↔ other ∈ kept ∨ other = element := by
  unfold pushNew
  split
  · rename_i hheld
    constructor
    · exact Or.inl
    · rintro (hinside | rfl)
      · exact hinside
      · exact hheld
  · rw [List.mem_append, List.mem_singleton]

theorem nodup_pushNew {kept : List α} (hdistinct : kept.Nodup) (element : α) :
    (pushNew kept element).Nodup := by
  unfold pushNew
  split
  · exact hdistinct
  · rename_i habsent
    exact hdistinct.append (List.nodup_singleton element) (by simpa using habsent)

theorem mem_pushAll {kept elements : List α} {other : α} :
    other ∈ pushAll kept elements ↔ other ∈ kept ∨ other ∈ elements := by
  induction elements generalizing kept with
  | nil => simp [pushAll]
  | cons element rest hstep =>
      have hlater : other ∈ pushAll (pushNew kept element) rest ↔ _ := hstep
      rw [pushAll, List.foldl_cons, ← pushAll, hlater, mem_pushNew, List.mem_cons, or_assoc]

theorem nodup_pushAll {kept : List α} (hdistinct : kept.Nodup) (elements : List α) :
    (pushAll kept elements).Nodup := by
  induction elements generalizing kept with
  | nil => exact hdistinct
  | cons element rest hstep => exact hstep (nodup_pushNew hdistinct element)

/-- Where nothing comes twice, every element is new. -/
theorem firstTwice_none {held elements : List α} (hnoneTwice : firstTwice held elements = none) :
    elements.Nodup ∧ ∀ element ∈ elements, element ∉ held := by
  induction elements generalizing held with
  | nil => simp
  | cons element rest hstep =>
      unfold firstTwice at hnoneTwice
      split at hnoneTwice
      · cases hnoneTwice
      · rename_i habsent
        obtain ⟨hdistinct, hnew⟩ := hstep hnoneTwice
        refine ⟨List.nodup_cons.mpr ⟨?_, hdistinct⟩, ?_⟩
        · intro hinside
          exact hnew element hinside List.mem_cons_self
        · intro other hmember
          rcases List.mem_cons.mp hmember with rfl | hlater
          · exact habsent
          · exact fun hinside => hnew other hlater (List.mem_cons_of_mem _ hinside)

end LlmGraph.Lib
