/- digest: Ordered maps as lists of entries: an entry is inserted at its place or replaces the one of
   its key, and a loop of checks over entries passes when each of them does. -/

import Mathlib.Data.List.Basic

set_option autoImplicit false
set_option relaxedAutoImplicit false

namespace LlmGraph.Lib

universe u v w

variable {κ : Type u} {α : Type v} [DecidableEq κ]

/-- Insert an entry before the first greater key, or over the one of its own key. -/
def insertEntry [LT κ] [DecidableLT κ] (key : κ) (value : α) : List (κ × α) → List (κ × α)
  | [] => [(key, value)]
  | (other, held) :: rest =>
      if key < other then (key, value) :: (other, held) :: rest
      else if key = other then (key, value) :: rest
      else (other, held) :: insertEntry key value rest

/-- The map of a list of pairs, the last pair of a key winning. -/
def collectEntries [LT κ] [DecidableLT κ] (pairs : List (κ × α)) : List (κ × α) :=
  pairs.foldl (fun entries pair => insertEntry pair.1 pair.2 entries) []

section Insert

variable [LT κ] [DecidableLT κ] {key other : κ} {value held : α} {entries : List (κ × α)}

omit [LT κ] [DecidableLT κ] in
theorem lookup_cons_eq (other first : κ) (own : α) (rest : List (κ × α)) :
    ((first, own) :: rest).lookup other = if other = first then some own else rest.lookup other := by
  rw [List.lookup_cons]
  by_cases hsame : other = first
  · rw [if_pos hsame, hsame, beq_self_eq_true]
  · rw [if_neg hsame, beq_eq_false_iff_ne.mpr hsame]

theorem lookup_insertEntry (key other : κ) (value : α) (entries : List (κ × α)) :
    (insertEntry key value entries).lookup other =
      if other = key then some value else entries.lookup other := by
  induction entries with
  | nil => exact lookup_cons_eq other key value []
  | cons entry rest hstep =>
      obtain ⟨first, own⟩ := entry
      unfold insertEntry
      split
      · exact lookup_cons_eq other key value _
      · split
        · rename_i hhere
          subst hhere
          rw [lookup_cons_eq, lookup_cons_eq]
          split
          · rfl
          · rfl
        · rename_i hapart
          rw [lookup_cons_eq, lookup_cons_eq, hstep]
          by_cases hsame : other = key
          · subst hsame
            rw [if_neg hapart, if_pos rfl, if_pos rfl]
          · rw [if_neg hsame, if_neg hsame]

theorem mem_insertEntry {entry : κ × α} (hmember : entry ∈ insertEntry key value entries) :
    entry = (key, value) ∨ entry ∈ entries := by
  induction entries with
  | nil => exact Or.inl (List.mem_singleton.mp hmember)
  | cons first rest hstep =>
      unfold insertEntry at hmember
      split at hmember
      · exact List.mem_cons.mp hmember
      · split at hmember
        · rcases List.mem_cons.mp hmember with hnew | hold
          · exact Or.inl hnew
          · exact Or.inr (List.mem_cons_of_mem _ hold)
        · rcases List.mem_cons.mp hmember with hhere | hlater
          · exact Or.inr (hhere ▸ List.mem_cons_self)
          · rcases hstep hlater with hnew | hold
            · exact Or.inl hnew
            · exact Or.inr (List.mem_cons_of_mem _ hold)

private theorem foldl_insertEntry (pairs entries : List (κ × α)) :
    (∀ entry ∈ pairs.foldl (fun entries pair => insertEntry pair.1 pair.2 entries) entries,
        entry ∈ pairs ∨ entry ∈ entries) ∧
      ∀ other, other ∈ pairs.map Prod.fst ∨ (entries.lookup other).isSome →
        ((pairs.foldl (fun entries pair => insertEntry pair.1 pair.2 entries) entries).lookup
          other).isSome := by
  induction pairs generalizing entries with
  | nil => exact ⟨fun entry hmember => Or.inr hmember, fun other hfound => by simpa using hfound⟩
  | cons pair rest hstep =>
      obtain ⟨horigin, hpresent⟩ := hstep (insertEntry pair.1 pair.2 entries)
      refine ⟨fun entry hmember => ?_, fun other hfound => hpresent other ?_⟩
      · rcases horigin entry hmember with hlater | hinserted
        · exact Or.inl (List.mem_cons_of_mem _ hlater)
        · rcases mem_insertEntry hinserted with hnew | hold
          · exact Or.inl (hnew ▸ List.mem_cons_self)
          · exact Or.inr hold
      · rw [lookup_insertEntry]
        by_cases hsame : other = pair.1
        · simp [hsame]
        · rw [if_neg hsame]
          simpa [hsame] using hfound

/-- Every entry of the map is one of the pairs. -/
theorem mem_collectEntries {pairs : List (κ × α)} {entry : κ × α}
    (hmember : entry ∈ collectEntries pairs) : entry ∈ pairs := by
  rcases (foldl_insertEntry pairs []).1 entry hmember with hgiven | hnothing
  · exact hgiven
  · cases hnothing

/-- Every key of the pairs is one of the map. -/
theorem lookup_collectEntries {pairs : List (κ × α)} (hgiven : key ∈ pairs.map Prod.fst) :
    ((collectEntries pairs).lookup key).isSome = true :=
  (foldl_insertEntry pairs []).2 key (Or.inl hgiven)

end Insert

/-- What is looked up is an entry. -/
theorem mem_of_lookup {key : κ} {value : α} {entries : List (κ × α)}
    (hfound : entries.lookup key = some value) : (key, value) ∈ entries := by
  induction entries with
  | nil => cases hfound
  | cons entry rest hstep =>
      obtain ⟨first, own⟩ := entry
      rw [List.lookup_cons] at hfound
      split at hfound
      · rename_i hsame
        cases hfound
        rw [eq_of_beq hsame]
        exact List.mem_cons_self
      · exact List.mem_cons_of_mem _ (hstep hfound)

theorem lookup_isSome_iff_mem {key : κ} {entries : List (κ × α)} :
    (entries.lookup key).isSome = true ↔ key ∈ entries.map Prod.fst := by
  simp [List.lookup_isSome_iff]

theorem forM_ok {ε : Type w} {β : Type u} {check : β → Except ε PUnit} {elements : List β}
    (hpassed : elements.forM check = .ok ⟨⟩) : ∀ element ∈ elements, check element = .ok ⟨⟩ := by
  induction elements with
  | nil => simp
  | cons element rest hstep =>
      rcases hhere : check element with error | ⟨⟩
      · simp [List.forM_cons, hhere, bind, Except.bind] at hpassed
      · simp [List.forM_cons, hhere, bind, Except.bind] at hpassed
        intro other hmember
        rcases List.mem_cons.mp hmember with rfl | hlater
        · exact hhere
        · exact hstep hpassed other hlater

theorem forM_of {ε : Type w} {β : Type u} {check : β → Except ε PUnit} {elements : List β}
    (heach : ∀ element ∈ elements, check element = .ok ⟨⟩) : elements.forM check = .ok ⟨⟩ := by
  induction elements with
  | nil => rfl
  | cons element rest hstep =>
      have hlater := hstep fun other hmember => heach other (List.mem_cons_of_mem _ hmember)
      simp [List.forM_cons, heach element List.mem_cons_self, bind, Except.bind]
      exact hlater

end LlmGraph.Lib
