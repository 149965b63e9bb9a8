/- digest: Records of fields and lists of items that are read whatever their order: which fields a
   reader accepts, what it puts into each slot, and documents that differ in order only. -/

import Mathlib.Data.List.Nodup
import Mathlib.Data.List.Perm.Subperm
import LlmGraph.Lib.Json

set_option autoImplicit false
set_option relaxedAutoImplicit false

namespace LlmGraph.Lib.Json

variable {α β γ : Type}

section Fields

variable {expected seen : List String} {read : String → Json → Except ReadError (α → α)}
  {init slots : α} {fields : List (String × Json)}

/-- The fields of a record are read when each is expected, fresh and readable, and none comes
twice. -/
theorem readFields_accepts :
    (∃ slots, readFields expected read seen init fields = .ok slots) ↔
      (∀ field ∈ fields, field.1 ∈ expected ∧ field.1 ∉ seen ∧
        ∃ fill, read field.1 field.2 = .ok fill) ∧ (fields.map Prod.fst).Nodup := by
  induction fields generalizing seen init with
  | nil => simp [readFields]
  | cons field rest ih =>
    obtain ⟨name, value⟩ := field
    rw [readFields]
    by_cases hexpected : name ∈ expected
    · by_cases hseen : name ∈ seen
      · simp [hexpected, hseen]
      · cases hread : read name value with
        | error error => simp [hexpected, hseen, hread]
        | ok fill =>
          simp only [hexpected, hseen, not_true_eq_false, if_false]
          rw [ih]
          simp only [List.forall_mem_cons, hexpected, hseen, hread, List.map_cons,
            List.nodup_cons, List.mem_map, not_exists, not_and, not_false_eq_true, true_and]
          constructor
          · rintro ⟨hall, hnodup⟩
            refine ⟨⟨⟨fill, rfl⟩, ?_⟩, ?_, hnodup⟩
            · intro other hother
              obtain ⟨hin, hfresh, hreads⟩ := hall other hother
              exact ⟨hin, fun hold => hfresh (List.mem_cons_of_mem _ hold), hreads⟩
            · intro other hother heq
              exact (hall other hother).2.1 (heq ▸ List.mem_cons_self)
          · rintro ⟨⟨-, hall⟩, hapart, hnodup⟩
            refine ⟨?_, hnodup⟩
            intro other hother
            obtain ⟨hin, hfresh, hreads⟩ := hall other hother
            refine ⟨hin, ?_, hreads⟩
            intro hold
            rcases List.mem_cons.mp hold with heq | hold
            · exact hapart other hother heq
            · exact hfresh hold
    · simp [hexpected]

/-- What a reader of one value makes of it, given to a slot. -/
theorem fill_of_read {x : Except ReadError β} {put : β → α → α} {fill : α → α}
    (hread : (do let value ← x; return put value) = Except.ok fill) :
    ∃ value, x = .ok value ∧ fill = put value := by
  cases x with
  | error error => cases hread
  | ok value =>
    cases hread
    exact ⟨value, rfl, rfl⟩

theorem ok_of_bind {x : Except ReadError β} {next : β → Except ReadError γ} {result : γ}
    (hread : x >>= next = .ok result) : ∃ value, x = .ok value ∧ next value = .ok result := by
  cases x with
  | error error => cases hread
  | ok value => exact ⟨value, rfl, hread⟩

/-- A slot of a record is filled by one field, whose value it holds, and by no other expected one. -/
structure Slot (expected : List String) (read : String → Json → Except ReadError (α → α))
    (field : String) (slot : α → Option β) (value : Json → Except ReadError β) : Prop where
  own : ∀ tree fill, read field tree = .ok fill →
    ∃ given, value tree = .ok given ∧ ∀ slots, slot (fill slots) = some given
  other : ∀ name ∈ expected, name ≠ field → ∀ tree fill, read name tree = .ok fill →
    ∀ slots, slot (fill slots) = slot slots

/-- What a slot holds is the value of its field, or what it held when the field is missing. -/
theorem readFields_slot {field : String} {slot : α → Option β}
    {value : Json → Except ReadError β} (hslot : Slot expected read field slot value)
    (hread : readFields expected read seen init fields = .ok slots) :
    (∀ tree, (field, tree) ∈ fields → ∃ given, value tree = .ok given ∧ slot slots = some given) ∧
      (field ∉ fields.map Prod.fst → slot slots = slot init) := by
  induction fields generalizing seen init with
  | nil =>
    cases hread
    simp
  | cons first rest ih =>
    obtain ⟨name, value'⟩ := first
    rw [readFields] at hread
    split at hread
    · cases hread
    · rename_i hexpected
      split at hread
      · cases hread
      · split at hread
        · cases hread
        · rename_i fill hfill
          obtain ⟨hpresent, hmissing⟩ := ih hread
          have hfresh := (readFields_accepts.mp ⟨slots, hread⟩).1
          by_cases hname : name = field
          · subst hname
            obtain ⟨given, hgiven, hfilled⟩ := hslot.own value' fill hfill
            have hlater : name ∉ rest.map Prod.fst := by
              intro hmem
              obtain ⟨other, hother, heq⟩ := List.mem_map.mp hmem
              exact (hfresh other hother).2.1 (heq ▸ List.mem_cons_self)
            constructor
            · intro tree hmem
              rcases List.mem_cons.mp hmem with heq | hrest
              · cases heq
                exact ⟨given, hgiven, (hmissing hlater).trans (hfilled init)⟩
              · exact absurd (List.mem_map_of_mem (f := Prod.fst) hrest) hlater
            · intro habsent
              exact absurd List.mem_cons_self habsent
          · have hsame := hslot.other name (not_not.mp hexpected) hname value' fill hfill init
            constructor
            · intro tree hmem
              rcases List.mem_cons.mp hmem with heq | hrest
              · cases heq
                exact absurd rfl hname
              · exact hpresent tree hrest
            · intro habsent
              have hrest : field ∉ rest.map Prod.fst :=
                fun hmem => habsent (List.mem_cons_of_mem _ hmem)
              exact (hmissing hrest).trans hsame

/-- A required slot that is filled tells its field. -/
theorem field_of_slot {field : String} {slot : α → Option β} {value : Json → Except ReadError β}
    {given : β} (hslot : Slot expected read field slot value)
    (hread : readFields expected read seen init fields = .ok slots) (hinit : slot init = none)
    (hgiven : required (slot slots) field = .ok given) :
    ∃ tree, (field, tree) ∈ fields ∧ value tree = .ok given := by
  obtain ⟨hpresent, hmissing⟩ := readFields_slot hslot hread
  have hsome : slot slots = some given := by
    cases hfound : slot slots with
    | none =>
      rw [hfound] at hgiven
      cases hgiven
    | some found =>
      rw [hfound] at hgiven
      cases hgiven
      rfl
  by_cases hfield : field ∈ fields.map Prod.fst
  · obtain ⟨⟨name, tree⟩, hmem, rfl⟩ := List.mem_map.mp hfield
    obtain ⟨found, hvalue, hfound⟩ := hpresent tree hmem
    rw [hsome, Option.some.injEq] at hfound
    exact ⟨tree, hmem, hfound ▸ hvalue⟩
  · rw [hmissing hfield, hinit] at hsome
    cases hsome

/-- A field that is there fills its slot. -/
theorem slot_of_field {field : String} {slot : α → Option β} {value : Json → Except ReadError β}
    {given : β} {tree : Json} (hslot : Slot expected read field slot value)
    (hread : readFields expected read seen init fields = .ok slots)
    (hmem : (field, tree) ∈ fields) (hvalue : value tree = .ok given) :
    required (slot slots) field = .ok given := by
  obtain ⟨found, hfound, hsome⟩ := (readFields_slot hslot hread).1 tree hmem
  rw [hvalue, Except.ok.injEq] at hfound
  rw [hsome, ← hfound]
  rfl

/-- Fields without repeats among some expected ones, each of which is there, are those in another
order. -/
theorem perm_of_fields {whole : List (String × Json)} (hnodup : (fields.map Prod.fst).Nodup)
    (hexpected : ∀ field ∈ fields, field.1 ∈ whole.map Prod.fst) (hwhole : whole ⊆ fields)
    (hdistinct : (whole.map Prod.fst).Nodup) : fields.Perm whole := by
  have hlength : fields.length ≤ whole.length := by
    have hsubset : fields.map Prod.fst ⊆ whole.map Prod.fst := by
      intro name hname
      obtain ⟨field, hfield, rfl⟩ := List.mem_map.mp hname
      exact hexpected field hfield
    simpa using (List.subperm_of_subset hnodup hsubset).length_le
  exact ((List.subperm_of_subset (List.Nodup.of_map Prod.fst hdistinct) hwhole).perm_of_length_le hlength).symm

end Fields

section Items

variable {read : Json → Except ReadError β} {items : List Json} {values : List β}

theorem readItems_iff :
    readItems read items = .ok values ↔
      List.Forall₂ (fun item value => read item = .ok value) items values := by
  induction items generalizing values with
  | nil =>
    rw [readItems, List.forall₂_nil_left_iff, Except.ok.injEq]
    exact eq_comm
  | cons item rest ih =>
    rw [readItems]
    cases hitem : read item with
    | error error => simp [bind, Except.bind, hitem, List.forall₂_cons_left_iff]
    | ok value =>
      cases hrest : readItems read rest with
      | error error =>
        have hnone : ∀ others, ¬List.Forall₂ (fun item value => read item = .ok value) rest others :=
          fun others hall => by rw [ih.mpr hall] at hrest; cases hrest
        simp [bind, Except.bind, hitem, List.forall₂_cons_left_iff, hnone]
      | ok others =>
        have hall := ih.mp hrest
        simp only [bind, Except.bind, pure, Except.pure, Except.ok.injEq,
          List.forall₂_cons_left_iff, hitem]
        constructor
        · rintro rfl
          exact ⟨value, others, rfl, hall, rfl⟩
        · rintro ⟨value', others', rfl, hall', rfl⟩
          have hsame := ih.mpr hall'
          rw [hrest, Except.ok.injEq] at hsame
          rw [hsame]

/-- Every item of a list that is read gives a value. -/
theorem value_of_item {item : Json}
    (hall : List.Forall₂ (fun item value => read item = .ok value) items values)
    (hitem : item ∈ items) : ∃ value, read item = .ok value := by
  induction hall with
  | nil => cases hitem
  | cons hfirst _ ih =>
    rcases List.mem_cons.mp hitem with rfl | hlater
    · exact ⟨_, hfirst⟩
    · exact ih hlater

theorem readArray_iff {tree : Json} :
    readArray read tree = .ok values ↔ ∃ items, tree = .arr items ∧
      List.Forall₂ (fun item value => read item = .ok value) items values := by
  cases tree with
  | arr items =>
    rw [readArray, readItems_iff]
    simp
  | _ => simp [readArray]

theorem readString_iff {tree : Json} {text : String} :
    readString tree = .ok text ↔ tree = .str text := by
  cases tree <;> simp [readString]

end Items

/-! Documents that differ in order only. -/

/-- The items of two lists, related in some order. -/
def ItemsAlike (alike : Json → Json → Prop) (first second : List Json) : Prop :=
  ∃ middle, first.Perm middle ∧ List.Forall₂ alike middle second

/-- Two records of the same fields, in another order. -/
inductive Reordered : Json → Json → Prop
  | same (tree : Json) : Reordered tree tree
  | fields {first second : List (String × Json)} (hperm : first.Perm second) :
      Reordered (.obj first) (.obj second)

theorem Reordered.symm {first second : Json} (halike : Reordered first second) :
    Reordered second first := by
  cases halike with
  | same => exact .same _
  | fields hperm => exact .fields hperm.symm

theorem ItemsAlike.symm {alike : Json → Json → Prop}
    (hsymm : ∀ first second, alike first second → alike second first) {first second : List Json}
    (halike : ItemsAlike alike first second) : ItemsAlike alike second first := by
  obtain ⟨middle, hperm, hall⟩ := halike
  obtain ⟨others, hothers, hback⟩ := List.perm_comp_forall₂ hperm hall
  exact ⟨others, hback.symm, hothers.flip.imp fun _ _ => hsymm _ _⟩

/-- Related items are read as the same values, in another order. -/
theorem ItemsAlike.read {alike : Json → Json → Prop} {read : Json → Except ReadError β}
    (hread : ∀ first second value, alike first second → read first = .ok value →
      read second = .ok value) {first second : List Json} {values : List β}
    (halike : ItemsAlike alike first second)
    (hvalues : List.Forall₂ (fun item value => read item = .ok value) first values) :
    ∃ others, List.Forall₂ (fun item value => read item = .ok value) second others ∧
      values.Perm others := by
  obtain ⟨middle, hperm, hall⟩ := halike
  obtain ⟨others, hothers, hvaluesPerm⟩ :=
    List.perm_comp_forall₂ hperm.symm hvalues
  refine ⟨others, ?_, hvaluesPerm.symm⟩
  clear hperm hvalues hvaluesPerm
  induction hall generalizing others with
  | nil =>
    cases hothers
    exact .nil
  | cons hpair _ ih =>
    cases hothers with
    | cons hfirst hrest => exact .cons (hread _ _ _ hpair hfirst) (ih _ hrest)

end LlmGraph.Lib.Json
