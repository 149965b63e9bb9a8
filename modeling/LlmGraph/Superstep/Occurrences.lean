/- digest: The written form of an occurrence: what is parsed is what was displayed, so the entries
   recorded under occurrences come back from JSON each under its own. -/

import Mathlib.Algebra.Group.Nat.Defs
import Mathlib.Data.List.Forall2
import LlmGraph.Lib.Json
import LlmGraph.Superstep.Cursor

set_option autoImplicit false
set_option relaxedAutoImplicit false

namespace LlmGraph.Superstep

open Lib (Json ReadError)

/-- The characters of an identifier, `[a-z][a-z0-9_]*`. -/
def isIdentifierText : List Char → Bool
  | [] => false
  | first :: rest => first.isLower && rest.all fun c => c.isLower || c.isDigit || c == '_'

/-- `is_identifier`, what `NodeId::new` accepts. -/
def isIdentifier (value : String) : Bool := isIdentifierText value.toList

/-- The number of values of a `usize`. -/
def usizeCount : Nat := 2 ^ 64

/-- The refusal of a text that is no occurrence. -/
structure InvalidOccurrence where
  value : String
  deriving DecidableEq, Repr

namespace Segment

def display (segment : Segment) : String :=
  match segment.index with
  | some index => segment.node ++ "[" ++ toString index ++ "]"
  | none => segment.node

/-- What the types of the source guarantee: a legal node, and an index that is a `usize`. -/
def Legal (segment : Segment) : Prop :=
  isIdentifier segment.node = true ∧ ∀ index, segment.index = some index → index < usizeCount

/-- `split_once('[')`. -/
def splitOnce (head : List Char) : Option (List Char × List Char) :=
  match head.dropWhile (· != '[') with
  | [] => none
  | _ :: digits => some (head.takeWhile (· != '['), digits)

/-- One part of the text of an occurrence. -/
def parse (part : List Char) : Option Segment :=
  if part.getLast? = some ']' then
    match splitOnce part.dropLast with
    | none => none
    | some (node, digits) =>
        if digits.isEmpty || !digits.all Char.isDigit then none
        else if usizeCount ≤ Nat.ofDigitChars 10 digits 0 then none
        else if isIdentifierText node then
          some ⟨String.ofList node, some (Nat.ofDigitChars 10 digits 0)⟩
        else none
  else if isIdentifierText part then some ⟨String.ofList part, none⟩ else none

/-- A segment as it may be written: a legal node, and for an item its index in brackets, in decimal
digits. -/
inductive Written : List Char → Segment → Prop
  | node (node : NodeId) (hlegal : isIdentifier node = true) : Written node.toList ⟨node, none⟩
  | item (node : NodeId) (digits : List Char) (hlegal : isIdentifier node = true)
      (hsome : digits ≠ []) (hdigits : ∀ c ∈ digits, c.isDigit = true)
      (hfits : Nat.ofDigitChars 10 digits 0 < usizeCount) :
      Written (node.toList ++ '[' :: digits ++ [']'])
        ⟨node, some (Nat.ofDigitChars 10 digits 0)⟩

end Segment

namespace OccurrenceKey

def display (key : OccurrenceKey) : String := "/".intercalate (key.map Segment.display)

def Legal (key : OccurrenceKey) : Prop := ∀ segment ∈ key, segment.Legal

def parse (text : String) : Except InvalidOccurrence OccurrenceKey :=
  if text.toList = [] then .ok []
  else match (text.toList.splitOn '/').mapM Segment.parse with
    | some segments => .ok segments
    | none => .error ⟨text⟩

/-- A text of an occurrence: nothing, or written segments between slashes. -/
def Written (text : String) (key : OccurrenceKey) : Prop :=
  text = "" ∧ key = [] ∨
    key ≠ [] ∧ ∃ parts, text.toList = ['/'].intercalate parts ∧
      List.Forall₂ Segment.Written parts key

end OccurrenceKey

/-! Legal names hold neither a slash nor a bracket. -/

private theorem mem_identifier {text : List Char} (hlegal : isIdentifierText text = true) {c : Char}
    (hmem : c ∈ text) : c.isLower = true ∨ c.isDigit = true ∨ c = '_' := by
  cases text with
  | nil => cases hmem
  | cons first rest =>
    rw [isIdentifierText, Bool.and_eq_true, List.all_eq_true] at hlegal
    rcases List.mem_cons.mp hmem with rfl | hlater
    · exact .inl hlegal.1
    · simpa [or_assoc] using hlegal.2 c hlater

private theorem identifier_ne {text : List Char} (hlegal : isIdentifierText text = true)
    {c : Char} (hlower : c.isLower = false) (hdigit : c.isDigit = false) (hother : c ≠ '_') :
    c ∉ text := by
  intro hmem
  rcases mem_identifier hlegal hmem with himpossible | himpossible | himpossible
  · rw [hlower] at himpossible
    cases himpossible
  · rw [hdigit] at himpossible
    cases himpossible
  · exact hother himpossible

namespace Segment

private theorem splitOnce_append {node digits : List Char} (hnone : '[' ∉ node) :
    splitOnce (node ++ '[' :: digits) = some (node, digits) := by
  have hall : ∀ c ∈ node, (c != '[') = true := by
    intro c hmem
    rw [bne_iff_ne]
    rintro rfl
    exact hnone hmem
  have hdrop : (node ++ '[' :: digits).dropWhile (· != '[') = '[' :: digits := by
    rw [List.dropWhile_append_of_pos hall]
    rfl
  have htake : (node ++ '[' :: digits).takeWhile (· != '[') = node := by
    rw [List.takeWhile_append_of_pos hall, List.takeWhile_cons]
    simp
  rw [splitOnce, hdrop, htake]

private theorem splitOnce_some {head node digits : List Char}
    (hsplit : splitOnce head = some (node, digits)) : head = node ++ '[' :: digits := by
  unfold splitOnce at hsplit
  split at hsplit
  · cases hsplit
  · rename_i first rest hdrop
    have hfirst : first = '[' := by
      have hhead := List.head?_dropWhile_not (· != '[') head
      rw [hdrop] at hhead
      simpa using hhead
    have hwhole : head.takeWhile (· != '[') ++ head.dropWhile (· != '[') = head :=
      List.takeWhile_append_dropWhile
    cases hsplit
    rw [hdrop, hfirst] at hwhole
    exact hwhole.symm

/-- A part is parsed exactly where it is a written segment. -/
theorem parse_iff {part : List Char} {segment : Segment} :
    parse part = some segment ↔ Written part segment := by
  constructor
  · intro hparsed
    unfold parse at hparsed
    split at hparsed
    · rename_i hlast
      split at hparsed
      · cases hparsed
      · rename_i node digits hsplit
        split at hparsed
        · cases hparsed
        · rename_i hdigits
          split at hparsed
          · cases hparsed
          · rename_i hfits
            split at hparsed
            · rename_i hlegal
              rw [Bool.or_eq_true, not_or, List.isEmpty_iff, Bool.not_eq_true', Bool.not_eq_false,
                List.all_eq_true] at hdigits
              have hpart : part = node ++ '[' :: digits ++ [']'] := by
                rw [← splitOnce_some hsplit]
                exact (List.dropLast_append_getLast? _ hlast).symm
              cases hparsed
              rw [hpart]
              have hwritten := Written.item (String.ofList node) digits
                (by rw [isIdentifier, String.toList_ofList]; exact hlegal) hdigits.1 hdigits.2
                (Nat.lt_of_not_le hfits)
              rwa [String.toList_ofList] at hwritten
            · cases hparsed
    · split at hparsed
      · rename_i hlegal
        cases hparsed
        have hwritten := Written.node (String.ofList part)
          (by rw [isIdentifier, String.toList_ofList]; exact hlegal)
        rwa [String.toList_ofList] at hwritten
      · cases hparsed
  · intro hwritten
    cases hwritten with
    | node node hlegal =>
      have hnoBracket : node.toList.getLast? ≠ some ']' := fun hlast =>
        identifier_ne hlegal (c := ']') rfl rfl (by decide) (List.mem_of_getLast? hlast)
      have hlegal' : isIdentifierText node.toList = true := hlegal
      rw [parse, if_neg hnoBracket, if_pos hlegal', String.ofList_toList]
    | item node digits hlegal hsome hdigits hfits =>
      have hlegal' : isIdentifierText node.toList = true := hlegal
      have hnoOpen : '[' ∉ node.toList :=
        identifier_ne hlegal (c := '[') rfl rfl (by decide)
      have hgood : ¬(digits.isEmpty || !digits.all Char.isDigit) = true := by
        rw [Bool.or_eq_true, not_or, List.isEmpty_iff, Bool.not_eq_true', Bool.not_eq_false,
          List.all_eq_true]
        exact ⟨hsome, hdigits⟩
      rw [parse, if_pos List.getLast?_concat, List.dropLast_concat, splitOnce_append hnoOpen]
      simp only [if_neg hgood, if_neg (Nat.not_le.mpr hfits), hlegal', if_true,
        String.ofList_toList]

/-- A legal segment is written as it is displayed. -/
theorem written_display {segment : Segment} (hlegal : segment.Legal) :
    Written segment.display.toList segment := by
  rcases segment with ⟨node, _ | index⟩
  · exact .node node hlegal.1
  · have hdigits : ∀ c ∈ Nat.toDigits 10 index, c.isDigit = true :=
      fun c hmem => Nat.isDigit_of_mem_toDigits (by decide) (by decide) hmem
    have hvalue : Nat.ofDigitChars 10 (Nat.toDigits 10 index) 0 = index :=
      Nat.ofDigitChars_ten_toDigits
    have hwritten := Written.item node (Nat.toDigits 10 index) hlegal.1 Nat.toDigits_ne_nil hdigits
      (by rw [hvalue]; exact hlegal.2 index rfl)
    rw [hvalue] at hwritten
    have htext : (Segment.display ⟨node, some index⟩).toList =
        node.toList ++ '[' :: Nat.toDigits 10 index ++ [']'] := by
      simp [display, String.toList_append]
    rw [htext]
    exact hwritten

theorem Written.legal {part : List Char} {segment : Segment} (hwritten : Written part segment) :
    segment.Legal := by
  cases hwritten with
  | node node hlegal => exact ⟨hlegal, by simp⟩
  | item node digits hlegal hsome hdigits hfits =>
    refine ⟨hlegal, fun index hindex => ?_⟩
    cases hindex
    exact hfits

/-- A written segment holds no slash and is not empty. -/
private theorem Written.part {part : List Char} {segment : Segment}
    (hwritten : Written part segment) : '/' ∉ part ∧ part ≠ [] := by
  have hname {node : NodeId} (hlegal : isIdentifier node = true) : '/' ∉ node.toList :=
    identifier_ne hlegal rfl rfl (by decide)
  cases hwritten with
  | node node hlegal =>
    refine ⟨hname hlegal, fun hempty => ?_⟩
    rw [isIdentifier, hempty] at hlegal
    cases hlegal
  | item node digits hlegal hsome hdigits hfits =>
    refine ⟨?_, by simp⟩
    have hno : '/' ∉ digits := by
      intro hmem
      have himpossible := hdigits '/' hmem
      cases himpossible
    simp [hname hlegal, hno]

end Segment

namespace OccurrenceKey

private theorem mapM_iff {parts : List (List Char)} {key : OccurrenceKey} :
    parts.mapM Segment.parse = some key ↔ List.Forall₂ Segment.Written parts key := by
  induction parts generalizing key with
  | nil =>
    rw [List.mapM_nil, List.forall₂_nil_left_iff]
    exact ⟨fun h => by cases h; rfl, fun h => by rw [h]; rfl⟩
  | cons part rest ih =>
    rw [List.mapM_cons, List.forall₂_cons_left_iff]
    constructor
    · intro hparsed
      obtain ⟨segment, hsegment, hlater⟩ := Option.bind_eq_some_iff.mp hparsed
      obtain ⟨segments, hsegments, hkey⟩ := Option.bind_eq_some_iff.mp hlater
      cases hkey
      exact ⟨segment, segments, Segment.parse_iff.mp hsegment, ih.mp hsegments, rfl⟩
    · rintro ⟨segment, segments, hsegment, hsegments, rfl⟩
      rw [Segment.parse_iff.mpr hsegment, ih.mpr hsegments]
      rfl

private theorem parts_written {parts : List (List Char)} {key : OccurrenceKey}
    (hparts : List.Forall₂ Segment.Written parts key) :
    (∀ part ∈ parts, '/' ∉ part ∧ part ≠ []) ∧ key.Legal := by
  induction hparts with
  | nil => exact ⟨by simp, by simp [Legal]⟩
  | cons hwritten _ ih =>
    exact ⟨List.forall_mem_cons.mpr ⟨hwritten.part, ih.1⟩,
      List.forall_mem_cons.mpr ⟨hwritten.legal, ih.2⟩⟩

/-- A text is parsed exactly where it is a written occurrence. -/
theorem parse_iff {text : String} {key : OccurrenceKey} :
    parse text = .ok key ↔ Written text key := by
  have hempty : text.toList = [] ↔ text = "" := by
    rw [← String.toList_inj]
    rfl
  constructor
  · intro hparsed
    unfold parse at hparsed
    split at hparsed
    · rename_i hnone
      cases hparsed
      exact .inl ⟨hempty.mp hnone, rfl⟩
    · split at hparsed
      · rename_i segments hsegments
        cases hparsed
        refine .inr ⟨?_, _, (List.intercalate_splitOn '/').symm, mapM_iff.mp hsegments⟩
        rintro rfl
        exact List.splitOn_ne_nil '/' text.toList
          (List.forall₂_nil_right_iff.mp (mapM_iff.mp hsegments))
      · cases hparsed
  · rintro (⟨rfl, rfl⟩ | ⟨hsome, parts, htext, hparts⟩)
    · rfl
    · have hnonempty : parts ≠ [] := by
        rintro rfl
        exact hsome (List.forall₂_nil_left_iff.mp hparts)
      have heach := (parts_written hparts).1
      have hsplit : text.toList.splitOn '/' = parts := by
        rw [htext]
        exact List.splitOn_intercalate '/' (fun part hmem => (heach part hmem).1) hnonempty
      have hnotEmpty : text.toList ≠ [] := by
        intro hnone
        rw [hnone, List.splitOn_nil] at hsplit
        exact (heach [] (hsplit ▸ List.mem_singleton_self _)).2 rfl
      rw [parse, if_neg hnotEmpty, hsplit, mapM_iff.mpr hparts]

theorem written_display {key : OccurrenceKey} (hlegal : key.Legal) : Written key.display key := by
  rcases key with _ | ⟨first, rest⟩
  · exact .inl ⟨rfl, rfl⟩
  · refine .inr ⟨by simp, (first :: rest).map (Segment.display · |>.toList), ?_, ?_⟩
    · rw [display, String.toList_intercalate, List.map_map]
      rfl
    · rw [List.forall₂_map_left_iff, List.forall₂_same]
      exact fun segment hmem => Segment.written_display (hlegal segment hmem)

theorem parse_display {key : OccurrenceKey} (hlegal : key.Legal) : parse key.display = .ok key :=
  parse_iff.mpr (written_display hlegal)

theorem parse_legal {text : String} {key : OccurrenceKey} (hparsed : parse text = .ok key) :
    key.Legal := by
  rcases parse_iff.mp hparsed with ⟨-, rfl⟩ | ⟨-, parts, -, hparts⟩
  · simp [Legal]
  · exact (parts_written hparts).2

end OccurrenceKey

/-! The JSON of pending writes. -/

variable {C : Type} [Conversation C]

/-- How updates and values are written as JSON and read, and how a refused key is told. -/
structure EntryText (C : Type) [Conversation C] where
  update : Update C → Json
  readUpdate : Json → Except ReadError (Update C)
  value : Value C → Json
  readValue : Json → Except ReadError (Value C)
  explain : InvalidOccurrence → String

/-- The updates and the witness of an entry are read from what is written of them; a value is never
written as null. -/
structure EntryText.Reads (text : EntryText C) (entry : PendingEntry C) : Prop where
  updates : ∀ update ∈ entry.updates, ∃ again, text.readUpdate (text.update update) = .ok again
  witness : ∀ value, entry.witness = some value →
    text.value value ≠ .null ∧ ∃ again, text.readValue (text.value value) = .ok again

/-- What is read is the update, or the value, that was written. -/
structure EntryText.Returns (text : EntryText C) (entry : PendingEntry C) : Prop where
  updates : ∀ update ∈ entry.updates, text.readUpdate (text.update update) = .ok update
  witness : ∀ value, entry.witness = some value →
    text.value value ≠ .null ∧ text.readValue (text.value value) = .ok value

theorem EntryText.Returns.reads {text : EntryText C} {entry : PendingEntry C}
    (hreturns : text.Returns entry) : text.Reads entry :=
  ⟨fun update hmem => ⟨update, hreturns.updates update hmem⟩, fun value hvalue =>
    ⟨(hreturns.witness value hvalue).1, value, (hreturns.witness value hvalue).2⟩⟩

namespace PendingEntry

variable (text : EntryText C)

def fields : List String := ["updates", "witness"]

def toJson (entry : PendingEntry C) : Json :=
  .obj (("updates", .arr (entry.updates.map text.update)) ::
    entry.witness.toList.map fun value => ("witness", text.value value))

structure Slots (C : Type) [Conversation C] where
  updates : Option (List (Update C))
  witness : Option (Value C)

def readUpdates (tree : Json) : Except ReadError (List (Update C)) := tree.readArray text.readUpdate

/-- A witness that is null is none. -/
def readWitness : Json → Except ReadError (Option (Value C))
  | .null => .ok none
  | tree => (text.readValue tree).map some

def readField (field : String) (tree : Json) : Except ReadError (Slots C → Slots C) :=
  if field = "updates" then do
    let updates ← readUpdates text tree
    return fun slots => { slots with updates := some updates }
  else do
    let witness ← readWitness text tree
    return fun slots => { slots with witness }

/-- A record, whose other fields are passed over, or the sequence of its values; a witness that is
left out is none. -/
def ofJson : Json → Except ReadError (PendingEntry C)
  | .obj members => do
      let slots ← Json.readFields fields (readField text) [] ⟨none, none⟩
        (members.filter (·.1 ∈ fields))
      let updates ← Json.required slots.updates "updates"
      return ⟨updates, slots.witness⟩
  | .arr [updates] => do return ⟨← readUpdates text updates, none⟩
  | .arr [updates, witness] => do return ⟨← readUpdates text updates, ← readWitness text witness⟩
  | .arr items => .error (.invalidLength items.length "struct PendingEntry with 2 elements")
  | _ => .error (.invalidType "struct PendingEntry")

private theorem readItems_some {α : Type} {read : Json → Except ReadError α} {trees : List Json}
    (heach : ∀ tree ∈ trees, ∃ value, read tree = .ok value) :
    ∃ values, Json.readItems read trees = .ok values := by
  induction trees with
  | nil => exact ⟨[], rfl⟩
  | cons tree rest ih =>
    obtain ⟨hfirst, hrest⟩ := List.forall_mem_cons.mp heach
    obtain ⟨value, hvalue⟩ := hfirst
    obtain ⟨values, hvalues⟩ := ih hrest
    exact ⟨value :: values, by simp [Json.readItems, hvalue, hvalues, bind, Except.bind, pure,
      Except.pure]⟩

variable {text} {entry : PendingEntry C}

private theorem readWitness_value {value again : Value C} (hnotNull : text.value value ≠ .null)
    (hagain : text.readValue (text.value value) = .ok again) :
    readWitness text (text.value value) = .ok (some again) := by
  unfold readWitness
  split
  · contradiction
  · rw [hagain]
    rfl

/-- An entry is read as its updates and its witness are. -/
private theorem ofJson_read {read : List (Update C)} {again : Option (Value C)}
    (hupdates : readUpdates text (.arr (entry.updates.map text.update)) = .ok read)
    (hwitness : entry.witness.elim (again = none)
      fun value => readWitness text (text.value value) = .ok again) :
    ofJson text (entry.toJson text) = .ok ⟨read, again⟩ := by
  rcases entry with ⟨updates, _ | value⟩
  · obtain rfl : again = none := hwitness
    simp [ofJson, toJson, fields, Json.readFields, readField, Json.required, hupdates, bind,
      Except.bind, pure, Except.pure]
  · have hvalue : readWitness text (text.value value) = .ok again := hwitness
    simp [ofJson, toJson, fields, Json.readFields, readField, Json.required, hupdates, hvalue, bind,
      Except.bind, pure, Except.pure]

theorem ofJson_toJson (hreads : text.Reads entry) :
    ∃ again, ofJson text (entry.toJson text) = .ok again := by
  have hitems : ∀ tree ∈ entry.updates.map text.update,
      ∃ update, text.readUpdate tree = .ok update := by
    intro tree hmem
    obtain ⟨update, hupdate, rfl⟩ := List.mem_map.mp hmem
    exact hreads.updates update hupdate
  obtain ⟨read, hread⟩ := readItems_some hitems
  cases hwitness : entry.witness with
  | none =>
    refine ⟨⟨read, none⟩, ofJson_read hread ?_⟩
    rw [hwitness]
    rfl
  | some value =>
    obtain ⟨hnotNull, again, hagain⟩ := hreads.witness value hwitness
    refine ⟨⟨read, some again⟩, ofJson_read hread ?_⟩
    rw [hwitness]
    exact readWitness_value hnotNull hagain

/-- An entry is read back as it was written. -/
theorem ofJson_toJson_same (hreturns : text.Returns entry) :
    ofJson text (entry.toJson text) = .ok entry := by
  refine ofJson_read (Json.readArray_map hreturns.updates) ?_
  cases hwitness : entry.witness with
  | none => rfl
  | some value =>
    obtain ⟨hnotNull, hagain⟩ := hreturns.witness value hwitness
    exact readWitness_value hnotNull hagain

end PendingEntry

namespace PendingWrites

variable (text : EntryText C)

/-- The entries under the written form of their occurrences. -/
def toJson (entries : List (OccurrenceKey × PendingEntry C)) : Json :=
  .obj (entries.map fun entry => (entry.1.display, entry.2.toJson text))

def readEntries : PendingWrites C → List (String × Json) → Except ReadError (PendingWrites C)
  | writes, [] => .ok writes
  | writes, (name, tree) :: rest =>
      match OccurrenceKey.parse name with
      | .error refusal => .error (.custom (text.explain refusal))
      | .ok key =>
          match PendingEntry.ofJson text tree with
          | .error error => .error error
          | .ok entry => readEntries (writes.insert key entry) rest

def ofJson : Json → Except ReadError (PendingWrites C)
  | .obj members => readEntries text empty members
  | _ => .error (.invalidType "a map")

variable {text}

/-- Each entry is read under its own occurrence, and the others stay. -/
private theorem readEntries_ok {entries : List (OccurrenceKey × PendingEntry C)}
    (hdistinct : (entries.map Prod.fst).Nodup) (hlegal : ∀ entry ∈ entries, entry.1.Legal)
    (hreads : ∀ entry ∈ entries, text.Reads entry.2) (writes : PendingWrites C) :
    ∃ after, readEntries text writes
        (entries.map fun entry => (entry.1.display, entry.2.toJson text)) = .ok after ∧
      (∀ entry ∈ entries, ∃ again, PendingEntry.ofJson text (entry.2.toJson text) = .ok again ∧
        after entry.1 = some again) ∧
      ∀ key, key ∉ entries.map Prod.fst → after key = writes key := by
  induction entries generalizing writes with
  | nil => exact ⟨writes, rfl, by simp, fun _ _ => rfl⟩
  | cons entry rest ih =>
    rw [List.map_cons, List.nodup_cons] at hdistinct
    obtain ⟨hfirst, hrest⟩ := List.forall_mem_cons.mp hlegal
    obtain ⟨hread, hreads⟩ := List.forall_mem_cons.mp hreads
    obtain ⟨again, hagain⟩ := PendingEntry.ofJson_toJson hread
    obtain ⟨after, hafter, heach, hothers⟩ :=
      ih hdistinct.2 hrest hreads (writes.insert entry.1 again)
    refine ⟨after, ?_, ?_, ?_⟩
    · rw [List.map_cons, readEntries, OccurrenceKey.parse_display hfirst]
      simp only [hagain]
      exact hafter
    · refine List.forall_mem_cons.mpr ⟨⟨again, hagain, ?_⟩, heach⟩
      rw [hothers entry.1 hdistinct.1]
      exact Function.update_self ..
    · intro key hkey
      rw [List.map_cons, List.mem_cons, not_or] at hkey
      rw [hothers key hkey.2]
      exact Function.update_of_ne hkey.1 ..

end PendingWrites

/-- The written form of occurrences.  What is displayed of a legal one is parsed back, so no two are
displayed alike; a text is parsed exactly where it is empty or made of legal segments between
slashes; what was parsed is displayed and parsed again to the same; and pending writes, whatever
their entries, are read from their JSON with each entry under its own occurrence and no other, as it
was written when its updates and its witness are. -/
theorem occurrence_keys :
    (∀ key : OccurrenceKey, key.Legal → OccurrenceKey.parse key.display = .ok key) ∧
    (∀ key other : OccurrenceKey, key.Legal → other.Legal → key.display = other.display →
      key = other) ∧
    (∀ (text : String) (key : OccurrenceKey),
      OccurrenceKey.parse text = .ok key ↔ OccurrenceKey.Written text key) ∧
    (∀ (text : String) (key : OccurrenceKey), OccurrenceKey.parse text = .ok key →
      OccurrenceKey.parse key.display = .ok key) ∧
    ∀ (text : EntryText C) (entries : List (OccurrenceKey × PendingEntry C)),
      (entries.map Prod.fst).Nodup → (∀ entry ∈ entries, entry.1.Legal) →
        (∀ entry ∈ entries, text.Reads entry.2) →
          ∃ writes, PendingWrites.ofJson text (PendingWrites.toJson text entries) = .ok writes ∧
            (∀ entry ∈ entries, ∃ again,
              PendingEntry.ofJson text (entry.2.toJson text) = .ok again ∧
                writes entry.1 = some again) ∧
            (∀ entry ∈ entries, text.Returns entry.2 → writes entry.1 = some entry.2) ∧
            ∀ key, key ∉ entries.map Prod.fst → writes key = none := by
  refine ⟨fun _ => OccurrenceKey.parse_display, ?_, fun _ _ => OccurrenceKey.parse_iff, ?_, ?_⟩
  · intro key other hkey hother hsame
    have hparsed := OccurrenceKey.parse_display hkey
    rw [hsame, OccurrenceKey.parse_display hother, Except.ok.injEq] at hparsed
    exact hparsed.symm
  · intro text key hparsed
    exact OccurrenceKey.parse_display (OccurrenceKey.parse_legal hparsed)
  · intro text entries hdistinct hlegal hreads
    obtain ⟨writes, hwrites, heach, hothers⟩ :=
      PendingWrites.readEntries_ok hdistinct hlegal hreads PendingWrites.empty
    refine ⟨writes, hwrites, heach, fun entry hmem hreturns => ?_, hothers⟩
    obtain ⟨again, hagain, hheld⟩ := heach entry hmem
    rw [PendingEntry.ofJson_toJson_same hreturns, Except.ok.injEq] at hagain
    rw [hheld, hagain]

namespace Recorded

/-- A text of appends of strings. -/
def text : EntryText Unit where
  update
    | .append key (.str value) => .arr [.str key, .str value]
    | _ => .null
  readUpdate
    | .arr [.str key, .str value] => .ok (.append key (.str value))
    | _ => .error (.invalidType "an append")
  value
    | .str value => .str value
    | _ => .null
  readValue
    | .str value => .ok (.str value)
    | _ => .error (.invalidType "a string")
  explain _ := "not an occurrence"

/-- Two items of a map and a node. -/
def entries : List (OccurrenceKey × PendingEntry Unit) :=
  [([⟨"each", some 0⟩], ⟨[.append "outs" (.str "A")], some (.str "a")⟩),
    ([⟨"each", some 1⟩], ⟨[], some (.str "b")⟩),
    ([⟨"node", none⟩], ⟨[.append "outs" (.str "B")], none⟩)]

theorem returns : ∀ entry ∈ entries, text.Returns entry.2 := by
  intro entry hmem
  simp only [entries, List.mem_cons, List.not_mem_nil, or_false] at hmem
  rcases hmem with rfl | rfl | rfl
  · exact ⟨by simp [text], by simp [text]⟩
  · exact ⟨by simp, by simp [text]⟩
  · exact ⟨by simp [text], by simp⟩

theorem reads : ∀ entry ∈ entries, text.Reads entry.2 :=
  fun entry hmem => (returns entry hmem).reads

end Recorded

theorem occurrence_keys_recorded :
    ∃ writes, PendingWrites.ofJson Recorded.text
        (PendingWrites.toJson Recorded.text Recorded.entries) = .ok writes ∧
      ∀ entry ∈ Recorded.entries, writes entry.1 = some entry.2 := by
  have hlegal : ∀ entry ∈ Recorded.entries, entry.1.Legal := by
    intro entry hmem
    have hparsed : OccurrenceKey.parse entry.1.display = .ok entry.1 := by
      revert entry
      decide +kernel
    exact OccurrenceKey.parse_legal hparsed
  obtain ⟨writes, hwrites, -, hsame, -⟩ := occurrence_keys.2.2.2.2 Recorded.text Recorded.entries
    (by decide +kernel) hlegal Recorded.reads
  exact ⟨writes, hwrites, fun entry hmem => hsame entry hmem (Recorded.returns entry hmem)⟩

example : OccurrenceKey.display [⟨"a", none⟩, ⟨"b", some 3⟩, ⟨"c", none⟩] = "a/b[3]/c" := by
  decide +kernel

end LlmGraph.Superstep
