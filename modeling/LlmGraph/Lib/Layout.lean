/- digest: Texts that can be told apart: a printed value is read back where what follows ends it, and
   so are lists between separators, escaped words and hexadecimal digits. -/

import Mathlib.Logic.Function.Basic

set_option autoImplicit false
set_option relaxedAutoImplicit false

namespace LlmGraph.Lib

universe u v w

variable {α : Type u} {β : Type v} {γ : Type w}

/-- What follows is nothing, or starts with a symbol that stops. -/
def Ends (stop : α → Prop) (rest : List α) : Prop := ∀ c, rest.head? = some c → stop c

/-- A printed value is told from any other wherever what follows ends it. -/
def Reads (stop : α → Prop) (print : β → List α) : Prop :=
  ∀ one other rest rest', Ends stop rest → Ends stop rest' →
    print one ++ rest = print other ++ rest' → one = other ∧ rest = rest'

theorem ends_nil (stop : α → Prop) : Ends stop [] := by
  intro c hhead
  cases hhead

theorem ends_append {stop : α → Prop} {word : List α} {c : α} (hhead : word.head? = some c)
    (hstop : stop c) (rest : List α) : Ends stop (word ++ rest) := by
  intro d hd
  rw [List.head?_append, hhead] at hd
  cases hd
  exact hstop

theorem Ends.imp {stop stop' : α → Prop} {rest : List α} (hends : Ends stop rest)
    (himp : ∀ c, stop c → stop' c) : Ends stop' rest :=
  fun c hhead => himp c (hends c hhead)

/-- Two words before what ends them are equal when the whole is. -/
theorem word_split {inside stop : α → Prop} {one other rest rest' : List α}
    (hone : ∀ c ∈ one, inside c) (hother : ∀ c ∈ other, inside c)
    (houtside : ∀ c, stop c → ¬inside c) (hrest : Ends stop rest) (hrest' : Ends stop rest')
    (hsame : one ++ rest = other ++ rest') : one = other ∧ rest = rest' := by
  induction one generalizing other with
  | nil =>
      cases other with
      | nil => exact ⟨rfl, hsame⟩
      | cons c other =>
          have hhead : rest.head? = some c := by
            rw [List.nil_append] at hsame
            rw [hsame]
            rfl
          exact absurd (hother c List.mem_cons_self) (houtside c (hrest c hhead))
  | cons c one hind =>
      cases other with
      | nil =>
          have hhead : rest'.head? = some c := by
            rw [List.nil_append] at hsame
            rw [← hsame]
            rfl
          exact absurd (hone c List.mem_cons_self) (houtside c (hrest' c hhead))
      | cons d other =>
          rw [List.cons_append, List.cons_append, List.cons.injEq] at hsame
          obtain ⟨rfl, hsame⟩ := hsame
          obtain ⟨rfl, hrests⟩ := hind (fun c hc => hone c (List.mem_cons_of_mem _ hc))
            (fun c hc => hother c (List.mem_cons_of_mem _ hc)) hsame
          exact ⟨rfl, hrests⟩

namespace Reads

variable {stop ending : α → Prop} {print : β → List α}

theorem injective (hreads : Reads stop print) : Function.Injective print := by
  intro one other hsame
  have hall : print one ++ [] = print other ++ [] := by rw [hsame]
  exact (hreads one other [] [] (ends_nil stop) (ends_nil stop) hall).1

theorem of_word {inside : α → Prop} (hinside : ∀ value, ∀ c ∈ print value, inside c)
    (houtside : ∀ c, stop c → ¬inside c) (hinjective : Function.Injective print) :
    Reads stop print := by
  intro one other rest rest' hrest hrest' hsame
  obtain ⟨hwords, hrests⟩ := word_split (hinside one) (hinside other) houtside hrest hrest' hsame
  exact ⟨hinjective hwords, hrests⟩

/-- A printed value that a reader gives back, with what follows it. -/
theorem of_read {read : List α → Option (β × List α)}
    (hread : ∀ value rest, Ends stop rest → read (print value ++ rest) = some (value, rest)) :
    Reads stop print := by
  intro one other rest rest' hrest hrest' hsame
  have hboth := hread one rest hrest
  rw [hsame, hread other rest' hrest'] at hboth
  cases hboth
  exact ⟨rfl, rfl⟩

theorem comp (hreads : Reads stop print) {value : γ → β} (hvalue : Function.Injective value) :
    Reads stop fun one => print (value one) := by
  intro one other rest rest' hrest hrest' hsame
  obtain ⟨hvalues, hrests⟩ := hreads _ _ rest rest' hrest hrest' hsame
  exact ⟨hvalue hvalues, hrests⟩

/-- A value may be followed by what only depends on it. -/
theorem suffixed (hreads : Reads stop print) {suffix : β → List α}
    (hsuffix : ∀ value rest, Ends ending rest → Ends stop (suffix value ++ rest)) :
    Reads ending fun value => print value ++ suffix value := by
  intro one other rest rest' hrest hrest' hsame
  rw [List.append_assoc, List.append_assoc] at hsame
  obtain ⟨rfl, hrests⟩ :=
    hreads one other _ _ (hsuffix one rest hrest) (hsuffix other rest' hrest') hsame
  exact ⟨rfl, List.append_cancel_left hrests⟩

/-- Symbols that are printed each by a code of its own, up to a symbol that no code starts with. -/
theorem escaped {close : α} (hcodes : Reads (fun _ => True) print)
    (hclose : ∀ value rest rest', print value ++ rest ≠ close :: rest') :
    Reads (fun _ => True) fun values : List β => values.flatMap print ++ [close] := by
  intro one other rest rest' _ _ hsame
  replace hsame : one.flatMap print ++ [close] ++ rest = other.flatMap print ++ [close] ++ rest' :=
    hsame
  have hcode (value : β) (values : List β) (rest : List α) :
      (value :: values).flatMap print ++ [close] ++ rest =
        print value ++ (values.flatMap print ++ [close] ++ rest) := by
    rw [List.flatMap_cons, List.append_assoc, List.append_assoc, List.append_assoc]
  induction one generalizing other with
  | nil =>
      cases other with
      | nil => exact ⟨rfl, (List.cons.inj hsame).2⟩
      | cons value other =>
          rw [hcode] at hsame
          exact absurd hsame.symm (hclose value _ rest)
  | cons value one hind =>
      cases other with
      | nil =>
          rw [hcode] at hsame
          exact absurd hsame (hclose value _ rest')
      | cons value' other =>
          rw [hcode, hcode] at hsame
          obtain ⟨rfl, hlater⟩ :=
            hcodes value value' _ _ (fun _ _ => trivial) (fun _ _ => trivial) hsame
          obtain ⟨rfl, hrests⟩ := hind other hlater
          exact ⟨rfl, hrests⟩

/-- Values between separators, before what ends the list. -/
theorem separated (hreads : Reads stop print) {sep : List α} {first : α}
    (hsep : sep.head? = some first) (hfirst : stop first)
    (hending : ∀ c, ending c → stop c ∧ c ≠ first) {one other : List β} {rest rest' : List α}
    (hone : one ≠ []) (hother : other ≠ []) (hrest : Ends ending rest) (hrest' : Ends ending rest')
    (hsame : sep.intercalate (one.map print) ++ rest = sep.intercalate (other.map print) ++ rest') :
    one = other ∧ rest = rest' := by
  have hends (later : List α) : Ends stop (sep ++ later) := ends_append hsep hfirst later
  have hstop {rest : List α} (hrest : Ends ending rest) : Ends stop rest :=
    hrest.imp fun c hc => (hending c hc).1
  have hnot {rest later : List α} (hrest : Ends ending rest) : rest ≠ sep ++ later := by
    intro hrests
    have hhead : rest.head? = some first := by
      rw [hrests, List.head?_append, hsep]
      rfl
    exact (hending first (hrest first hhead)).2 rfl
  induction one generalizing other with
  | nil => exact absurd rfl hone
  | cons value one hind =>
      obtain ⟨value', other, rfl⟩ := List.exists_cons_of_ne_nil hother
      rw [List.map_cons, List.map_cons] at hsame
      cases one with
      | nil =>
          cases other with
          | nil =>
              rw [List.map_nil, List.intercalate_singleton, List.intercalate_singleton] at hsame
              obtain ⟨rfl, hrests⟩ :=
                hreads value value' rest rest' (hstop hrest) (hstop hrest') hsame
              exact ⟨rfl, hrests⟩
          | cons next' other =>
              rw [List.map_nil, List.intercalate_singleton, List.map_cons,
                List.intercalate_cons_cons, List.append_assoc, List.append_assoc] at hsame
              have hrests := (hreads value value' _ _ (hstop hrest) (hends _) hsame).2
              exact absurd hrests (hnot hrest)
      | cons next one =>
          cases other with
          | nil =>
              rw [List.map_nil, List.intercalate_singleton, List.map_cons,
                List.intercalate_cons_cons, List.append_assoc, List.append_assoc] at hsame
              have hrests := (hreads value value' _ _ (hends _) (hstop hrest') hsame).2
              exact absurd hrests.symm (hnot hrest')
          | cons next' other =>
              rw [List.map_cons, List.map_cons, List.intercalate_cons_cons,
                List.intercalate_cons_cons, List.append_assoc, List.append_assoc,
                List.append_assoc, List.append_assoc] at hsame
              obtain ⟨rfl, hlater⟩ := hreads value value' _ _ (hends _) (hends _) hsame
              have hlists := List.append_cancel_left hlater
              rw [← List.map_cons, ← List.map_cons] at hlists
              obtain ⟨hvalues, hrests⟩ :=
                hind (List.cons_ne_nil _ _) (List.cons_ne_nil _ _) hlists
              exact ⟨by rw [hvalues], hrests⟩

/-- Values between separators, or a word of its own when there are none. -/
theorem listed (hreads : Reads stop print) (sep : List α) {word : List α} {first : α}
    (hsep : sep.head? = some first) (hfirst : stop first)
    (hending : ∀ c, ending c → stop c ∧ c ≠ first)
    (hword : ∀ value rest rest', print value ++ rest ≠ word ++ rest') :
    Reads ending fun values : List β =>
      if values.isEmpty then word else sep.intercalate (values.map print) := by
  have hstarts (value : β) (values : List β) (rest : List α) :
      ∃ later, sep.intercalate ((value :: values).map print) ++ rest = print value ++ later := by
    cases values with
    | nil => exact ⟨rest, by rw [List.map_cons, List.map_nil, List.intercalate_singleton]⟩
    | cons next values =>
        rw [List.map_cons, List.map_cons, List.intercalate_cons_cons, List.append_assoc,
          List.append_assoc]
        exact ⟨_, rfl⟩
  intro one other rest rest' hrest hrest' hsame
  cases one with
  | nil =>
      cases other with
      | nil => exact ⟨rfl, List.append_cancel_left hsame⟩
      | cons value other =>
          obtain ⟨later, hlater⟩ := hstarts value other rest'
          exact absurd (hlater.symm.trans hsame.symm) (hword value _ _)
  | cons value one =>
      cases other with
      | nil =>
          obtain ⟨later, hlater⟩ := hstarts value one rest
          exact absurd (hlater.symm.trans hsame) (hword value _ _)
      | cons value' other =>
          exact hreads.separated hsep hfirst hending (List.cons_ne_nil _ _) (List.cons_ne_nil _ _)
            hrest hrest' hsame

end Reads

/-- The value of a hexadecimal digit. -/
def hexDigit (c : Char) : Nat := if c.isDigit then c.toNat - 48 else c.toNat - 87

def hexValue (digits : List Char) : Nat := digits.foldl (fun value c => 16 * value + hexDigit c) 0

def isHex (c : Char) : Bool := c.isDigit || (decide ('a' ≤ c) && decide (c ≤ 'f'))

theorem digitChar_hex {d : Nat} (hd : d < 16) :
    hexDigit d.digitChar = d ∧ isHex d.digitChar = true := by
  revert hd
  revert d
  decide

/-- Hexadecimal digits give back their number. -/
theorem hexValue_toDigits (n : Nat) : hexValue (Nat.toDigits 16 n) = n := by
  induction n using Nat.base_induction 16 (by decide) with
  | single m hm =>
      rw [Nat.toDigits_of_lt_base hm]
      show 16 * 0 + hexDigit m.digitChar = m
      rw [(digitChar_hex hm).1]
      omega
  | digit m k hk hm hind =>
      rw [← Nat.toDigits_append_toDigits (by decide) hm hk, Nat.toDigits_of_lt_base hk]
      unfold hexValue at hind ⊢
      rw [List.foldl_append, hind]
      show 16 * m + hexDigit k.digitChar = 16 * m + k
      rw [(digitChar_hex hk).1]

theorem isHex_of_mem_toDigits {n : Nat} {c : Char} (hmem : c ∈ Nat.toDigits 16 n) :
    isHex c = true := by
  induction n using Nat.base_induction 16 (by decide) with
  | single m hm =>
      rw [Nat.toDigits_of_lt_base hm, List.mem_singleton] at hmem
      rw [hmem]
      exact (digitChar_hex hm).2
  | digit m k hk hm hind =>
      rw [← Nat.toDigits_append_toDigits (by decide) hm hk, Nat.toDigits_of_lt_base hk,
        List.mem_append, List.mem_singleton] at hmem
      rcases hmem with hbefore | rfl
      · exact hind hbefore
      · exact (digitChar_hex hk).2

end LlmGraph.Lib
