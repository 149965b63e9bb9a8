/- digest: Debts of parties that are targeted at ordered times and served by workers: what a party
   owes, and how its slot keeps the debt while workers are created, fed, ended and abandoned. -/

import Mathlib.Order.Lattice
import Mathlib.Tactic.Tauto

set_option autoImplicit false
set_option relaxedAutoImplicit false

namespace LlmGraph.Lib

/-- Parties `ν` are targeted at times `τ`; workers `ι` accept, for a party, inputs that carry the
time they were made at, and some workers settle what they accepted. -/
@[ext] structure Ledger (ν ι τ : Type) where
  Targeted : ν → τ → Prop
  Accepted : ν → ι → τ → Prop
  Settled : ν → ι → Prop

namespace Ledger

variable {ν ι τ : Type} [LinearOrder τ]

/-- A worker accepted an input of that time or later, and settled. -/
def Resolved (ledger : Ledger ν ι τ) (n : ν) (k : τ) : Prop :=
  ∃ i j, ledger.Accepted n i j ∧ k ≤ j ∧ ledger.Settled n i

/-- Some targeting of the party is not resolved. -/
def Owes (ledger : Ledger ν ι τ) (n : ν) : Prop :=
  ∃ k, ledger.Targeted n k ∧ ¬ledger.Resolved n k

/-- Some targeting of the party is newer than every input its workers accepted. -/
def Pressing (ledger : Ledger ν ι τ) (n : ν) : Prop :=
  ∃ k, ledger.Targeted n k ∧ ∀ i j, ledger.Accepted n i j → j < k

/-- Some targeting of the party is newer than every input accepted by a worker other than
`i`. -/
def PressingBut (ledger : Ledger ν ι τ) (n : ν) (i : ι) : Prop :=
  ∃ k, ledger.Targeted n k ∧ ∀ i' j, ledger.Accepted n i' j → i' ≠ i → j < k

/-- No targeting of the party is newer than `b`. -/
def Covered (ledger : Ledger ν ι τ) (n : ν) (b : τ) : Prop :=
  ∀ k, ledger.Targeted n k → k ≤ b

/-- Nothing in the ledger is newer than now. -/
structure Bounded (ledger : Ledger ν ι τ) (now : τ) : Prop where
  targeted : ∀ n k, ledger.Targeted n k → k ≤ now
  accepted : ∀ n i j, ledger.Accepted n i j → j ≤ now

/-- The worker has no entry for the party yet. -/
structure Fresh (ledger : Ledger ν ι τ) (n : ν) (i : ι) : Prop where
  accepted : ∀ j, ¬ledger.Accepted n i j
  settled : ¬ledger.Settled n i

theorem Pressing.owes {ledger : Ledger ν ι τ} {n : ν} (hpressing : ledger.Pressing n) :
    ledger.Owes n := by
  obtain ⟨k, htargeted, holder⟩ := hpressing
  refine ⟨k, htargeted, ?_⟩
  rintro ⟨i, j, haccepted, hreached, -⟩
  exact absurd hreached (not_le.mpr (holder i j haccepted))

theorem Pressing.but {ledger : Ledger ν ι τ} {n : ν} (hpressing : ledger.Pressing n) (i : ι) :
    ledger.PressingBut n i := by
  obtain ⟨k, htargeted, holder⟩ := hpressing
  exact ⟨k, htargeted, fun i' j haccepted _ => holder i' j haccepted⟩

/-- What only an unsettled worker could have resolved is owed. -/
theorem PressingBut.owes {ledger : Ledger ν ι τ} {n : ν} {i : ι}
    (hpressing : ledger.PressingBut n i) (hunsettled : ¬ledger.Settled n i) : ledger.Owes n := by
  obtain ⟨k, htargeted, holder⟩ := hpressing
  refine ⟨k, htargeted, ?_⟩
  rintro ⟨i', j, haccepted, hreached, hsettled⟩
  have hother : i' ≠ i := by
    rintro rfl
    exact hunsettled hsettled
  exact absurd hreached (not_le.mpr (holder i' j haccepted hother))

/-- A settled worker whose input covers every targeting leaves nothing owed. -/
theorem Covered.settles {ledger : Ledger ν ι τ} {n : ν} {i : ι} {b : τ}
    (hcovered : ledger.Covered n b) (haccepted : ledger.Accepted n i b)
    (hsettled : ledger.Settled n i) : ¬ledger.Owes n := by
  rintro ⟨k, htargeted, hunresolved⟩
  exact hunresolved ⟨i, b, haccepted, hcovered k htargeted, hsettled⟩

/-- Target every party of a set at time `k`. -/
def target (ledger : Ledger ν ι τ) (chosen : ν → Prop) (k : τ) : Ledger ν ι τ :=
  { ledger with Targeted := fun n x => ledger.Targeted n x ∨ (chosen n ∧ x = k) }

/-- A worker accepts an input made at time `j`. -/
def accept (ledger : Ledger ν ι τ) (n : ν) (i : ι) (j : τ) : Ledger ν ι τ :=
  { ledger with
    Accepted := fun n' i' j' => ledger.Accepted n' i' j' ∨ (n' = n ∧ i' = i ∧ j' = j) }

/-- A worker settles. -/
def settle (ledger : Ledger ν ι τ) (n : ν) (i : ι) : Ledger ν ι τ :=
  { ledger with Settled := fun n' i' => ledger.Settled n' i' ∨ (n' = n ∧ i' = i) }

end Ledger

/-- Where a party stands: no worker, one being created with its first input fixed, or one at
work. -/
inductive Stage (ι τ : Type) where
  | absent
  | creating (i : ι) (first : τ)
  | running (i : ι)

/-- The slot of a party: its stage, whether an input waits to be given, and whether work was left
behind without a worker. -/
structure Post (ι τ : Type) where
  stage : Stage ι τ
  held : Prop
  untaken : Prop

namespace Post

variable {ν ι τ : Type} [LinearOrder τ]

def Idle (post : Post ι τ) : Prop := post.stage = .absent ∧ ¬post.held ∧ ¬post.untaken

/-- The slot remembers exactly what its party owes. -/
def Keeps (post : Post ι τ) (ledger : Ledger ν ι τ) (now : τ) (n : ν) : Prop :=
  match post.stage with
  | .absent =>
      (post.held → ledger.Pressing n) ∧ (post.untaken → ledger.Owes n) ∧
        (¬post.held → ¬post.untaken → ¬ledger.Owes n)
  | .creating i first =>
      ¬post.untaken ∧ first ≤ now ∧ ledger.Fresh n i ∧
        (∃ k, ledger.Targeted n k ∧ k ≤ first ∧ ∀ i' j, ledger.Accepted n i' j → j < k) ∧
        (¬post.held → ledger.Covered n first) ∧
        (post.held → ∃ k, ledger.Targeted n k ∧ first < k)
  | .running i =>
      ¬post.untaken ∧ ¬ledger.Settled n i ∧ ledger.PressingBut n i ∧
        (post.held → ledger.Pressing n) ∧
        (¬post.held → ∃ j, ledger.Accepted n i j ∧ ledger.Covered n j)

variable {ledger : Ledger ν ι τ} {now : τ} {n : ν} {held untaken : Prop}

private theorem creating_pressing {i : ι} {first : τ}
    (hkeeps : Keeps ⟨.creating i first, held, untaken⟩ ledger now n) : ledger.Pressing n := by
  obtain ⟨-, -, -, ⟨k, htargeted, -, holder⟩, -⟩ := hkeeps
  exact ⟨k, htargeted, holder⟩

/-- A party is idle exactly when it owes nothing. -/
theorem Keeps.idle_iff {post : Post ι τ} (hkeeps : post.Keeps ledger now n) :
    post.Idle ↔ ¬ledger.Owes n := by
  rcases post with ⟨_ | ⟨i, first⟩ | i, held, untaken⟩
  · obtain ⟨hpressing, howed, hnothing⟩ := hkeeps
    constructor
    · rintro ⟨-, hnotHeld, htaken⟩
      exact hnothing hnotHeld htaken
    · intro hclear
      refine ⟨rfl, fun hheld => ?_, fun huntaken => hclear (howed huntaken)⟩
      exact hclear (hpressing hheld).owes
  · have howes : ledger.Owes n := (creating_pressing hkeeps).owes
    exact ⟨fun hidle => (by cases hidle.1), fun hclear => absurd howes hclear⟩
  · obtain ⟨-, hunsettled, hpressing, -⟩ := hkeeps
    have howes : ledger.Owes n := hpressing.owes hunsettled
    exact ⟨fun hidle => (by cases hidle.1), fun hclear => absurd howes hclear⟩

/-- What concerns other parties, and the passing of time, leave a slot as it is. -/
theorem Keeps.frame {post : Post ι τ} {ledger' : Ledger ν ι τ} {now' : τ}
    (hkeeps : post.Keeps ledger now n) (hlater : now ≤ now')
    (htargeted : ∀ k, ledger'.Targeted n k ↔ ledger.Targeted n k)
    (haccepted : ∀ i j, ledger'.Accepted n i j ↔ ledger.Accepted n i j)
    (hsettled : ∀ i, ledger'.Settled n i ↔ ledger.Settled n i) : post.Keeps ledger' now' n := by
  have hfresh : ∀ i, ledger'.Fresh n i ↔ ledger.Fresh n i := fun i =>
    ⟨fun h => ⟨fun j a => h.1 j ((haccepted i j).mpr a), fun s => h.2 ((hsettled i).mpr s)⟩,
      fun h => ⟨fun j a => h.1 j ((haccepted i j).mp a), fun s => h.2 ((hsettled i).mp s)⟩⟩
  have hsame : ∀ now, post.Keeps ledger' now n ↔ post.Keeps ledger now n := by
    intro now
    simp only [Keeps, Ledger.Pressing, Ledger.PressingBut, Ledger.Owes, Ledger.Resolved,
      Ledger.Covered, htargeted, haccepted, hsettled, hfresh]
  rw [hsame]
  rcases post with ⟨_ | ⟨i, first⟩ | i, held, untaken⟩
  · exact hkeeps
  · exact ⟨hkeeps.1, hkeeps.2.1.trans hlater, hkeeps.2.2⟩
  · exact hkeeps

/-- A held party without a worker starts a creation with the current time as first input. -/
theorem Keeps.create (i : ι) (hkeeps : Keeps ⟨.absent, held, untaken⟩ ledger now n)
    (hheld : held) (htaken : ¬untaken) (hfresh : ledger.Fresh n i)
    (hbounded : ledger.Bounded now) : Keeps ⟨.creating i now, False, untaken⟩ ledger now n := by
  obtain ⟨k, htargeted, holder⟩ := hkeeps.1 hheld
  exact ⟨htaken, le_rfl, hfresh, ⟨k, htargeted, hbounded.targeted n k htargeted, holder⟩,
    fun _ => hbounded.targeted n, False.elim⟩

/-- A held party without a worker is left behind. -/
theorem Keeps.leave (hkeeps : Keeps ⟨.absent, held, untaken⟩ ledger now n) (hheld : held) :
    Keeps ⟨.absent, held, True⟩ ledger now n :=
  ⟨hkeeps.1, fun _ => (hkeeps.1 hheld).owes, fun _ htaken => absurd trivial htaken⟩

/-- A created worker accepts its first input. -/
theorem Keeps.created {i : ι} {first : τ}
    (hkeeps : Keeps ⟨.creating i first, held, untaken⟩ ledger now n) :
    Keeps ⟨.running i, held, untaken⟩ (ledger.accept n i first) now n := by
  obtain ⟨htaken, -, hfresh, ⟨k, htargeted, hreached, holder⟩, hcovered, hnewer⟩ := hkeeps
  refine ⟨htaken, hfresh.settled, ⟨k, htargeted, ?_⟩, ?_, ?_⟩
  · rintro i' j (haccepted | ⟨-, rfl, -⟩) hother
    · exact holder i' j haccepted
    · exact absurd rfl hother
  · intro hheld
    obtain ⟨late, hretargeted, hafter⟩ := hnewer hheld
    refine ⟨late, hretargeted, ?_⟩
    rintro i' j (haccepted | ⟨-, -, rfl⟩)
    · exact ((holder i' j haccepted).trans_le hreached).trans hafter
    · exact hafter
  · intro hnotHeld
    exact ⟨first, Or.inr ⟨rfl, rfl, rfl⟩, hcovered hnotHeld⟩

/-- A created worker refuses its first input, which is held from then on. -/
theorem Keeps.createdShut {i : ι} {first : τ}
    (hkeeps : Keeps ⟨.creating i first, held, untaken⟩ ledger now n) :
    Keeps ⟨.running i, True, untaken⟩ ledger now n := by
  have hpressing := creating_pressing hkeeps
  exact ⟨hkeeps.1, hkeeps.2.2.1.settled, hpressing.but i, fun _ => hpressing,
    fun hnotHeld => absurd trivial hnotHeld⟩

/-- A creation fails: its input is held again and the party is left behind. -/
theorem Keeps.notCreated {i : ι} {first : τ}
    (hkeeps : Keeps ⟨.creating i first, held, untaken⟩ ledger now n) :
    Keeps ⟨.absent, True, True⟩ ledger now n := by
  have hpressing := creating_pressing hkeeps
  exact ⟨fun _ => hpressing, fun _ => hpressing.owes, fun hnotHeld => absurd trivial hnotHeld⟩

/-- A worker accepts the held input at the current time. -/
theorem Keeps.give {i : ι} (hkeeps : Keeps ⟨.running i, held, untaken⟩ ledger now n)
    (hbounded : ledger.Bounded now) :
    Keeps ⟨.running i, False, untaken⟩ (ledger.accept n i now) now n := by
  obtain ⟨htaken, hunsettled, ⟨k, htargeted, holder⟩, -⟩ := hkeeps
  refine ⟨htaken, hunsettled, ⟨k, htargeted, ?_⟩, False.elim, ?_⟩
  · rintro i' j (haccepted | ⟨-, rfl, -⟩) hother
    · exact holder i' j haccepted hother
    · exact absurd rfl hother
  · intro _
    exact ⟨now, Or.inr ⟨rfl, rfl, rfl⟩, hbounded.targeted n⟩

/-- A worker ends without settling, or is abandoned: the party is left behind. -/
theorem Keeps.lose {stage : Stage ι τ} (hkeeps : Keeps ⟨stage, held, untaken⟩ ledger now n)
    (halive : stage ≠ .absent) : Keeps ⟨.absent, held, True⟩ ledger now n := by
  have howes : ledger.Owes n := by
    by_contra hclear
    exact halive (hkeeps.idle_iff.mpr hclear).1
  refine ⟨fun hheld => ?_, fun _ => howes, fun _ htaken => absurd trivial htaken⟩
  rcases stage with _ | ⟨i, first⟩ | i
  · exact absurd rfl halive
  · exact creating_pressing hkeeps
  · exact hkeeps.2.2.2.1 hheld

/-- A worker settles: nothing is owed but what is held. -/
theorem Keeps.settle {i : ι} (hkeeps : Keeps ⟨.running i, held, untaken⟩ ledger now n) :
    Keeps ⟨.absent, held, untaken⟩ (ledger.settle n i) now n := by
  obtain ⟨htaken, -, -, hpressing, hfed⟩ := hkeeps
  refine ⟨hpressing, fun huntaken => absurd huntaken htaken, fun hnotHeld _ => ?_⟩
  obtain ⟨j, haccepted, hcovered⟩ := hfed hnotHeld
  have hsettled : (ledger.settle n i).Settled n i := Or.inr ⟨rfl, rfl⟩
  have hcovers : (ledger.settle n i).Covered n j := hcovered
  exact hcovers.settles haccepted hsettled

/-- Parties are targeted at a time newer than everything before: the chosen ones are held. -/
theorem Keeps.target {post : Post ι τ} (chosen : ν → Prop) {k : τ}
    (hkeeps : post.Keeps ledger now n) (hbounded : ledger.Bounded now) (hnewer : now < k) :
    Keeps ⟨post.stage, post.held ∨ chosen n, post.untaken⟩ (ledger.target chosen k) k n := by
  have hpressing (hchosenN : chosen n) : (ledger.target chosen k).Pressing n :=
    ⟨k, Or.inr ⟨hchosenN, rfl⟩, fun i j haccepted =>
    (hbounded.accepted n i j haccepted).trans_lt hnewer⟩
  have hstill (hold : ledger.Pressing n) : (ledger.target chosen k).Pressing n := by
    obtain ⟨x, htargeted, holder⟩ := hold
    exact ⟨x, Or.inl htargeted, holder⟩
  have hcovered {b : τ} (hunchosen : ¬chosen n) (hold : ledger.Covered n b) :
      (ledger.target chosen k).Covered n b := by
    rintro x (htargeted | ⟨hchosenN, -⟩)
    · exact hold x htargeted
    · exact absurd hchosenN hunchosen
  rcases post with ⟨_ | ⟨i, first⟩ | i, held, untaken⟩
  · obtain ⟨hold, howed, hnothing⟩ := hkeeps
    refine ⟨?_, ?_, ?_⟩
    · rintro (hheld | hchosenN)
      · exact hstill (hold hheld)
      · exact hpressing hchosenN
    · intro huntaken
      obtain ⟨x, htargeted, hunresolved⟩ := howed huntaken
      exact ⟨x, Or.inl htargeted, hunresolved⟩
    · rintro hfree htaken ⟨x, htargeted | ⟨hchosenN, -⟩, hunresolved⟩
      · exact hnothing (fun hheld => hfree (Or.inl hheld)) htaken ⟨x, htargeted, hunresolved⟩
      · exact hfree (Or.inr hchosenN)
  · obtain ⟨htaken, hearly, hfresh, ⟨x, htargeted, hreached, holder⟩, hall, hlate⟩ := hkeeps
    refine ⟨htaken, (hearly.trans_lt hnewer).le, ⟨hfresh.1, hfresh.2⟩,
      ⟨x, Or.inl htargeted, hreached, holder⟩, ?_, ?_⟩
    · intro hfree
      exact hcovered (fun hchosenN => hfree (Or.inr hchosenN))
        (hall fun hheld => hfree (Or.inl hheld))
    · rintro (hheld | hchosenN)
      · obtain ⟨y, hretargeted, hafter⟩ := hlate hheld
        exact ⟨y, Or.inl hretargeted, hafter⟩
      · exact ⟨k, Or.inr ⟨hchosenN, rfl⟩, hearly.trans_lt hnewer⟩
  · obtain ⟨htaken, hunsettled, ⟨x, htargeted, holder⟩, hold, hfed⟩ := hkeeps
    refine ⟨htaken, hunsettled, ⟨x, Or.inl htargeted, holder⟩, ?_, ?_⟩
    · rintro (hheld | hchosenN)
      · exact hstill (hold hheld)
      · exact hpressing hchosenN
    · intro hfree
      obtain ⟨j, haccepted, hall⟩ := hfed fun hheld => hfree (Or.inl hheld)
      exact ⟨j, haccepted, hcovered (fun hchosenN => hfree (Or.inr hchosenN)) hall⟩

/-- A party targeted before anyone accepted anything, or not targeted at all. -/
theorem keeps_initial {k : τ} (hfirst : ∀ x, ledger.Targeted n x → held ∧ x = k)
    (htargeted : held → ledger.Targeted n k) (hnothing : ∀ i j, ¬ledger.Accepted n i j) :
    Keeps ⟨.absent, held, False⟩ ledger now n := by
  refine ⟨fun hheld => ⟨k, htargeted hheld, fun i j haccepted => absurd haccepted (hnothing i j)⟩,
    False.elim, ?_⟩
  rintro hnotHeld - ⟨x, htargeted, -⟩
  exact hnotHeld (hfirst x htargeted).1

end Post

end LlmGraph.Lib
