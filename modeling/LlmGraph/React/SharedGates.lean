/- digest: The gates shared by the tool nodes of a superstep: nodes of one superstep hold one gate,
   which lets through at most its width of calls whatever they do. -/

import LlmGraph.Lib.Entries
import LlmGraph.React.ToolGate

set_option autoImplicit false
set_option relaxedAutoImplicit false

namespace LlmGraph.React

/-- The gates of the supersteps under way, each with how many tool nodes hold it. -/
structure SharedGates where
  gates : Nat → Option (Nat × Nat)

namespace SharedGates

def default : SharedGates := ⟨fun _ => none⟩

/-- The gate of a superstep, the one made at `fresh` when no tool node holds one yet. -/
def lease (shared : SharedGates) (superstep fresh : Nat) : SharedGates × Nat :=
  let (gate, holders) := (shared.gates superstep).getD (fresh, 0)
  (⟨Function.update shared.gates superstep (some (gate, holders + 1))⟩, gate)

/-- A tool node is done: the gate is forgotten with its last holder. -/
def drop (shared : SharedGates) (superstep : Nat) : SharedGates :=
  match shared.gates superstep with
  | none => shared
  | some (gate, holders) =>
      ⟨Function.update shared.gates superstep
        (if holders - 1 = 0 then none else some (gate, holders - 1))⟩

end SharedGates

structure Lease where
  gate : Nat
  superstep : Nat

/-- What the tool nodes do with their gates: a lease is taken with a width, used, and dropped. -/
inductive GateUse (W : Type) where
  | Lease (superstep width : Nat)
  | Use (lease : Nat) (op : GateOp W)
  | DropLease (lease : Nat)

/-- The gates made so far, the map of those in use, and the live leases by number. -/
structure ToolGates (W : Type) [Wakers W] where
  crowds : List (Crowd W)
  shared : SharedGates
  leases : List (Nat × Lease)
  leased : Nat

variable {W : Type} [Wakers W]

/-- Nothing at the gate borrows from the lease. -/
def Crowd.freeOf (crowd : Crowd W) (owner : Nat) : Bool :=
  decide (owner ∉ crowd.passes) &&
    (List.range crowd.entered).all fun handle =>
      (crowd.waits handle).all fun wait => decide (wait.owner ≠ owner)

namespace ToolGates

def new : ToolGates W := ⟨[], .default, [], 0⟩

def lease (loop : ToolGates W) (superstep width : Nat) : ToolGates W :=
  let (shared, gate) := loop.shared.lease superstep loop.crowds.length
  { crowds := if (loop.shared.gates superstep).isSome then loop.crowds
      else loop.crowds ++ [.new width]
    shared := shared
    leases := (loop.leased, ⟨gate, superstep⟩) :: loop.leases
    leased := loop.leased + 1 }

/-- One act of a tool node.  A lease outlives the waits and passes that borrow its gate. -/
def step (loop : ToolGates W) : GateUse W → Option (ToolGates W)
  | .Lease superstep width => some (loop.lease superstep width)
  | .Use number op => do
      let lease ← loop.leases.lookup number
      let crowd ← loop.crowds[lease.gate]?
      if crowd.ownerOf op = some number then
        let next ← crowd.step op
        return { loop with crowds := loop.crowds.set lease.gate next }
      else none
  | .DropLease number => do
      let lease ← loop.leases.lookup number
      let crowd ← loop.crowds[lease.gate]?
      if crowd.freeOf number then
        return { loop with
          shared := loop.shared.drop lease.superstep
          leases := loop.leases.eraseP (·.1 = number) }
      else none

def run (loop : ToolGates W) : List (GateUse W) → Option (ToolGates W)
  | [] => some loop
  | act :: rest => (loop.step act).bind (·.run rest)

/-- The owners of the passes that the tool nodes of a superstep hold, over all gates. -/
def running (loop : ToolGates W) (superstep : Nat) : List Nat :=
  (loop.crowds.flatMap Crowd.passes).filter fun owner =>
    ((loop.leases.lookup owner).map Lease.superstep) = some superstep

/-- A live lease has the gate of its superstep, one gate a superstep, its holders counted. -/
structure Sound (loop : ToolGates W) : Prop where
  numbers : (loop.leases.map Prod.fst).Nodup
  below : ∀ number lease, (number, lease) ∈ loop.leases → number < loop.leased
  held : ∀ number lease, (number, lease) ∈ loop.leases →
    ∃ holders, loop.shared.gates lease.superstep = some (lease.gate, holders)
  counted : ∀ superstep gate holders, loop.shared.gates superstep = some (gate, holders) →
    gate < loop.crowds.length ∧ 0 < holders ∧
      holders = loop.leases.countP (·.2.superstep = superstep)
  apart : ∀ superstep other gate holders holders',
    loop.shared.gates superstep = some (gate, holders) →
    loop.shared.gates other = some (gate, holders') → superstep = other
  crowds : ∀ gate crowd, loop.crowds[gate]? = some crowd → Crowd.Sound 0 crowd ∧
    Crowd.Owned (fun owner => ∃ lease, (owner, lease) ∈ loop.leases ∧ lease.gate = gate) crowd

section Leases

variable {number : Nat} {lease : Lease} {leases : List (Nat × Lease)}

private theorem lookup_of_mem (hnodup : (leases.map Prod.fst).Nodup)
    (hmem : (number, lease) ∈ leases) : leases.lookup number = some lease := by
  induction leases with
  | nil => cases hmem
  | cons entry rest ih =>
    obtain ⟨first, own⟩ := entry
    rw [List.map_cons, List.nodup_cons] at hnodup
    rw [Lib.lookup_cons_eq]
    rcases List.mem_cons.mp hmem with heq | hrest
    · cases heq
      exact if_pos rfl
    · have hne : number ≠ first := by
        intro hsame
        have hkey : number ∈ rest.map Prod.fst := List.mem_map_of_mem (f := Prod.fst) hrest
        exact hnodup.1 (hsame ▸ hkey)
      rw [if_neg hne]
      exact ih hnodup.2 hrest

private theorem perm_eraseP (hlookup : leases.lookup number = some lease) :
    leases.Perm ((number, lease) :: leases.eraseP (·.1 = number)) := by
  induction leases with
  | nil => cases hlookup
  | cons entry rest ih =>
    obtain ⟨first, own⟩ := entry
    rw [Lib.lookup_cons_eq] at hlookup
    by_cases hsame : number = first
    · rw [if_pos hsame, Option.some.injEq] at hlookup
      rw [List.eraseP_cons_of_pos (by simpa using hsame.symm), hsame, hlookup]
    · rw [if_neg hsame] at hlookup
      rw [List.eraseP_cons_of_neg (by simpa using Ne.symm hsame)]
      exact ((ih hlookup).cons _).trans (List.Perm.swap ..)

end Leases

variable {loop : ToolGates W}

theorem lease_new {superstep : Nat} (width : Nat) (hnone : loop.shared.gates superstep = none) :
    loop.lease superstep width = {
      crowds := loop.crowds ++ [.new width]
      shared := ⟨Function.update loop.shared.gates superstep (some (loop.crowds.length, 1))⟩
      leases := (loop.leased, ⟨loop.crowds.length, superstep⟩) :: loop.leases
      leased := loop.leased + 1 } := by
  simp only [lease, SharedGates.lease, hnone, Option.getD_none, Option.isSome_none,
    Bool.false_eq_true, if_false, Nat.zero_add]

theorem lease_held {superstep gate holders : Nat} (width : Nat)
    (hsome : loop.shared.gates superstep = some (gate, holders)) :
    loop.lease superstep width = {
      crowds := loop.crowds
      shared := ⟨Function.update loop.shared.gates superstep (some (gate, holders + 1))⟩
      leases := (loop.leased, ⟨gate, superstep⟩) :: loop.leases
      leased := loop.leased + 1 } := by
  simp only [lease, SharedGates.lease, hsome, Option.getD_some, Option.isSome_some, if_true]

namespace Sound

theorem new : Sound (ToolGates.new : ToolGates W) where
  numbers := List.nodup_nil
  below := by simp [ToolGates.new]
  held := by simp [ToolGates.new]
  counted := by simp [ToolGates.new, SharedGates.default]
  apart := by simp [ToolGates.new, SharedGates.default]
  crowds := by simp [ToolGates.new]

private theorem fresh (hsound : Sound loop) : loop.leased ∉ loop.leases.map Prod.fst := by
  intro hmem
  obtain ⟨⟨number, lease⟩, hentry, hkey⟩ := List.mem_map.mp hmem
  have hlt := hsound.below number lease hentry
  dsimp only at hkey
  omega

/-- The first node of a superstep makes its gate. -/
private theorem lease_none (hsound : Sound loop) {superstep : Nat} (width : Nat)
    (hnone : loop.shared.gates superstep = none) : Sound (loop.lease superstep width) := by
  rw [lease_new width hnone]
  have hother : ∀ number lease, (number, lease) ∈ loop.leases → lease.superstep ≠ superstep := by
    intro number lease hmem hsame
    obtain ⟨holders, hheld⟩ := hsound.held number lease hmem
    rw [hsame, hnone] at hheld
    cases hheld
  have hnobody : loop.leases.countP (·.2.superstep = superstep) = 0 := by
    rw [List.countP_eq_zero]
    rintro ⟨number, lease⟩ hmem
    simpa using hother number lease hmem
  refine ⟨List.nodup_cons.mpr ⟨hsound.fresh, hsound.numbers⟩, ?_, ?_, ?_, ?_, ?_⟩
  · intro number lease hmem
    rcases List.mem_cons.mp hmem with heq | hmem
    · cases heq
      exact Nat.lt_succ_self _
    · exact Nat.lt_succ_of_lt (hsound.below number lease hmem)
  · intro number lease hmem
    rcases List.mem_cons.mp hmem with heq | hmem
    · cases heq
      exact ⟨1, Function.update_self ..⟩
    · obtain ⟨holders, hheld⟩ := hsound.held number lease hmem
      exact ⟨holders, (Function.update_of_ne (hother number lease hmem) ..).trans hheld⟩
  · intro other gate holders hgates
    dsimp only at hgates
    by_cases hsame : other = superstep
    · rw [hsame, Function.update_self, Option.some.injEq, Prod.mk.injEq] at hgates
      obtain ⟨rfl, rfl⟩ := hgates
      refine ⟨by simp, Nat.one_pos, ?_⟩
      rw [hsame, List.countP_cons_of_pos (by simp), hnobody]
    · rw [Function.update_of_ne hsame] at hgates
      obtain ⟨hbelow, hpos, hcount⟩ := hsound.counted other gate holders hgates
      refine ⟨by rw [List.length_append]; omega, hpos, ?_⟩
      rw [List.countP_cons_of_neg (by simpa using Ne.symm hsame), hcount]
  · intro first second gate holders holders' hfirst hsecond
    dsimp only at hfirst hsecond
    by_cases hone : first = superstep
    · by_cases htwo : second = superstep
      · rw [hone, htwo]
      · rw [hone, Function.update_self, Option.some.injEq, Prod.mk.injEq] at hfirst
        rw [Function.update_of_ne htwo] at hsecond
        have hbelow := (hsound.counted second gate holders' hsecond).1
        omega
    · rw [Function.update_of_ne hone] at hfirst
      by_cases htwo : second = superstep
      · rw [htwo, Function.update_self, Option.some.injEq, Prod.mk.injEq] at hsecond
        have hbelow := (hsound.counted first gate holders hfirst).1
        omega
      · rw [Function.update_of_ne htwo] at hsecond
        exact hsound.apart first second gate holders holders' hfirst hsecond
  · intro gate crowd hcrowd
    dsimp only at hcrowd
    by_cases hold : gate < loop.crowds.length
    · rw [List.getElem?_append_left hold] at hcrowd
      obtain ⟨hgood, howned⟩ := hsound.crowds gate crowd hcrowd
      refine ⟨hgood, howned.imp ?_⟩
      rintro owner ⟨lease, hmem, hgate⟩
      exact ⟨lease, List.mem_cons_of_mem _ hmem, hgate⟩
    · rw [List.getElem?_append_right (by omega)] at hcrowd
      obtain rfl := List.mem_singleton.mp (List.mem_of_getElem? hcrowd)
      refine ⟨.new width, ?_, ?_⟩
      · intro handle wait hwait
        cases hwait
      · intro owner howner
        cases howner

/-- A later node of a superstep joins the ones that hold its gate. -/
private theorem lease_some (hsound : Sound loop) {superstep gate holders : Nat} (width : Nat)
    (hsome : loop.shared.gates superstep = some (gate, holders)) :
    Sound (loop.lease superstep width) := by
  rw [lease_held width hsome]
  refine ⟨List.nodup_cons.mpr ⟨hsound.fresh, hsound.numbers⟩, ?_, ?_, ?_, ?_, ?_⟩
  · intro number lease hmem
    rcases List.mem_cons.mp hmem with heq | hmem
    · cases heq
      exact Nat.lt_succ_self _
    · exact Nat.lt_succ_of_lt (hsound.below number lease hmem)
  · intro number lease hmem
    rcases List.mem_cons.mp hmem with heq | hmem
    · cases heq
      exact ⟨holders + 1, Function.update_self ..⟩
    · obtain ⟨others, hheld⟩ := hsound.held number lease hmem
      by_cases hsame : lease.superstep = superstep
      · rw [hsame, hsome, Option.some.injEq, Prod.mk.injEq] at hheld
        refine ⟨holders + 1, ?_⟩
        dsimp only
        rw [hsame, Function.update_self, hheld.1]
      · exact ⟨others, (Function.update_of_ne hsame ..).trans hheld⟩
  · intro other found others hgates
    dsimp only at hgates
    by_cases hsame : other = superstep
    · rw [hsame, Function.update_self, Option.some.injEq, Prod.mk.injEq] at hgates
      obtain ⟨rfl, rfl⟩ := hgates
      obtain ⟨hbelow, hpos, hcount⟩ := hsound.counted superstep gate holders hsome
      refine ⟨hbelow, Nat.succ_pos _, ?_⟩
      rw [hsame, List.countP_cons_of_pos (by simp), ← hcount]
    · rw [Function.update_of_ne hsame] at hgates
      obtain ⟨hbelow, hpos, hcount⟩ := hsound.counted other found others hgates
      refine ⟨hbelow, hpos, ?_⟩
      rw [List.countP_cons_of_neg (by simpa using Ne.symm hsame), hcount]
  · intro first second found others others' hfirst hsecond
    have hold : ∀ {other found others : Nat},
        Function.update loop.shared.gates superstep (some (gate, holders + 1)) other =
          some (found, others) → ∃ others, loop.shared.gates other = some (found, others) := by
      intro other found others hgates
      by_cases hsame : other = superstep
      · rw [hsame, Function.update_self, Option.some.injEq, Prod.mk.injEq] at hgates
        exact ⟨holders, by rw [hsame, hsome, hgates.1]⟩
      · rw [Function.update_of_ne hsame] at hgates
        exact ⟨others, hgates⟩
    obtain ⟨one, hone⟩ := hold hfirst
    obtain ⟨two, htwo⟩ := hold hsecond
    exact hsound.apart first second found one two hone htwo
  · intro found crowd hcrowd
    obtain ⟨hgood, howned⟩ := hsound.crowds found crowd hcrowd
    refine ⟨hgood, howned.imp ?_⟩
    rintro owner ⟨lease, hmem, hgate⟩
    exact ⟨lease, List.mem_cons_of_mem _ hmem, hgate⟩

/-- What a node does at its gate changes nothing else. -/
private theorem use (hsound : Sound loop) {number : Nat} {lease : Lease} {op : GateOp W}
    {crowd next : Crowd W} (hlease : loop.leases.lookup number = some lease)
    (hcrowd : loop.crowds[lease.gate]? = some crowd) (howner : crowd.ownerOf op = some number)
    (hstep : crowd.step op = some next) :
    Sound { loop with crowds := loop.crowds.set lease.gate next } := by
  refine ⟨hsound.numbers, hsound.below, hsound.held, ?_, hsound.apart, ?_⟩
  · intro superstep gate holders hgates
    rw [List.length_set]
    exact hsound.counted superstep gate holders hgates
  · intro gate found hfound
    by_cases hsame : lease.gate = gate
    · obtain ⟨hgood, howned⟩ := hsound.crowds lease.gate crowd hcrowd
      rw [← hsame, List.getElem?_set_self (List.getElem?_eq_some_iff.mp hcrowd).1,
        Option.some.injEq] at hfound
      subst hfound
      rw [← hsame]
      exact ⟨hgood.step hstep,
        howned.step howner ⟨lease, Lib.mem_of_lookup hlease, rfl⟩ hstep⟩
    · rw [List.getElem?_set_ne hsame] at hfound
      exact hsound.crowds gate found hfound

/-- A node that is done leaves the gate to the others of its superstep, or forgets it. -/
private theorem drop (hsound : Sound loop) {number : Nat} {lease : Lease} {crowd : Crowd W}
    (hlease : loop.leases.lookup number = some lease)
    (hcrowd : loop.crowds[lease.gate]? = some crowd) (hfree : crowd.freeOf number = true) :
    Sound { loop with
      shared := loop.shared.drop lease.superstep
      leases := loop.leases.eraseP (·.1 = number) } := by
  have hperm := perm_eraseP hlease
  have hmem : ∀ {entry}, entry ∈ loop.leases.eraseP (·.1 = number) → entry ∈ loop.leases :=
    List.mem_of_mem_eraseP
  have hstays : ∀ {other : Nat} {found : Lease}, (other, found) ∈ loop.leases → other ≠ number →
      (other, found) ∈ loop.leases.eraseP (·.1 = number) := by
    intro other found hfound hne
    rcases List.mem_cons.mp (hperm.mem_iff.mp hfound) with heq | hrest
    · exact absurd (Prod.mk.inj heq).1 hne
    · exact hrest
  obtain ⟨holders, hheld⟩ := hsound.held number lease (Lib.mem_of_lookup hlease)
  obtain ⟨hbelow, hpos, hcount⟩ := hsound.counted _ _ _ hheld
  have hdrop : (loop.shared.drop lease.superstep).gates =
      Function.update loop.shared.gates lease.superstep
        (if holders - 1 = 0 then none else some (lease.gate, holders - 1)) := by
    simp only [SharedGates.drop, hheld]
  have hfewer : holders - 1 =
      (loop.leases.eraseP (·.1 = number)).countP (·.2.superstep = lease.superstep) := by
    have hsum := hperm.countP_eq (·.2.superstep = lease.superstep)
    rw [List.countP_cons_of_pos (by simp)] at hsum
    omega
  have hold : ∀ {other found others : Nat},
      (loop.shared.drop lease.superstep).gates other = some (found, others) →
        ∃ others, loop.shared.gates other = some (found, others) := by
    intro other found others hgates
    rw [hdrop] at hgates
    by_cases hsame : other = lease.superstep
    · rw [hsame, Function.update_self, Option.ite_none_left_eq_some, Option.some.injEq,
        Prod.mk.injEq] at hgates
      exact ⟨holders, by rw [hsame, hheld, hgates.2.1]⟩
    · rw [Function.update_of_ne hsame] at hgates
      exact ⟨others, hgates⟩
  refine ⟨?_, fun other found hfound => hsound.below other found (hmem hfound), ?_, ?_, ?_, ?_⟩
  · exact hsound.numbers.sublist (List.eraseP_sublist.map _)
  · intro other found hfound
    obtain ⟨others, hothers⟩ := hsound.held other found (hmem hfound)
    dsimp only
    rw [hdrop]
    by_cases hsame : found.superstep = lease.superstep
    · have hsome : 0 < holders - 1 := by
        rw [hfewer]
        exact List.countP_pos_iff.mpr ⟨(other, found), hfound, by simpa using hsame⟩
      rw [hsame, hheld, Option.some.injEq, Prod.mk.injEq] at hothers
      exact ⟨holders - 1, by rw [hsame, Function.update_self, if_neg (by omega), hothers.1]⟩
    · exact ⟨others, (Function.update_of_ne hsame ..).trans hothers⟩
  · intro other found others hgates
    dsimp only at hgates
    rw [hdrop] at hgates
    by_cases hsame : other = lease.superstep
    · rw [hsame, Function.update_self, Option.ite_none_left_eq_some, Option.some.injEq,
        Prod.mk.injEq] at hgates
      obtain ⟨hsome, rfl, rfl⟩ := hgates
      exact ⟨hbelow, by omega, hsame ▸ hfewer⟩
    · rw [Function.update_of_ne hsame] at hgates
      obtain ⟨hlt, hpositive, hothers⟩ := hsound.counted other found others hgates
      refine ⟨hlt, hpositive, ?_⟩
      have hsum := hperm.countP_eq (·.2.superstep = other)
      rw [List.countP_cons_of_neg (by simpa using Ne.symm hsame)] at hsum
      rw [hothers, hsum]
  · intro first second found others others' hfirst hsecond
    obtain ⟨one, hone⟩ := hold hfirst
    obtain ⟨two, htwo⟩ := hold hsecond
    exact hsound.apart first second found one two hone htwo
  · intro gate found hfound
    obtain ⟨hgood, howned⟩ := hsound.crowds gate found hfound
    obtain ⟨hpasses, hwaits⟩ : number ∉ crowd.passes ∧ ∀ handle < crowd.entered,
        ∀ wait, crowd.waits handle = some wait → wait.owner ≠ number := by
      simpa [Crowd.freeOf, Option.all_eq_true] using hfree
    have hgone : ∀ owner, (owner ≠ number ∨ lease.gate ≠ gate) →
        (∃ lease, (owner, lease) ∈ loop.leases ∧ lease.gate = gate) →
        ∃ lease, (owner, lease) ∈ loop.leases.eraseP (·.1 = number) ∧ lease.gate = gate := by
      rintro owner hcase ⟨other, hother, hgate⟩
      refine ⟨other, hstays hother ?_, hgate⟩
      rintro rfl
      have hsame := lookup_of_mem hsound.numbers hother
      rw [hlease, Option.some.injEq] at hsame
      rcases hcase with hne | hne
      · exact hne rfl
      · exact hne (hsame ▸ hgate)
    refine ⟨hgood, ?_, ?_⟩
    · intro handle wait hwait
      refine hgone wait.owner ?_ (howned.waits handle wait hwait)
      by_cases hsame : lease.gate = gate
      · rw [← hsame, hcrowd, Option.some.injEq] at hfound
        subst hfound
        refine .inl (hwaits handle ?_ wait hwait)
        by_contra hborn
        rw [hgood.queued.unborn handle (by omega)] at hwait
        cases hwait
      · exact .inr hsame
    · intro owner howner
      refine hgone owner ?_ (howned.passes owner howner)
      by_cases hsame : lease.gate = gate
      · rw [← hsame, hcrowd, Option.some.injEq] at hfound
        subst hfound
        exact .inl fun heq => hpasses (heq ▸ howner)
      · exact .inr hsame

theorem step {next : ToolGates W} {act : GateUse W} (hsound : Sound loop)
    (hstep : loop.step act = some next) : Sound next := by
  cases act with
  | Lease superstep width =>
    cases hstep
    cases hgates : loop.shared.gates superstep with
    | none => exact hsound.lease_none width hgates
    | some entry => exact hsound.lease_some width hgates
  | Use number op =>
    simp only [ToolGates.step, Option.bind_eq_bind, Option.bind_eq_some_iff,
      Option.ite_none_right_eq_some, Option.pure_def, Option.some.injEq] at hstep
    obtain ⟨lease, hlease, crowd, hcrowd, howner, moved, hmoved, rfl⟩ := hstep
    exact hsound.use hlease hcrowd howner hmoved
  | DropLease number =>
    simp only [ToolGates.step, Option.bind_eq_bind, Option.bind_eq_some_iff,
      Option.ite_none_right_eq_some, Option.pure_def, Option.some.injEq] at hstep
    obtain ⟨lease, hlease, crowd, hcrowd, hfree, rfl⟩ := hstep
    exact hsound.drop hlease hcrowd hfree

theorem run {last : ToolGates W} {acts : List (GateUse W)} (hsound : Sound loop)
    (hrun : loop.run acts = some last) : Sound last := by
  induction acts generalizing loop with
  | nil =>
    cases hrun
    exact hsound
  | cons act rest ih =>
    obtain ⟨next, hstep, hrest⟩ := Option.bind_eq_some_iff.mp hrun
    exact ih (hsound.step hstep) hrest

end Sound

section Width

private theorem step_widths {next : ToolGates W} {act : GateUse W} {width : Nat}
    (hall : ∀ crowd ∈ loop.crowds, crowd.width = width)
    (hact : ∀ superstep wide, act = .Lease superstep wide → wide = width)
    (hstep : loop.step act = some next) : ∀ crowd ∈ next.crowds, crowd.width = width := by
  cases act with
  | Lease superstep wide =>
    cases hstep
    have hwide := hact superstep wide rfl
    cases hgates : loop.shared.gates superstep with
    | none =>
      intro crowd hmem
      rw [lease_new wide hgates] at hmem
      rcases List.mem_append.mp hmem with hold | hnew
      · exact hall crowd hold
      · obtain rfl := List.mem_singleton.mp hnew
        exact hwide
    | some entry =>
      rw [lease_held wide hgates]
      exact hall
  | Use number op =>
    simp only [ToolGates.step, Option.bind_eq_bind, Option.bind_eq_some_iff,
      Option.ite_none_right_eq_some, Option.pure_def, Option.some.injEq] at hstep
    obtain ⟨lease, -, crowd, hcrowd, -, moved, hmoved, rfl⟩ := hstep
    intro found hfound
    rcases List.mem_or_eq_of_mem_set hfound with hold | rfl
    · exact hall found hold
    · rw [Crowd.step_width hmoved]
      exact hall crowd (List.mem_of_getElem? hcrowd)
  | DropLease number =>
    simp only [ToolGates.step, Option.bind_eq_bind, Option.bind_eq_some_iff,
      Option.ite_none_right_eq_some, Option.pure_def, Option.some.injEq] at hstep
    obtain ⟨lease, -, crowd, -, -, rfl⟩ := hstep
    exact hall

private theorem run_widths {last : ToolGates W} {acts : List (GateUse W)} {width : Nat}
    (hall : ∀ crowd ∈ loop.crowds, crowd.width = width)
    (hacts : ∀ superstep wide, .Lease superstep wide ∈ acts → wide = width)
    (hrun : loop.run acts = some last) : ∀ crowd ∈ last.crowds, crowd.width = width := by
  induction acts generalizing loop with
  | nil =>
    cases hrun
    exact hall
  | cons act rest ih =>
    obtain ⟨next, hstep, hrest⟩ := Option.bind_eq_some_iff.mp hrun
    have hfirst := step_widths hall
      (fun superstep wide hact => hacts superstep wide (hact ▸ List.mem_cons_self)) hstep
    exact ih hfirst (fun superstep wide hmem => hacts superstep wide (List.mem_cons_of_mem _ hmem))
      hrest

/-- When only one gate has passes of a kind, there are no more of them than at that gate. -/
private theorem countP_flatMap_le {crowds : List (Crowd W)} {kind : Nat → Bool} {width : Nat}
    (gate : Nat) (hother : ∀ found crowd, crowds[found]? = some crowd → found ≠ gate →
      crowd.passes.countP kind = 0)
    (hthis : ∀ crowd, crowds[gate]? = some crowd → crowd.passes.countP kind ≤ width) :
    (crowds.flatMap Crowd.passes).countP kind ≤ width := by
  induction crowds generalizing gate with
  | nil => simp
  | cons crowd rest ih =>
    rw [List.flatMap_cons, List.countP_append]
    cases gate with
    | zero =>
      have hfirst := hthis crowd rfl
      have hrest : (rest.flatMap Crowd.passes).countP kind = 0 := by
        rw [List.countP_eq_zero]
        intro owner hmem
        obtain ⟨found, hfound, howner⟩ := List.mem_flatMap.mp hmem
        obtain ⟨index, hindex⟩ := List.mem_iff_getElem?.mp hfound
        exact List.countP_eq_zero.mp (hother (index + 1) found hindex (by omega)) owner howner
      omega
    | succ gate =>
      have hfirst := hother 0 crowd rfl (by omega)
      have hrest := ih gate
        (fun found other hfound hne => hother (found + 1) other hfound (by omega))
        (fun other hfound => hthis other hfound)
      omega

/-- The calls of the tool nodes of a superstep hold passes of one gate, so of its width at most. -/
theorem Sound.running_le {superstep width : Nat} (hsound : Sound loop)
    (hwidth : ∀ crowd ∈ loop.crowds, crowd.width = width) :
    (loop.running superstep).length ≤ width := by
  have hplace : ∀ (found : Nat) (crowd : Crowd W), loop.crowds[found]? = some crowd →
      ∀ owner ∈ crowd.passes,
      ((loop.leases.lookup owner).map Lease.superstep) = some superstep →
        ∃ holders, loop.shared.gates superstep = some (found, holders) := by
    intro found crowd hcrowd owner howner hkind
    obtain ⟨lease, hmem, rfl⟩ := (hsound.crowds found crowd hcrowd).2.passes owner howner
    rw [lookup_of_mem hsound.numbers hmem, Option.map_some, Option.some.injEq] at hkind
    exact hkind ▸ hsound.held owner lease hmem
  rw [running, ← List.countP_eq_length_filter]
  cases hgates : loop.shared.gates superstep with
  | none =>
    have hnobody : ∀ (found : Nat) (crowd : Crowd W), loop.crowds[found]? = some crowd →
        ∀ owner ∈ crowd.passes,
        ((loop.leases.lookup owner).map Lease.superstep) ≠ some superstep := by
      intro found crowd hcrowd owner howner hkind
      obtain ⟨holders, hheld⟩ := hplace found crowd hcrowd owner howner hkind
      rw [hgates] at hheld
      cases hheld
    have hzero : ∀ (found : Nat) (crowd : Crowd W), loop.crowds[found]? = some crowd →
        crowd.passes.countP
        (fun owner => ((loop.leases.lookup owner).map Lease.superstep) = some superstep) = 0 := by
      intro found crowd hcrowd
      rw [List.countP_eq_zero]
      intro owner howner
      simpa using hnobody found crowd hcrowd owner howner
    refine countP_flatMap_le 0 (fun found crowd hcrowd _ => hzero found crowd hcrowd) ?_
    intro crowd hcrowd
    rw [hzero 0 crowd hcrowd]
    exact Nat.zero_le _
  | some entry =>
    obtain ⟨gate, holders⟩ := entry
    refine countP_flatMap_le gate ?_ ?_
    · intro found crowd hcrowd hne
      rw [List.countP_eq_zero]
      intro owner howner hkind
      obtain ⟨others, hheld⟩ := hplace found crowd hcrowd owner howner (by simpa using hkind)
      rw [hgates, Option.some.injEq, Prod.mk.injEq] at hheld
      exact hne hheld.1.symm
    · intro crowd hcrowd
      have hsum := (hsound.crowds gate crowd hcrowd).1.places.sum
      have hwide := hwidth crowd (List.mem_of_getElem? hcrowd)
      have hle := List.countP_le_length
        (p := fun owner => decide (((loop.leases.lookup owner).map Lease.superstep) =
          some superstep)) (l := Crowd.passes crowd)
      omega

end Width

/-- At a gate of `width` places, whatever is entered, polled and dropped: every place is free, held
by a pass, or handed to a wait not polled since; none is free while a wait is queued; each queued or
handed id is the one of one wait; places are granted in the order of first polls, and a wait that
was polled is queued, was granted a place, or left; a place given back goes to the first wait, whose
task is woken, or becomes free; and the poll of a wait is ready exactly when a place is free at its
first poll or it was handed one, which is its pass from then on.  The tool nodes of a superstep share
one gate, and hold at most `width` passes between them. -/
theorem tool_gate (width : Nat) :
    (∀ (ops : List (GateOp W)) (crowd : Crowd W), (Crowd.new width).run ops = some crowd →
      crowd.state.free + crowd.passes.length + crowd.state.handed.card = width ∧
      (0 < crowd.state.free → crowd.state.queue = []) ∧
      (crowd.state.ids.Nodup ∧ ∀ id ∈ crowd.state.ids, id ∉ crowd.state.handed) ∧
      (∀ id, id ∈ crowd.state.ids ∨ id ∈ crowd.state.handed ↔
        ∃! handle, ∃ wait, crowd.waits handle = some wait ∧ wait.queued = some id) ∧
      Lib.Throughout InTurn crowd.log ∧
      (∀ wait, .First wait ∈ crowd.log → .Granted wait ∈ crowd.log ∨ .Left wait ∈ crowd.log ∨
        ∃ id ∈ crowd.state.ids, crowd.ticket id = wait) ∧
      (∀ op next, crowd.step op = some next → crowd.GivesBack op → crowd.Passed next) ∧
      ∀ handle wait cx next, crowd.waits handle = some wait →
        crowd.step (.Poll handle cx) = some next →
        crowd.Polled next handle wait (Enter.poll wait.queued cx crowd.state).2.2) ∧
    ∀ (acts : List (GateUse W)) (loop : ToolGates W), ToolGates.new.run acts = some loop →
      (∀ superstep wide, .Lease superstep wide ∈ acts → wide = width) →
        (∀ number other lease lease', (number, lease) ∈ loop.leases →
          (other, lease') ∈ loop.leases →
          (lease.gate = lease'.gate ↔ lease.superstep = lease'.superstep)) ∧
        (∀ crowd ∈ loop.crowds, crowd.Sound 0 ∧ crowd.width = width) ∧
        ∀ superstep, (loop.running superstep).length ≤ width := by
  constructor
  · intro ops crowd hrun
    have hsound := (Crowd.Sound.new width).run hrun
    have hwidth := Crowd.run_width hrun
    have hsum := hsound.places.sum
    rw [hwidth] at hsum
    refine ⟨hsum, hsound.places.idle, ⟨?_, hsound.queued.apart⟩, ?_,
      hsound.told.ordered, ?_, fun op next hstep hgives => hsound.gives_back hstep hgives,
      fun handle wait cx next hwait hstep => Crowd.polled_of_step hwait hstep⟩
    · exact hsound.queued.sorted.imp fun hlt => Nat.ne_of_lt hlt
    · intro id
      refine (hsound.queued.waits id).trans ⟨?_, ?_⟩
      · rintro ⟨handle, wait, hwait, hid⟩
        refine ⟨handle, ⟨wait, hwait, hid⟩, ?_⟩
        rintro other ⟨wait', hwait', hid'⟩
        exact hsound.queued.one other handle wait' wait id hwait' hwait hid' hid
      · rintro ⟨handle, ⟨wait, hwait, hid⟩, -⟩
        exact ⟨handle, wait, hwait, hid⟩
    · intro wait hfirst
      rcases hsound.told.served wait ((hsound.told.first wait).mp hfirst) with
        hqueued | hgranted | hleft
      · exact .inr (.inr hqueued)
      · exact .inl hgranted
      · exact .inr (.inl hleft)
  · intro acts loop hrun hacts
    have hsound := Sound.new.run hrun
    have hwidth := run_widths (fun _ hmem => by cases hmem) hacts hrun
    refine ⟨?_, ?_, fun superstep => hsound.running_le hwidth⟩
    · intro number other lease lease' hmem hmem'
      obtain ⟨holders, hheld⟩ := hsound.held number lease hmem
      obtain ⟨holders', hheld'⟩ := hsound.held other lease' hmem'
      constructor
      · intro hgate
        exact hsound.apart _ _ _ _ _ hheld (hgate ▸ hheld')
      · intro hsuperstep
        rw [hsuperstep, hheld', Option.some.injEq, Prod.mk.injEq] at hheld
        exact hheld.1.symm
    · intro crowd hmem
      obtain ⟨gate, hgate⟩ := List.mem_iff_getElem?.mp hmem
      exact ⟨(hsound.crowds gate crowd hgate).1, hwidth crowd hmem⟩

/-- The place of a dropped pass is handed to the wait that queued for it. -/
theorem tool_gate_handed :
    ∃ crowd : Crowd Contract.Waker,
      (Crowd.new 1).run [.Enter 0, .Poll 0 7, .Enter 0, .Poll 1 8, .DropPass 0] = some crowd ∧
        crowd.state.handed = {0} ∧
        crowd.state.free + crowd.passes.length + crowd.state.handed.card = 1 :=
  ⟨_, rfl, by decide,
    ((tool_gate 1).1 [.Enter 0, .Poll 0 7, .Enter 0, .Poll 1 8, .DropPass 0] _ rfl).1⟩

end ToolGates

end LlmGraph.React
