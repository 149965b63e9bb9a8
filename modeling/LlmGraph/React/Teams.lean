/- digest: The tool nodes of one superstep: who holds a seat, what the nodes have deposited, and the
   stages of the round they share. -/

import Mathlib.Tactic.Common
import LlmGraph.React.RoundWriter

set_option autoImplicit false
set_option relaxedAutoImplicit false

namespace LlmGraph.React

open Contract (Waker Poll)

namespace Team

variable {count node other : Nat} {team : Team} {place : Place}

@[simp] theorem move_place_self (team : Team) (node : Nat) (place : Place) :
    (team.move node place).place node = place :=
  Function.update_self ..

@[simp] private theorem move_given (team : Team) (node : Nat) (place : Place) :
    (team.move node place).given = team.given := rfl

@[simp] private theorem move_writes (team : Team) (node : Nat) (place : Place) :
    (team.move node place).writes = team.writes := rfl

theorem move_place_of_ne (team : Team) (place : Place) (hne : other ≠ node) :
    (team.move node place).place other = team.place other :=
  Function.update_of_ne hne ..

/-- A place that the node did not move to is one where a node stood. -/
theorem place_of_move {found : Place} (hne : found ≠ place)
    (hmoved : (team.move node place).place other = found) : team.place other = found := by
  by_cases heq : other = node
  · subst heq
    rw [move_place_self] at hmoved
    exact absurd hmoved.symm hne
  · rwa [move_place_of_ne team place heq] at hmoved

theorem asleep_of_move (place : Place) {waker : Waker}
    (hmoved : (team.move node place).asleep other = some waker) :
    team.asleep other = some waker := by
  by_cases heq : other = node
  · subst heq
    simp [move] at hmoved
  · simpa [move, Function.update_of_ne heq] using hmoved

private theorem holding_succ (count : Nat) (team : Team) :
    team.holding (count + 1) =
      team.holding count + if (team.place count).holds then 1 else 0 := by
  simp only [holding, List.range_succ, List.countP_append, List.countP_cons, List.countP_nil]
  omega

private theorem holding_move_outside (count node : Nat) (team : Team) (place : Place)
    (hout : count ≤ node) : (team.move node place).holding count = team.holding count := by
  induction count with
  | zero => rfl
  | succ count ih =>
    have hne : count ≠ node := by omega
    rw [holding_succ, holding_succ, ih (by omega)]
    simp [move, Function.update_of_ne hne]

theorem holding_move (count node : Nat) (team : Team) (place : Place)
    (hin : node < count) :
    (team.move node place).holding count + (if (team.place node).holds then 1 else 0) =
      team.holding count + (if place.holds then 1 else 0) := by
  induction count with
  | zero => omega
  | succ count ih =>
    rw [holding_succ, holding_succ]
    by_cases hlast : node = count
    · subst hlast
      rw [holding_move_outside _ _ _ _ (le_refl _)]
      simp only [move, Function.update_self]
      omega
    · have hne : count ≠ node := fun h => hlast h.symm
      have hlow := ih (by omega)
      simp only [move, Function.update_of_ne hne] at hlow ⊢
      omega

theorem holding_stay (hin : node < count) (hheld : (team.place node).holds = true)
    (hholds : place.holds = true) : (team.move node place).holding count = team.holding count := by
  have hholding := holding_move count node team place hin
  simp only [hheld, hholds, if_true] at hholding
  omega

theorem holding_leave (hin : node < count) (hheld : (team.place node).holds = true) :
    team.holding count = (team.move node .Left).holding count + 1 := by
  have hholding := holding_move count node team .Left hin
  have hleft : Place.Left.holds = false := rfl
  simp only [hheld, hleft, if_true] at hholding
  simpa using hholding.symm

theorem not_holds (hnone : team.holding count = 0) (hin : node < count) :
    (team.place node).holds = false := by
  have hall := List.countP_eq_zero.mp hnone node (List.mem_range.mpr hin)
  simpa using hall

theorem holding_pos (hin : node < count) (hholds : (team.place node).holds = true) :
    0 < team.holding count :=
  List.countP_pos_iff.mpr ⟨node, List.mem_range.mpr hin, hholds⟩

/-- The place of the deposit of a node: its results once it has deposited, a failure once it has left
without any. -/
def placed (team : Team) (node : Nat) : Option Deposit :=
  match team.place node with
  | .Unpolled | .Seated | .Writing => none
  | .Waiting | .Left => some ((team.given node).elim .Failed .Results)

theorem place_of_missing (hnone : team.placed node = none) :
    team.place node = .Unpolled ∨ team.place node = .Seated ∨ team.place node = .Writing := by
  cases hat : team.place node <;> simp [placed, hat] at hnone ⊢

theorem place_of_placed (hsome : team.placed node ≠ none) :
    team.place node = .Waiting ∨ team.place node = .Left := by
  cases hat : team.place node <;> simp [placed, hat] at hsome ⊢

theorem placed_move_of_ne (team : Team) (place : Place) (hne : other ≠ node) :
    (team.move node place).placed other = team.placed other := by
  simp [placed, move_place_of_ne team place hne]

/-- A move between two places that hold the same deposit leaves every deposit as it was. -/
theorem placed_move (team : Team) (node : Nat) (place : Place)
    (hsame : (team.move node place).placed node = team.placed node) :
    (team.move node place).placed = team.placed := by
  funext other
  by_cases heq : other = node
  · rw [heq, hsame]
  · exact placed_move_of_ne team place heq

theorem placed_give_of_ne (team : Team) (results : List ToolResult)
    (hne : other ≠ node) : (team.give node results).placed other = team.placed other := by
  simp [placed, give, Function.update_of_ne hne]

/-- A superstep has given its round to the store once all its nodes have deposited, and not
before. -/
def Due (count : Nat) (team : Team) : Prop :=
  0 < count → team.writes = (team.collected count).toList

private theorem mapM_of_missing {nodes : List Nat} (given : Nat → Option (List ToolResult))
    (hmem : node ∈ nodes) (hnone : given node = none) : nodes.mapM given = none := by
  induction nodes with
  | nil => cases hmem
  | cons head rest ih =>
    rw [List.mapM_cons]
    rcases List.mem_cons.mp hmem with rfl | hrest
    · simp [hnone]
    · rw [ih hrest]
      cases given head <;> rfl

theorem collected_of_missing (hin : node < count) (hnone : team.given node = none) :
    team.collected count = none := by
  rw [collected, mapM_of_missing team.given (List.mem_range.mpr hin) hnone]
  rfl

private theorem mapM_of_given {nodes : List Nat} {given : Nat → Option (List ToolResult)}
    {results : Nat → List ToolResult} (hgiven : ∀ node ∈ nodes, given node = some (results node)) :
    nodes.mapM given = some (nodes.map results) := by
  induction nodes with
  | nil => rfl
  | cons head rest ih =>
    rw [List.mapM_cons, hgiven head List.mem_cons_self,
      ih fun node hmem => hgiven node (List.mem_cons_of_mem _ hmem)]
    rfl

theorem collected_of_given {results : Nat → List ToolResult}
    (hgiven : ∀ node < count, team.given node = some (results node)) :
    team.collected count = some ((List.range count).map results).flatten := by
  rw [collected, mapM_of_given fun node hmem => hgiven node (List.mem_range.mp hmem)]
  rfl

private theorem gather_placed_of (team : Team) (nodes : List Nat)
    (hdone : ∀ node ∈ nodes, team.place node = .Waiting ∨ team.place node = .Left) :
    gather (nodes.map team.placed) = (nodes.mapM team.given).map List.flatten := by
  induction nodes with
  | nil => rfl
  | cons head rest ih =>
    have hrest := ih fun node hmem => hdone node (List.mem_cons_of_mem _ hmem)
    have hplaced : team.placed head = some ((team.given head).elim .Failed .Results) := by
      rcases hdone head List.mem_cons_self with hplace | hplace <;> simp [placed, hplace]
    rw [List.map_cons, List.mapM_cons, hplaced]
    cases hgiven : team.given head with
    | none => rfl
    | some results =>
      simp only [Option.elim, gather, hrest]
      cases rest.mapM team.given <;> rfl

/-- What the deposits of the nodes gather to, once none is missing. -/
theorem gather_placed (count : Nat) (team : Team)
    (hdone : ∀ node < count, team.place node = .Waiting ∨ team.place node = .Left) :
    gather ((List.range count).map team.placed) = team.collected count :=
  gather_placed_of team _ fun node hmem => hdone node (List.mem_range.mp hmem)

theorem set_map_range (count node : Nat) (before after : Nat → Option Deposit)
    (hsame : ∀ other, other ≠ node → after other = before other) :
    ((List.range count).map before).set node (after node) = (List.range count).map after := by
  apply List.ext_getElem
  · simp
  · intro index hleft hright
    rw [List.getElem_set]
    by_cases hindex : node = index
    · subst hindex
      simp
    · have hne := hsame index fun h => hindex h.symm
      simp [hindex, hne]

end Team

namespace RoundWriters

variable {writers : RoundWriters} {superstep other node : Nat} {round : Round}

@[simp] theorem insert_same (writers : RoundWriters) (superstep : Nat) (round : Round) :
    (writers.insert superstep round).rounds superstep = some round :=
  Function.update_self ..

@[simp] theorem remove_same (writers : RoundWriters) (superstep : Nat) :
    (writers.remove superstep).rounds superstep = none :=
  Function.update_self ..

theorem insert_other (hne : other ≠ superstep) :
    (writers.insert superstep round).rounds other = writers.rounds other :=
  Function.update_of_ne hne ..

private theorem remove_other (hne : other ≠ superstep) :
    (writers.remove superstep).rounds other = writers.rounds other :=
  Function.update_of_ne hne ..

/-- The round of a superstep holds the deposit of a node. -/
def Holds (writers : RoundWriters) (superstep node : Nat) : Prop :=
  ∃ round deposit, writers.rounds superstep = some round ∧
    round.deposits[node]? = some (some deposit)

theorem finish_other (outcome : Outcome) (hne : other ≠ superstep) :
    (writers.finish superstep outcome).1.rounds other = writers.rounds other := by
  rw [finish]
  split
  · exact insert_other hne
  · rfl

theorem deposit_other (deposit : Deposit) (hne : other ≠ superstep) :
    (writers.deposit superstep node deposit).1.rounds other = writers.rounds other := by
  rw [RoundWriters.deposit]
  split
  · rfl
  · dsimp only
    split
    · exact insert_other hne
    · split
      · exact insert_other hne
      · exact (finish_other _ hne).trans (insert_other hne)

private theorem release_other (hne : other ≠ superstep) :
    (writers.release superstep).rounds other = writers.rounds other := by
  rw [release]
  split
  · rfl
  · split
    · exact remove_other hne
    · exact insert_other hne

theorem drop_other (node : Nat) (deposited : Bool) (hne : other ≠ superstep) :
    (writers.drop superstep node deposited).1.rounds other = writers.rounds other := by
  rw [drop]
  split
  · exact release_other hne
  · exact (release_other hne).trans (deposit_other .Failed hne)

theorem pollEnd_other (waker : Waker) (hne : other ≠ superstep) :
    (writers.pollEnd superstep waker).1.rounds other = writers.rounds other := by
  rw [pollEnd]
  split
  · rfl
  · split
    · rfl
    · split
      · rfl
      · exact insert_other hne

end RoundWriters


/-- Where a round stands among the `count` nodes of its superstep.  It gathers while a node has not
deposited; one node writes; it has ended, and every node that waits is awake; or it is broken: it
holds no deposit of a node that left, and then no node waits for it. -/
inductive Stage (count : Nat) (round : Round) (team : Team) : Prop
  | gathering (houtcome : round.outcome = none)
      (hdeposits : round.deposits = (List.range count).map team.placed)
      (hmissing : ∃ node < count, team.place node = .Unpolled ∨ team.place node = .Seated)
      (hidle : ∀ node, team.place node ≠ .Writing) (hwrites : team.writes = [])
      (hwakers : ∀ node waker, team.asleep node = some waker → waker ∈ round.wakers)
  | writing (houtcome : round.outcome = none) (writer : Nat) (hwrites : team.Due count)
      (hdeposits : round.deposits = List.replicate count none)
      (hbusy : writer < count ∧ team.place writer = .Writing)
      (hothers : ∀ node < count, node ≠ writer →
        team.place node = .Waiting ∨ team.place node = .Left)
      (hwakers : ∀ node waker, team.asleep node = some waker → waker ∈ round.wakers)
  | ended (houtcome : round.outcome ≠ none) (hwrites : team.Due count)
      (hdone : ∀ node < count, team.place node = .Waiting ∨ team.place node = .Left)
      (hawake : ∀ node, team.asleep node = none)
  | broken (houtcome : round.outcome = none) (lost : Nat)
      (hleft : lost < count ∧ team.place lost = .Left ∧ round.deposits[lost]? = some none)
      (hidle : ∀ node, team.place node ≠ .Writing ∧ team.place node ≠ .Waiting)
      (hmissing : ∃ node < count, team.given node = none) (hwrites : team.writes = [])

/-- A round is there as long as a node holds a seat in it. -/
inductive Standing (count : Nat) : Option Round → Team → Prop
  | shut {team : Team} (hfree : team.holding count = 0) (hdue : team.Due count) :
      Standing count none team
  | under {round : Round} {team : Team} (hholders : round.holders = team.holding count)
      (hheld : 0 < team.holding count) (hlength : round.deposits.length = count)
      (hstage : Stage count round team) : Standing count (some round) team

/-- What holds of the nodes of a superstep whatever its round. -/
structure Proper (count : Nat) (team : Team) : Prop where
  outside : ∀ node, count ≤ node → team.place node = .Unpolled
  early : ∀ node, team.place node = .Unpolled ∨ team.place node = .Seated → team.given node = none
  sleeping : ∀ node waker, team.asleep node = some waker → team.place node = .Waiting

structure Sound (count : Nat) (round : Option Round) (team : Team) : Prop where
  proper : Proper count team
  standing : Standing count round team

namespace Proper

variable {count node : Nat} {team : Team}

theorem move (hproper : Proper count team) (place : Place) (hin : node < count)
    (hearly : place = .Unpolled ∨ place = .Seated → team.given node = none) :
    Proper count (team.move node place) where
  outside := by
    intro other hout
    have hne : other ≠ node := by omega
    simpa [Team.move, Function.update_of_ne hne] using hproper.outside other hout
  early := by
    intro other hplace
    by_cases heq : other = node
    · subst heq
      exact hearly (by simpa [Team.move] using hplace)
    · exact hproper.early other (by simpa [Team.move, Function.update_of_ne heq] using hplace)
  sleeping := by
    intro other waker hasleep
    by_cases heq : other = node
    · subst heq
      simp [Team.move] at hasleep
    · have hbefore := hproper.sleeping other waker
      simp only [Team.move, Function.update_of_ne heq] at hasleep ⊢
      exact hbefore hasleep

theorem give (hproper : Proper count team) (results : List ToolResult)
    (hplace : ¬(team.place node = .Unpolled ∨ team.place node = .Seated)) :
    Proper count (team.give node results) where
  outside := hproper.outside
  early := by
    intro other hearly
    have hne : other ≠ node := fun heq => hplace (heq ▸ hearly)
    simpa [Team.give, Function.update_of_ne hne] using hproper.early other hearly
  sleeping := hproper.sleeping

theorem write (hproper : Proper count team) (all : List ToolResult) :
    Proper count (team.write all) :=
  ⟨hproper.outside, hproper.early, hproper.sleeping⟩

theorem wake (hproper : Proper count team) (woken : List Waker) :
    Proper count (team.wake woken) where
  outside := hproper.outside
  early := hproper.early
  sleeping := by
    intro other waker hasleep
    exact hproper.sleeping other waker (Option.filter_eq_some_iff.mp hasleep).1

theorem sleep (hproper : Proper count team) (waker : Waker)
    (hplace : team.place node = .Waiting) : Proper count (team.sleep node waker) where
  outside := hproper.outside
  early := hproper.early
  sleeping := by
    intro other found hasleep
    by_cases heq : other = node
    · rw [heq]
      exact hplace
    · simp only [Team.sleep, Function.update_of_ne heq] at hasleep
      exact hproper.sleeping other found hasleep

end Proper

theorem due_of_missing {count : Nat} {team : Team}
    (hmissing : ∃ node < count, team.given node = none) (hwrites : team.writes = []) :
    team.Due count := by
  intro _
  obtain ⟨node, hin, hnone⟩ := hmissing
  rw [Team.collected_of_missing hin hnone, hwrites]
  rfl

theorem Stage.due {count : Nat} {round : Round} {team : Team}
    (hstage : Stage count round team) (hproper : Proper count team) : team.Due count := by
  cases hstage with
  | gathering houtcome hdeposits hmissing hidle hwrites hwakers =>
    obtain ⟨node, hin, hplace⟩ := hmissing
    exact due_of_missing ⟨node, hin, hproper.early node hplace⟩ hwrites
  | writing houtcome writer hwrites => exact hwrites
  | ended houtcome hwrites => exact hwrites
  | broken houtcome lost hleft hidle hmissing hwrites => exact due_of_missing hmissing hwrites

namespace Stage

variable {count node : Nat} {round : Round} {team : Team}

theorem holders (hstage : Stage count round team) (holders : Nat) :
    Stage count { round with holders } team := by
  cases hstage with
  | gathering houtcome hdeposits hmissing hidle hwrites hwakers =>
    exact .gathering houtcome hdeposits hmissing hidle hwrites hwakers
  | writing houtcome writer hwrites hdeposits hbusy hothers hwakers =>
    exact .writing houtcome writer hwrites hdeposits hbusy hothers hwakers
  | ended houtcome hwrites hdone hawake => exact .ended houtcome hwrites hdone hawake
  | broken houtcome lost hleft hidle hmissing hwrites =>
    exact .broken houtcome lost hleft hidle hmissing hwrites

/-- No node that has not deposited yet is seen once the round is written or has ended. -/
theorem early_of (hstage : Stage count round team) (hin : node < count)
    (hearly : team.place node = .Unpolled ∨ team.place node = .Seated) :
    round.outcome = none ∧ (∀ other, team.place other ≠ .Writing) ∧ team.writes = [] ∧
      ((round.deposits = (List.range count).map team.placed ∧
          ∀ other waker, team.asleep other = some waker → waker ∈ round.wakers) ∨
        (∃ lost < count, team.place lost = .Left ∧ round.deposits[lost]? = some none) ∧
          ∀ other, team.place other ≠ .Waiting) := by
  cases hstage with
  | gathering houtcome hdeposits hmissing hidle hwrites hwakers =>
    exact ⟨houtcome, hidle, hwrites, .inl ⟨hdeposits, hwakers⟩⟩
  | writing houtcome writer hwrites hdeposits hbusy hothers hwakers =>
    by_cases heq : node = writer
    · rw [heq, hbusy.2] at hearly
      simp at hearly
    · rcases hothers node hin heq with hat | hat <;> rw [hat] at hearly <;> simp at hearly
  | ended houtcome hwrites hdone hawake =>
    rcases hdone node hin with hat | hat <;> rw [hat] at hearly <;> simp at hearly
  | broken houtcome lost hleft hidle hmissing hwrites =>
    exact ⟨houtcome, fun other => (hidle other).1, hwrites,
      .inr ⟨⟨lost, hleft⟩, fun other => (hidle other).2⟩⟩

theorem writing_of (hstage : Stage count round team) (hin : node < count)
    (hplace : team.place node = .Writing) :
    round.outcome = none ∧ team.Due count ∧
      (∀ other < count, other ≠ node → team.place other = .Waiting ∨ team.place other = .Left) ∧
        ∀ other waker, team.asleep other = some waker → waker ∈ round.wakers := by
  cases hstage with
  | gathering houtcome hdeposits hmissing hidle => exact absurd hplace (hidle node)
  | writing houtcome writer hwrites hdeposits hbusy hothers hwakers =>
    have heq : node = writer := by
      by_contra hne
      rcases hothers node hin hne with hat | hat <;> rw [hplace] at hat <;> cases hat
    subst heq
    exact ⟨houtcome, hwrites, hothers, hwakers⟩
  | ended houtcome hwrites hdone =>
    rcases hdone node hin with hat | hat <;> rw [hplace] at hat <;> cases hat
  | broken houtcome lost hleft hidle => exact absurd hplace (hidle node).1

theorem ended_of (hstage : Stage count round team)
    (hdone : ∀ node < count, team.place node = .Waiting ∨ team.place node = .Left)
    (hwaiting : ∃ node, team.place node = .Waiting) :
    round.outcome ≠ none ∧ ∀ node, team.asleep node = none := by
  cases hstage with
  | gathering houtcome hdeposits hmissing =>
    obtain ⟨node, hin, hat⟩ := hmissing
    rcases hdone node hin with h | h <;> rw [h] at hat <;> simp at hat
  | writing houtcome writer hwrites hdeposits hbusy =>
    rcases hdone writer hbusy.1 with h | h <;> rw [hbusy.2] at h <;> cases h
  | ended houtcome hwrites hdone' hawake => exact ⟨houtcome, hawake⟩
  | broken houtcome lost hleft hidle =>
    obtain ⟨node, hat⟩ := hwaiting
    exact absurd hat (hidle node).2

end Stage

end LlmGraph.React
