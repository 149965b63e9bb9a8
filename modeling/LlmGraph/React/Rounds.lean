/- digest: The round of a superstep at every moment, as long as each deposit finds the deposits of the
   nodes that left, and no writer leaves nodes that wait: a node that waits sees its round end, and
   the round is written once, whole, in node order, or not at all. -/

import LlmGraph.React.Teams

set_option autoImplicit false
set_option relaxedAutoImplicit false

namespace LlmGraph.React

open Contract (Waker Poll)

namespace Nodes

/-- An event leaves the rounds and the nodes of every other superstep alone. -/
theorem step_other {count : Nat} {nodes next : Nodes} {superstep other : Nat}
    {event : Event} (hstep : nodes.step count superstep event = some next)
    (hne : other ≠ superstep) :
    next.writers.rounds other = nodes.writers.rounds other ∧
      next.teams other = nodes.teams other := by
  have hteams : ∀ writers team, (nodes.set writers superstep team).teams other =
      nodes.teams other := fun _ _ => Function.update_of_ne hne ..
  cases event with
  | Begin =>
    simp only [step, Option.ite_none_right_eq_some, Option.some.injEq] at hstep
    obtain ⟨-, rfl⟩ := hstep
    exact ⟨rfl, hteams _ _⟩
  | Seat node =>
    simp only [step, Option.ite_none_right_eq_some, Option.some.injEq] at hstep
    obtain ⟨-, rfl⟩ := hstep
    exact ⟨RoundWriters.insert_other hne, hteams _ _⟩
  | Deposit node results =>
    simp only [step, Option.ite_none_right_eq_some] at hstep
    obtain ⟨-, hstep⟩ := hstep
    have hround :
        (nodes.writers.deposit superstep node (.Results results)).1.rounds other =
          nodes.writers.rounds other := RoundWriters.deposit_other _ hne
    split at hstep <;> rename_i heq <;> rw [heq] at hround <;> cases hstep <;>
      exact ⟨hround, hteams _ _⟩
  | Written node stored =>
    simp only [step, Option.ite_none_right_eq_some, Option.some.injEq] at hstep
    obtain ⟨-, rfl⟩ := hstep
    exact ⟨RoundWriters.finish_other _ hne, hteams _ _⟩
  | Poll node waker =>
    simp only [step, Option.ite_none_right_eq_some] at hstep
    obtain ⟨-, hstep⟩ := hstep
    have hround :
        (nodes.writers.pollEnd superstep waker).1.rounds other = nodes.writers.rounds other :=
      RoundWriters.pollEnd_other _ hne
    split at hstep <;> rename_i heq <;> rw [heq] at hround <;> cases hstep
    · exact ⟨(RoundWriters.drop_other node true hne).trans hround, hteams _ _⟩
    · exact ⟨hround, hteams _ _⟩
  | Leave node =>
    simp only [step, Option.ite_none_right_eq_some, Option.some.injEq] at hstep
    obtain ⟨-, rfl⟩ := hstep
    exact ⟨RoundWriters.drop_other node _ hne, hteams _ _⟩

end Nodes
namespace Sound

variable {count node : Nat} {team : Team}

theorem opening (count : Nat) : Sound count none .opening where
  proper := ⟨fun _ _ => rfl, fun _ _ => rfl, fun _ _ hasleep => by cases hasleep⟩
  standing := .shut (List.countP_eq_zero.mpr fun _ _ => by simp [Team.opening, Place.holds])
    fun hcount => due_of_missing ⟨0, hcount, rfl⟩ rfl hcount

/-- A node that holds a seat finds a round. -/
theorem under {found : Option Round} (hsound : Sound count found team)
    (hholds : (team.place node).holds = true) :
    node < count ∧ ∃ round, found = some round ∧ round.holders = team.holding count ∧
      round.deposits.length = count ∧ Stage count round team := by
  have hin : node < count := by
    by_contra hout
    rw [hsound.proper.outside node (by omega)] at hholds
    cases hholds
  have hpos := Team.holding_pos hin hholds
  cases hsound.standing with
  | shut hfree => omega
  | under hholders _ hlength hstage => exact ⟨hin, _, rfl, hholders, hlength, hstage⟩

theorem due {found : Option Round} (hsound : Sound count found team) :
    team.Due count := by
  cases hsound.standing with
  | shut _ hdue => exact hdue
  | under _ _ _ hstage => exact hstage.due hsound.proper

/-- A node takes its seat. -/
private theorem seat {writers : RoundWriters} {superstep : Nat}
    (hsound : Sound count (writers.rounds superstep) team) (hin : node < count)
    (hplace : team.place node = .Unpolled) :
    Sound count ((writers.seat superstep count).rounds superstep) (team.move node .Seated) := by
  have hnone := hsound.proper.early node (.inl hplace)
  have hproper := hsound.proper.move .Seated hin fun _ => hnone
  have hholding := Team.holding_move count node team .Seated hin
  simp only [hplace, Place.holds] at hholding
  have hplaced : (team.move node .Seated).placed = team.placed :=
    Team.placed_move team node .Seated (by simp [Team.placed, hplace])
  refine ⟨hproper, ?_⟩
  rw [RoundWriters.seat, RoundWriters.insert_same]
  generalize writers.rounds superstep = found at hsound
  have hmissing : ∃ node < count, team.given node = none := ⟨node, hin, hnone⟩
  cases hsound.standing with
  | shut hfree' hdue =>
    have hfree : ∀ other, team.place other = .Unpolled ∨ team.place other = .Left := by
      intro other
      by_cases hother : other < count
      · have hholds := Team.not_holds hfree' hother
        cases hat : team.place other <;> simp_all [Place.holds]
      · exact .inl (hsound.proper.outside other (by omega))
    have hwrites : team.writes = [] := by
      rw [hdue (by omega), Team.collected_of_missing hin hnone]
      rfl
    have hidle : ∀ other place, place = .Writing ∨ place = .Waiting →
        (team.move node .Seated).place other ≠ place := by
      rintro other place hbusy hat
      have hbefore := Team.place_of_move (by rintro rfl; simp at hbusy) hat
      rcases hfree other with hother | hother <;> rw [hother] at hbefore <;> subst hbefore <;>
        simp at hbusy
    have hdeposits : (Round.default.deposits ++
        List.replicate (count - Round.default.deposits.length) (none : Option Deposit)) =
          List.replicate count none := rfl
    refine .under ?_ ?_ ?_ ?_
    · simp only [Option.getD_none, Round.default]
      simp at hholding
      omega
    · simp at hholding
      omega
    · simp [Round.default]
    · by_cases hleft : ∃ lost < count, team.place lost = .Left
      · obtain ⟨lost, hlost, hat⟩ := hleft
        have hne : lost ≠ node := by
          rintro rfl
          rw [hplace] at hat
          cases hat
        refine .broken rfl lost ⟨hlost, ?_, ?_⟩ ?_ hmissing hwrites
        · rw [Team.move_place_of_ne team .Seated hne, hat]
        · simp [Round.default, hlost]
        · exact fun other => ⟨hidle other _ (.inl rfl), hidle other _ (.inr rfl)⟩
      · refine .gathering rfl ?_ ⟨node, hin, .inr (by simp)⟩ (fun other => hidle other _ (.inl rfl))
          hwrites ?_
        · rw [Option.getD_none, hdeposits, hplaced]
          apply List.ext_getElem
          · simp
          · intro index hindex _
            have hother : index < count := by simpa using hindex
            have hat : team.place index = .Unpolled :=
              (hfree index).resolve_right fun h => hleft ⟨index, hother, h⟩
            simp [Team.placed, hat]
        · intro other waker hasleep
          have hwaits := hsound.proper.sleeping other waker (Team.asleep_of_move _ hasleep)
          rcases hfree other with hother | hother <;> rw [hother] at hwaits <;> cases hwaits
  | @under round _ hholders hheld hlength hstage =>
    have hsame : round.deposits ++ List.replicate (count - round.deposits.length) none =
        round.deposits := by simp [hlength]
    simp only [Option.getD_some, hsame]
    refine .under ?_ ?_ hlength (Stage.holders ?_ _)
    · simp at hholding ⊢
      omega
    · simp at hholding
      omega
    · obtain ⟨houtcome, hidle, hwrites, ⟨hdeposits, hwakers⟩ | ⟨⟨lost, hlost, hat, hgone⟩, hcalm⟩⟩ :=
        hstage.early_of hin (.inl hplace)
      · refine .gathering houtcome (by rw [hdeposits, hplaced]) ⟨node, hin, .inr (by simp)⟩ ?_
          hwrites ?_
        · exact fun other hwriting => hidle other (Team.place_of_move (by simp) hwriting)
        · exact fun other waker hasleep => hwakers other waker (Team.asleep_of_move _ hasleep)
      · have hne : lost ≠ node := by
          rintro rfl
          rw [hplace] at hat
          cases hat
        refine .broken houtcome lost ⟨hlost, ?_, hgone⟩ (fun other => ⟨?_, ?_⟩) hmissing hwrites
        · rw [Team.move_place_of_ne team .Seated hne, hat]
        · exact fun hwriting => hidle other (Team.place_of_move (by simp) hwriting)
        · exact fun hwaiting => hcalm other (Team.place_of_move (by simp) hwaiting)

/-- What a deposit does to a round that holds the deposits of `team`, on the nodes as they stand
once the deposit is in. -/
private theorem deposit_spec {writers : RoundWriters} {superstep : Nat} {round : Round}
    {after : Team} (deposit : Deposit) (hround : writers.rounds superstep = some round)
    (hdeposits : round.deposits = (List.range count).map team.placed)
    (hnode : after.placed node = some deposit)
    (hsame : ∀ other, other ≠ node → after.placed other = team.placed other)
    (hidle : ∀ other, after.place other ≠ .Writing) :
    ((∃ other < count, after.place other = .Unpolled ∨ after.place other = .Seated) ∧
        (writers.deposit superstep node deposit).1.rounds superstep =
          some { round with deposits := (List.range count).map after.placed } ∧
        (writers.deposit superstep node deposit).2 = (none, [])) ∨
      (∀ other < count, after.place other = .Waiting ∨ after.place other = .Left) ∧
        ((∃ all, after.collected count = some all ∧
            (writers.deposit superstep node deposit).1.rounds superstep =
              some { round with deposits := List.replicate count none } ∧
            (writers.deposit superstep node deposit).2 = (some all, [])) ∨
          after.collected count = none ∧
            (writers.deposit superstep node deposit).1.rounds superstep =
              some { round with
                deposits := List.replicate count none
                outcome := some .NotWritten
                wakers := [] } ∧
            (writers.deposit superstep node deposit).2 = (none, round.wakers)) := by
  have hset : round.deposits.set node (some deposit) = (List.range count).map after.placed := by
    rw [hdeposits, ← hnode]
    exact Team.set_map_range count node _ _ hsame
  simp only [RoundWriters.deposit, hround, hset]
  by_cases hmissing : ((List.range count).map after.placed).any Option.isNone = true
  · left
    obtain ⟨other, hother, hnone⟩ : ∃ other < count, after.placed other = none := by
      simpa using hmissing
    refine ⟨⟨other, hother, ?_⟩, by rw [if_pos hmissing]; exact RoundWriters.insert_same .., by
      rw [if_pos hmissing]⟩
    rcases Team.place_of_missing hnone with hat | hat | hat
    · exact .inl hat
    · exact .inr hat
    · exact absurd hat (hidle other)
  · right
    have hdone : ∀ other < count, after.place other = .Waiting ∨ after.place other = .Left := by
      intro other hother
      refine Team.place_of_placed fun hnone => hmissing ?_
      simpa using ⟨other, hother, hnone⟩
    have htaken : ((List.range count).map after.placed).map (fun _ => (none : Option Deposit)) =
        List.replicate count none := by simp [Function.comp_def]
    refine ⟨hdone, ?_⟩
    simp only [if_neg hmissing, htaken, Team.gather_placed count after hdone]
    cases hall : after.collected count with
    | some all => exact .inl ⟨all, rfl, by simp, rfl⟩
    | none =>
      right
      simp [RoundWriters.finish]

private theorem awake_of_woken {woken : List Waker}
    (hwoken : ∀ waker, team.asleep node = some waker → waker ∈ woken) :
    (team.wake woken).asleep node = none := by
  cases hasleep : team.asleep node with
  | none => simp [Team.wake, hasleep]
  | some waker => simp [Team.wake, hasleep, hwoken waker hasleep]

/-- A node that holds a seat deposits its results, in a round that holds the deposits of the nodes
that left. -/
private theorem deposit {writers next : RoundWriters} {superstep : Nat}
    {results : List ToolResult} {all : Option (List ToolResult)} {woken : List Waker}
    (hsound : Sound count (writers.rounds superstep) team) (hplace : team.place node = .Seated)
    (hkept : ∀ other, team.place other = .Left → writers.Holds superstep other)
    (hdeposit : writers.deposit superstep node (.Results results) = (next, all, woken)) :
    (∀ whole, all = some whole → Sound count (next.rounds superstep)
        (((team.give node results).write whole).move node .Writing)) ∧
      (all = none → Sound count (next.rounds superstep)
        (((team.give node results).move node .Waiting).wake woken)) := by
  have hseated : (team.place node).holds = true := by
    rw [hplace]
    rfl
  obtain ⟨hin, round, hround, hholders, hlength, hstage⟩ := hsound.under hseated
  obtain ⟨houtcome, hidle, hwrites, hstanding⟩ := hstage.early_of hin (.inr hplace)
  have hgathers : round.deposits = (List.range count).map team.placed ∧
      ∀ other waker, team.asleep other = some waker → waker ∈ round.wakers := by
    rcases hstanding with hgathers | ⟨⟨lost, -, hleft, hgone⟩, -⟩
    · exact hgathers
    · obtain ⟨found, given, hfound, hthere⟩ := hkept lost hleft
      rw [hround] at hfound
      cases hfound
      rw [hgone] at hthere
      cases hthere
  have hheld : ∀ place, place.holds = true →
      (team.move node place).holding count = team.holding count :=
    fun _ hholds => Team.holding_stay hin hseated hholds
  have hpos := Team.holding_pos hin hseated
  have hproper : ∀ place, ¬(place = .Unpolled ∨ place = .Seated) →
      Proper count ((team.give node results).move node place) := by
    intro place hlate
    exact (hsound.proper.move place hin fun hearly => absurd hearly hlate).give results
      (by simpa using hlate)
  have hspec := deposit_spec (.Results results) hround hgathers.1
    (show ((team.give node results).move node .Waiting).placed node = some (.Results results) by
      simp [Team.placed, Team.give])
    (fun other hne => by
      rw [Team.placed_move_of_ne _ _ hne, Team.placed_give_of_ne team results hne])
    (fun other hat => hidle other (Team.place_of_move (by simp) hat))
  rw [hdeposit] at hspec
  obtain ⟨⟨missing, hin', hat⟩, hafter, hout⟩ | ⟨hdone, ⟨whole, hwhole, hafter, hout⟩ |
    ⟨hlost, hafter, hout⟩⟩ := hspec <;> cases hout
  · refine ⟨fun _ hsome => (by cases hsome), fun _ => ⟨(hproper .Waiting (by simp)).wake [], ?_⟩⟩
    rw [hafter]
    refine .under (hholders.trans (hheld .Waiting rfl).symm) ?_ (by simp) ?_
    · exact (hheld .Waiting rfl).symm ▸ hpos
    · refine .gathering houtcome rfl ⟨missing, hin', hat⟩ ?_ hwrites ?_
      · exact fun other hat => hidle other (Team.place_of_move (by simp) hat)
      · intro other waker hasleep
        exact hgathers.2 other waker
          (Team.asleep_of_move .Waiting (Option.filter_eq_some_iff.mp hasleep).1)
  · refine ⟨fun found hfound => ?_, fun hnone => (by cases hnone)⟩
    cases hfound
    refine ⟨(hproper .Writing (by simp)).write whole, ?_⟩
    rw [hafter]
    refine .under (hholders.trans (hheld .Writing rfl).symm) ?_ (by simp) ?_
    · exact (hheld .Writing rfl).symm ▸ hpos
    · refine .writing houtcome node ?_ rfl ⟨hin, by simp⟩ ?_ ?_
      · intro _
        show team.writes ++ [whole] = _
        have hcollected : Team.collected count
            (((team.give node results).write whole).move node .Writing) = some whole := hwhole
        rw [hwrites, hcollected]
        rfl
      · intro other hother hne
        have hother' := hdone other hother
        rw [Team.move_place_of_ne _ _ hne] at hother' ⊢
        exact hother'
      · exact fun other waker hasleep =>
          hgathers.2 other waker (Team.asleep_of_move .Writing hasleep)
  · refine ⟨fun _ hsome => (by cases hsome), fun _ =>
      ⟨(hproper .Waiting (by simp)).wake round.wakers, ?_⟩⟩
    rw [hafter]
    refine .under (hholders.trans (hheld .Waiting rfl).symm) ?_ (by simp) ?_
    · exact (hheld .Waiting rfl).symm ▸ hpos
    · refine .ended (by simp) ?_ hdone ?_
      · intro _
        have hcollected : Team.collected count
            (((team.give node results).move node .Waiting).wake round.wakers) = none := hlost
        show team.writes = _
        rw [hwrites, hcollected]
        rfl
      · exact fun other => awake_of_woken fun waker hasleep =>
          hgathers.2 other waker (Team.asleep_of_move .Waiting hasleep)

/-- The writer is back from the store. -/
private theorem written {writers next : RoundWriters} {superstep : Nat} {outcome : Outcome}
    {woken : List Waker} (hsound : Sound count (writers.rounds superstep) team)
    (hplace : team.place node = .Writing)
    (hfinish : writers.finish superstep outcome = (next, woken)) :
    Sound count (next.rounds superstep) ((team.move node .Waiting).wake woken) := by
  have hwriting : (team.place node).holds = true := by
    rw [hplace]
    rfl
  obtain ⟨hin, round, hround, hholders, hlength, hstage⟩ := hsound.under hwriting
  obtain ⟨-, hdue, hothers, hwakers⟩ := hstage.writing_of hin hplace
  have hheld : (team.move node .Waiting).holding count = team.holding count :=
    Team.holding_stay hin hwriting rfl
  have hpos := Team.holding_pos hin hwriting
  simp only [RoundWriters.finish, hround, Prod.mk.injEq] at hfinish
  obtain ⟨rfl, rfl⟩ := hfinish
  refine ⟨(hsound.proper.move .Waiting hin (by simp)).wake _, ?_⟩
  rw [RoundWriters.insert_same]
  refine .under ?_ ?_ hlength (.ended (by simp) hdue ?_ ?_)
  · show round.holders = (team.move node .Waiting).holding count
    omega
  · show 0 < (team.move node .Waiting).holding count
    omega
  · intro other hother
    by_cases heq : other = node
    · subst heq
      exact .inl (Team.move_place_self ..)
    · have hat := hothers other hother heq
      rwa [← Team.move_place_of_ne team .Waiting heq] at hat
  · exact fun other => awake_of_woken fun waker hasleep =>
      hwakers other waker (Team.asleep_of_move _ hasleep)

/-- A node that has left gives its seat back. -/
private theorem release {writers : RoundWriters} {superstep : Nat} {round : Round}
    (hround : writers.rounds superstep = some round)
    (hholders : round.holders = team.holding count + 1) (hlength : round.deposits.length = count)
    (hstage : Stage count round team) (hproper : Proper count team) :
    Sound count ((writers.release superstep).rounds superstep) team := by
  refine ⟨hproper, ?_⟩
  simp only [RoundWriters.release, hround]
  split
  · rw [RoundWriters.remove_same]
    exact .shut (by omega) (hstage.due hproper)
  · rw [RoundWriters.insert_same]
    refine .under ?_ ?_ hlength (hstage.holders _)
    · show round.holders - 1 = team.holding count
      omega
    · omega

private theorem wake_nothing {found : Option Round} (hsound : Sound count found team) :
    Sound count found (team.wake []) := by
  have hasleep : ∀ node, ((team.asleep node).filter fun waker =>
      !([] : List Waker).contains waker) = team.asleep node := by
    intro node
    cases team.asleep node <;> rfl
  have hsame : team.wake [] = team := by
    simp only [Team.wake, hasleep]
  rwa [hsame]

/-- A node that waits leaves. -/
private theorem leave_waiting {writers : RoundWriters} {superstep : Nat}
    (hsound : Sound count (writers.rounds superstep) team)
    (hplace : team.place node = .Waiting) :
    Sound count ((writers.release superstep).rounds superstep) (team.move node .Left) := by
  have hwaiting : (team.place node).holds = true := by
    rw [hplace]
    rfl
  obtain ⟨hin, round, hround, hholders, hlength, hstage⟩ := hsound.under hwaiting
  have hproper := hsound.proper.move .Left hin (by simp)
  refine release hround (hholders.trans (Team.holding_leave hin hwaiting)) hlength ?_ hproper
  have hplaced : (team.move node .Left).placed = team.placed :=
    Team.placed_move team node .Left (by simp [Team.placed, hplace])
  have hlate : ∀ other, (team.place other = .Waiting ∨ team.place other = .Left) →
      (team.move node .Left).place other = .Waiting ∨ (team.move node .Left).place other = .Left := by
    intro other hat
    by_cases heq : other = node
    · subst heq
      exact .inr (Team.move_place_self ..)
    · rwa [Team.move_place_of_ne team .Left heq]
  have hasleep : ∀ other waker, (team.move node .Left).asleep other = some waker →
      team.asleep other = some waker := fun _ _ => Team.asleep_of_move _
  cases hstage with
  | gathering houtcome hdeposits hmissing hidle hwrites hwakers =>
    obtain ⟨short, hshort, hat⟩ := hmissing
    have hne : short ≠ node := by
      rintro rfl
      rw [hplace] at hat
      simp at hat
    refine .gathering houtcome (hplaced ▸ hdeposits) ⟨short, hshort, ?_⟩ ?_ hwrites ?_
    · rwa [Team.move_place_of_ne team .Left hne]
    · exact fun other hwriting => hidle other (Team.place_of_move (by simp) hwriting)
    · exact fun other waker h => hwakers other waker (hasleep other waker h)
  | writing houtcome writer hwrites hdeposits hbusy hothers hwakers =>
    have hne : writer ≠ node := by
      rintro rfl
      rw [hplace] at hbusy
      cases hbusy.2
    refine .writing houtcome writer hwrites hdeposits ⟨hbusy.1, ?_⟩ ?_ ?_
    · rw [Team.move_place_of_ne team .Left hne]
      exact hbusy.2
    · exact fun other hother hother' => hlate other (hothers other hother hother')
    · exact fun other waker h => hwakers other waker (hasleep other waker h)
  | ended houtcome hwrites hdone hawake =>
    refine .ended houtcome hwrites (fun other hother => hlate other (hdone other hother)) ?_
    intro other
    cases h : (team.move node .Left).asleep other with
    | none => rfl
    | some waker => rw [← hawake other, hasleep other waker h]
  | broken houtcome lost hleft hidle hmissing hwrites => exact absurd hplace (hidle node).2

/-- A node that waits looks for the round's end. -/
private theorem poll {writers next : RoundWriters} {superstep : Nat} {waker : Waker}
    {found : Poll Outcome} (hsound : Sound count (writers.rounds superstep) team)
    (hplace : team.place node = .Waiting)
    (hpoll : writers.pollEnd superstep waker = (next, found)) :
    (∀ outcome, found = .Ready outcome → next = writers) ∧
      (found = .Pending → Sound count (next.rounds superstep) (team.sleep node waker)) := by
  have hwaiting : (team.place node).holds = true := by
    rw [hplace]
    rfl
  obtain ⟨hin, round, hround, hholders, hlength, hstage⟩ := hsound.under hwaiting
  have hpos := Team.holding_pos hin hwaiting
  simp only [RoundWriters.pollEnd, hround] at hpoll
  cases houtcome : round.outcome with
  | some outcome =>
    rw [houtcome] at hpoll
    cases hpoll
    exact ⟨fun _ _ => rfl, fun hpending => (by cases hpending)⟩
  | none =>
    rw [houtcome] at hpoll
    have hafter : ∃ wakers, next.rounds superstep = some { round with wakers } ∧
        waker ∈ wakers ∧ round.wakers ⊆ wakers ∧ found = .Pending := by
      by_cases hknown : round.wakers.contains waker = true
      · simp only [hknown, if_true, Prod.mk.injEq] at hpoll
        obtain ⟨rfl, rfl⟩ := hpoll
        exact ⟨round.wakers, hround, by simpa using hknown, fun _ h => h, rfl⟩
      · simp only [hknown] at hpoll
        cases hpoll
        exact ⟨round.wakers ++ [waker], by rw [← houtcome]; exact RoundWriters.insert_same ..,
          by simp, by simp, rfl⟩
    obtain ⟨wakers, hnext, hmem, hsub, rfl⟩ := hafter
    refine ⟨fun _ hready => (by cases hready), fun _ => ⟨hsound.proper.sleep waker hplace, ?_⟩⟩
    have hasleep : ∀ other slept, (team.sleep node waker).asleep other = some slept →
        slept = waker ∨ team.asleep other = some slept := by
      intro other slept h
      by_cases heq : other = node
      · subst heq
        simp only [Team.sleep, Function.update_self, Option.some.injEq] at h
        exact .inl h.symm
      · simp only [Team.sleep, Function.update_of_ne heq] at h
        exact .inr h
    rw [hnext]
    refine .under hholders hpos hlength ?_
    cases hstage with
    | gathering houtcome' hdeposits hmissing hidle hwrites hwithin =>
      refine .gathering houtcome' hdeposits hmissing hidle hwrites ?_
      intro other slept h
      rcases hasleep other slept h with rfl | h
      · exact hmem
      · exact hsub (hwithin other slept h)
    | writing houtcome' writer hwrites hdeposits hbusy hothers hwithin =>
      refine .writing houtcome' writer hwrites hdeposits hbusy hothers ?_
      intro other slept h
      rcases hasleep other slept h with rfl | h
      · exact hmem
      · exact hsub (hwithin other slept h)
    | ended houtcome' => exact absurd houtcome houtcome'
    | broken houtcome' lost hleft hidle => exact absurd hplace (hidle node).2

/-- The writer leaves in the middle of the write, once no other node waits. -/
private theorem leave_writing {writers : RoundWriters} {superstep : Nat}
    (hsound : Sound count (writers.rounds superstep) team) (hplace : team.place node = .Writing)
    (hkept : ∀ other, team.place other ≠ .Waiting) :
    Sound count ((writers.release superstep).rounds superstep) (team.move node .Left) := by
  have hwriting : (team.place node).holds = true := by
    rw [hplace]
    rfl
  obtain ⟨hin, round, hround, hholders, -, hstage⟩ := hsound.under hwriting
  obtain ⟨-, hdue, hothers, -⟩ := hstage.writing_of hin hplace
  have hfree : (team.move node .Left).holding count = 0 := by
    refine List.countP_eq_zero.mpr fun other hother => ?_
    by_cases heq : other = node
    · subst heq
      simp [Place.holds]
    · rw [Team.move_place_of_ne team .Left heq,
        (hothers other (List.mem_range.mp hother) heq).resolve_left (hkept other)]
      simp [Place.holds]
  have hlast : round.holders - 1 = 0 := by
    rw [hholders, Team.holding_leave hin hwriting, hfree]
  refine ⟨hsound.proper.move .Left hin (by simp), ?_⟩
  simp only [RoundWriters.release, hround, hlast, if_true, RoundWriters.remove_same]
  exact .shut hfree hdue

/-- A failure deposited in a round that lacks the deposit of a node that left. -/
private theorem deposit_broken {writers : RoundWriters} {superstep lost : Nat} {round : Round}
    (hround : writers.rounds superstep = some round) (hgone : round.deposits[lost]? = some none)
    (hne : lost ≠ node) (deposit : Deposit) :
    (writers.deposit superstep node deposit).1.rounds superstep =
        some { round with deposits := round.deposits.set node (some deposit) } ∧
      (writers.deposit superstep node deposit).2 = (none, []) := by
  have hstill : (round.deposits.set node (some deposit))[lost]? = some none := by
    rw [List.getElem?_set_ne hne.symm, hgone]
  have hmissing : (round.deposits.set node (some deposit)).any Option.isNone = true :=
    List.any_eq_true.mpr ⟨none, List.mem_of_getElem? hstill, rfl⟩
  simp [RoundWriters.deposit, hround, hmissing]

/-- A node leaves before it has deposited. -/
private theorem leave_seated {writers next : RoundWriters} {superstep : Nat}
    {all : Option (List ToolResult)} {woken : List Waker}
    (hsound : Sound count (writers.rounds superstep) team) (hplace : team.place node = .Seated)
    (hdeposit : writers.deposit superstep node .Failed = (next, all, woken)) :
    Sound count ((next.release superstep).rounds superstep)
      ((team.move node .Left).wake woken) := by
  have hseated : (team.place node).holds = true := by
    rw [hplace]
    rfl
  obtain ⟨hin, round, hround, hholders, hlength, hstage⟩ := hsound.under hseated
  have hnone := hsound.proper.early node (.inr hplace)
  have hmissing : ∃ node < count, team.given node = none := ⟨node, hin, hnone⟩
  have hproper := (hsound.proper.move .Left hin (by simp)).wake woken
  have hleave : round.holders = (team.move node .Left).holding count + 1 :=
    hholders.trans (Team.holding_leave hin hseated)
  obtain ⟨houtcome, hidle, hwrites, ⟨hdeposits, hwakers⟩ | ⟨⟨lost, hlost, hat, hgone⟩, hcalm⟩⟩ :=
    hstage.early_of hin (.inr hplace)
  · have hspec := deposit_spec .Failed hround hdeposits
      (show (team.move node .Left).placed node = some .Failed by simp [Team.placed, hnone])
      (fun other hne => Team.placed_move_of_ne team .Left hne)
      (fun other hat => hidle other (Team.place_of_move (by simp) hat))
    rw [hdeposit] at hspec
    obtain ⟨⟨short, hshort, hat⟩, hafter, hout⟩ | ⟨hdone, ⟨whole, hwhole, -⟩ |
      ⟨-, hafter, hout⟩⟩ := hspec
    · cases hout
      refine release hafter hleave (by simp) (.gathering houtcome rfl ⟨short, hshort, hat⟩ ?_
        hwrites ?_) hproper
      · exact fun other hat => hidle other (Team.place_of_move (by simp) hat)
      · intro other waker hasleep
        exact hwakers other waker
          (Team.asleep_of_move .Left (Option.filter_eq_some_iff.mp hasleep).1)
    · have hshort : (team.move node .Left).collected count = none :=
        Team.collected_of_missing hin hnone
      rw [hshort] at hwhole
      cases hwhole
    · cases hout
      refine release hafter hleave (by simp)
        (.ended (by simp) (due_of_missing hmissing hwrites) hdone ?_) hproper
      exact fun other => awake_of_woken fun waker hasleep =>
        hwakers other waker (Team.asleep_of_move .Left hasleep)
  · have hne : lost ≠ node := by
      rintro rfl
      rw [hplace] at hat
      cases hat
    obtain ⟨hafter, hout⟩ := deposit_broken hround hgone hne .Failed
    rw [hdeposit] at hafter hout
    cases hout
    refine release hafter hleave (by simpa using hlength)
      (.broken houtcome lost ⟨hlost, ?_, ?_⟩ (fun other => ⟨?_, ?_⟩) hmissing hwrites) hproper
    · exact (Team.move_place_of_ne team .Left hne).trans hat
    · show (round.deposits.set node (some .Failed))[lost]? = some none
      rw [List.getElem?_set_ne hne.symm, hgone]
    · exact fun hwriting => hidle other (Team.place_of_move (by simp) hwriting)
    · exact fun hwaiting => hcalm other (Team.place_of_move (by simp) hwaiting)

end Sound

namespace Nodes

/-- A node deposits in a round that holds a deposit of each node that has left, and no node leaves in
the middle of the store write while another waits. -/
def Kept (nodes : Nodes) (superstep : Nat) : Event → Prop
  | .Deposit _ _ => ∀ other, (nodes.teams superstep).place other = .Left →
      nodes.writers.Holds superstep other
  | .Leave node => (nodes.teams superstep).place node = .Writing →
      ∀ other, (nodes.teams superstep).place other ≠ .Waiting
  | _ => True

/-- The rounds and nodes that some events lead to, each of which meets a condition. -/
inductive Reached (count : Nat) (meets : Nodes → Nat → Event → Prop) : Nodes → Prop
  | opening : Reached count meets .opening
  | step {nodes next : Nodes} {superstep : Nat} {event : Event}
      (hbefore : Reached count meets nodes) (hmet : meets nodes superstep event)
      (hstep : nodes.step count superstep event = some next) : Reached count meets next

/-- Once every node of a superstep has deposited or left, and no write is under way, each node that
waits is awake and sees its round end; the round is written once, whole and in node order, if every
node has deposited, and not at all if one has left without. -/
structure RoundEnds (count : Nat) (nodes : Nodes) (superstep : Nat) : Prop where
  ends : (∀ node < count, (nodes.teams superstep).place node = .Waiting ∨
      (nodes.teams superstep).place node = .Left) →
    ∀ node, (nodes.teams superstep).place node = .Waiting →
      (nodes.teams superstep).asleep node = none ∧
        ∃ outcome, ∀ waker, (nodes.writers.pollEnd superstep waker).2 = .Ready outcome
  whole : 0 < count → ∀ results : Nat → List ToolResult,
    (∀ node < count, (nodes.teams superstep).given node = some (results node)) →
      (nodes.teams superstep).writes = [((List.range count).map results).flatten]
  unwritten : ∀ node < count, (nodes.teams superstep).place node = .Left →
    (nodes.teams superstep).given node = none → (nodes.teams superstep).writes = []

variable {count : Nat} {nodes next : Nodes} {superstep : Nat} {event : Event}

private theorem sound_set {writers : RoundWriters} {team : Team}
    (hsound : Sound count (writers.rounds superstep) team) :
    Sound count ((nodes.set writers superstep team).writers.rounds superstep)
      ((nodes.set writers superstep team).teams superstep) := by
  have hteam : (nodes.set writers superstep team).teams superstep = team :=
    Function.update_self ..
  rw [hteam]
  exact hsound

/-- An event that meets the condition keeps the superstep it is about in order. -/
theorem sound_step
    (hsound : Sound count (nodes.writers.rounds superstep) (nodes.teams superstep))
    (hkept : nodes.Kept superstep event)
    (hstep : nodes.step count superstep event = some next) :
    Sound count (next.writers.rounds superstep) (next.teams superstep) := by
  cases event with
  | Begin =>
    simp only [step, Option.ite_none_right_eq_some, Option.some.injEq] at hstep
    obtain ⟨hfree, rfl⟩ := hstep
    apply sound_set
    generalize nodes.writers.rounds superstep = found at hsound
    cases hsound.standing with
    | shut => exact .opening count
    | under _ hheld => omega
  | Seat node =>
    simp only [step, Option.ite_none_right_eq_some, Option.some.injEq] at hstep
    obtain ⟨⟨hin, hplace⟩, rfl⟩ := hstep
    exact sound_set (hsound.seat hin hplace)
  | Deposit node results =>
    simp only [step, Option.ite_none_right_eq_some] at hstep
    obtain ⟨hplace, hstep⟩ := hstep
    split at hstep <;> rename_i hdeposit <;> cases hstep <;> apply sound_set
    · exact (hsound.deposit hplace hkept hdeposit).1 _ rfl
    · exact (hsound.deposit hplace hkept hdeposit).2 rfl
  | Written node stored =>
    simp only [step, Option.ite_none_right_eq_some, Option.some.injEq] at hstep
    obtain ⟨hplace, rfl⟩ := hstep
    exact sound_set (hsound.written hplace rfl)
  | Poll node waker =>
    simp only [step, Option.ite_none_right_eq_some] at hstep
    obtain ⟨hplace, hstep⟩ := hstep
    split at hstep <;> rename_i hpoll <;> cases hstep <;> apply sound_set
    · have hsame := (hsound.poll hplace hpoll).1 _ rfl
      subst hsame
      exact (hsound.leave_waiting hplace).wake_nothing
    · exact (hsound.poll hplace hpoll).2 rfl
  | Leave node =>
    simp only [step, Option.ite_none_right_eq_some, Option.some.injEq] at hstep
    obtain ⟨hholds, rfl⟩ := hstep
    apply sound_set
    cases hplace : (nodes.teams superstep).place node with
    | Unpolled => simp [hplace, Place.holds] at hholds
    | Left => simp [hplace, Place.holds] at hholds
    | Seated => exact hsound.leave_seated hplace rfl
    | Waiting => exact (hsound.leave_waiting hplace).wake_nothing
    | Writing => exact (hsound.leave_writing hplace (hkept hplace)).wake_nothing

private theorem sound_of_reached (hreached : Reached count Kept nodes) (superstep : Nat) :
    Sound count (nodes.writers.rounds superstep) (nodes.teams superstep) := by
  induction hreached with
  | opening => exact .opening count
  | @step nodes next at' event hbefore hmet hstep ih =>
    by_cases heq : superstep = at'
    · subst heq
      exact sound_step ih hmet hstep
    · obtain ⟨hround, hteam⟩ := step_other hstep heq
      rw [hround, hteam]
      exact ih

/-- In every run whose events meet the condition, the rounds end, of whatever superstep. -/
theorem rounds_end (hreached : Reached count Kept nodes) (superstep : Nat) :
    RoundEnds count nodes superstep := by
  have hsound := sound_of_reached hreached superstep
  refine ⟨?_, ?_, ?_⟩
  · intro hdone node hwaiting
    obtain ⟨hin, round, hround, -, -, hstage⟩ :=
      hsound.under (show ((nodes.teams superstep).place node).holds = true by rw [hwaiting]; rfl)
    obtain ⟨houtcome, hawake⟩ := hstage.ended_of hdone ⟨node, hwaiting⟩
    obtain ⟨outcome, houtcome⟩ := Option.ne_none_iff_exists'.mp houtcome
    exact ⟨hawake node, outcome, fun waker => by simp [RoundWriters.pollEnd, hround, houtcome]⟩
  · intro hcount results hgiven
    rw [hsound.due hcount, Team.collected_of_given hgiven]
    rfl
  · intro node hin _ hnone
    rw [hsound.due (by omega), Team.collected_of_missing hin hnone]
    rfl

private def answer : ToolResult := ⟨"call", "search", [.Text "found"], false⟩

private theorem reached_of {nodes next : Nodes} (superstep : Nat) (event : Event)
    (hbefore : Reached 2 Kept nodes) (hmet : nodes.Kept superstep event)
    (hstep : nodes.step 2 superstep event = some next) : Reached 2 Kept next :=
  .step hbefore hmet hstep

/-- A round in which one node leaves with no deposit before the other deposits: the other sees it
end, not written. -/
theorem rounds_end_refused :
    ∃ nodes, opening.run 2 [(7, .Seat 0), (7, .Seat 1), (7, .Leave 0),
        (7, .Deposit 1 [answer])] = some nodes ∧
      (nodes.teams 7).place 1 = .Waiting ∧ RoundEnds 2 nodes 7 := by
  refine ⟨_, rfl, rfl, rounds_end ?_ 7⟩
  refine reached_of 7 (.Deposit 1 [answer]) (reached_of 7 (.Leave 0) (reached_of 7 (.Seat 1)
    (reached_of 7 (.Seat 0) .opening trivial rfl) trivial rfl) ?_ rfl) ?_ rfl
  · intro hwriting
    cases hwriting
  · intro other hleft
    match other with
    | 0 => exact ⟨_, .Failed, rfl, rfl⟩
    | 1 => cases hleft
    | other + 2 => cases hleft

/-- A node that leaves before its neighbour has a seat takes the round along, and one that leaves in
the middle of the store write never ends it: the neighbour waits for ever. -/
theorem neighbour_waits :
    (∃ nodes, opening.run 2 [(7, .Seat 0), (7, .Leave 0), (7, .Seat 1),
        (7, .Deposit 1 [answer])] = some nodes ∧ ¬RoundEnds 2 nodes 7) ∧
      ∃ nodes, opening.run 2 [(7, .Seat 0), (7, .Seat 1), (7, .Deposit 0 [answer]),
        (7, .Deposit 1 [answer]), (7, .Leave 1)] = some nodes ∧ ¬RoundEnds 2 nodes 7 := by
  constructor
  · refine ⟨_, rfl, fun hround => ?_⟩
    obtain ⟨-, outcome, hready⟩ := hround.ends (by decide) 1 rfl
    cases hready 0
  · refine ⟨_, rfl, fun hround => ?_⟩
    obtain ⟨-, outcome, hready⟩ := hround.ends (by decide) 0 rfl
    cases hready 0

end Nodes

end LlmGraph.React
