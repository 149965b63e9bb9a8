/- digest: The kinds of the turns of a call of a generator-critic, apart from any state: which lists a
   call can hold, how many of each kind are in them, and where the call goes on from them. -/

import LlmGraph.React.Duo

set_option autoImplicit false
set_option relaxedAutoImplicit false

namespace LlmGraph.React

open Superstep (State Config)

/-- The revisions since the last critique. -/
def inARow (kinds : List TurnKind) : Nat :=
  (kinds.reverse.takeWhile (· != .Critique)).count .Revision

/-- The numbers that bound a call: its critiques, the revisions in a row, and whether the generator
answers once more, unassessed, when the critiques are spent. -/
structure Caps where
  budget : Nat
  revisions : Nat
  finalGeneration : Bool
  deriving DecidableEq, Repr

namespace Caps

variable (caps : Caps)

def pass (kinds : List TurnKind) : Router.Next :=
  if kinds.count .Critique < caps.budget then .Critique else .Finish

def rejection (kinds : List TurnKind) : Router.Next :=
  if kinds.count .Critique < caps.budget ||
    (caps.finalGeneration && kinds.count .Critique == caps.budget) then .Generate
  else .Finish

/-- Where a call goes on that holds turns of some kinds. -/
def goes (kinds : List TurnKind) : Router.Next :=
  match kinds.getLast? with
  | none => .Generate
  | some .Generation => .Check
  | some .Critique => caps.rejection kinds
  | some .Revision => if inARow kinds - 1 < caps.revisions then .Generate else caps.pass kinds
  | some .Acceptance => .Finish

/-- The kinds that a call can hold: answers, each after the first asked by a critique or a revision, and
each judged at most once, within the bounds. -/
inductive Legal : List TurnKind → Prop
  | nothing : Legal []
  | answers {kinds : List TurnKind} (hearlier : Legal kinds) (hasked : caps.goes kinds = .Generate) :
      Legal (kinds ++ [.Generation])
  | rejects {kinds : List TurnKind} (hearlier : Legal (kinds ++ [.Generation]))
      (hbelow : (kinds ++ [TurnKind.Generation]).count .Critique < caps.budget) :
      Legal (kinds ++ [.Generation] ++ [.Critique])
  | revises {kinds : List TurnKind} (hearlier : Legal (kinds ++ [.Generation]))
      (hbelow : inARow (kinds ++ [.Generation]) < caps.revisions) :
      Legal (kinds ++ [.Generation] ++ [.Revision])
  | accepts {kinds : List TurnKind} (hearlier : Legal (kinds ++ [.Generation]))
      (hbelow : (kinds ++ [TurnKind.Generation]).count .Critique < caps.budget) :
      Legal (kinds ++ [.Generation] ++ [.Acceptance])

end Caps

section Counts

variable {kinds : List TurnKind} {kind : TurnKind}

@[simp] theorem inARow_critique (kinds : List TurnKind) : inARow (kinds ++ [.Critique]) = 0 := by
  simp [inARow]

@[simp] theorem inARow_generation (kinds : List TurnKind) :
    inARow (kinds ++ [.Generation]) = inARow kinds := by
  simp [inARow]

@[simp] theorem inARow_revision (kinds : List TurnKind) :
    inARow (kinds ++ [.Revision]) = inARow kinds + 1 := by
  simp [inARow]

@[simp] theorem inARow_acceptance (kinds : List TurnKind) :
    inARow (kinds ++ [.Acceptance]) = inARow kinds := by
  simp [inARow]

end Counts

/-- One for an answer that nothing has rejected or asked to revise, at the end of a call. -/
def openAnswers (kinds : List TurnKind) : Nat :=
  match kinds.getLast? with
  | some .Generation | some .Acceptance => 1
  | _ => 0

/-- What the kinds of a call add up to. -/
structure Caps.Within (caps : Caps) (kinds : List TurnKind) : Prop where
  critiques : kinds.count .Critique ≤ caps.budget
  revisions : inARow kinds ≤ caps.revisions
  answers : kinds.count .Generation =
    kinds.count .Critique + kinds.count .Revision + openAnswers kinds
  asked : kinds.count .Revision ≤ kinds.count .Critique * caps.revisions + inARow kinds
  unassessed : caps.finalGeneration = false → kinds.getLast? ≠ some .Critique →
    kinds.count .Critique < caps.budget ∨ kinds.count .Critique = 0
  accepted : kinds.getLast? = some .Acceptance → kinds.count .Critique < caps.budget

namespace Caps

variable {caps : Caps} {kinds : List TurnKind}

/-- The generator is asked at first, after a critique within the budget, and after a revision. -/
theorem asked_cases (hasked : caps.goes kinds = .Generate) :
    kinds = [] ∨ kinds.getLast? = some .Critique ∧ caps.rejection kinds = .Generate ∨
      kinds.getLast? = some .Revision := by
  unfold goes at hasked
  split at hasked
  · rename_i hnone
    exact .inl (List.getLast?_eq_none_iff.mp hnone)
  · cases hasked
  · rename_i hlast
    exact .inr (.inl ⟨hlast, hasked⟩)
  · rename_i hlast
    exact .inr (.inr hlast)
  · cases hasked

namespace Legal

theorem within (hlegal : caps.Legal kinds) : caps.Within kinds := by
  induction hlegal with
  | nothing => exact ⟨by simp, by simp [inARow], by simp [openAnswers], by simp, by simp, by simp⟩
  | @answers kinds hearlier hasked hholds =>
      have hfromNothing : openAnswers kinds = 0 := by
        rcases asked_cases hasked with rfl | ⟨hlast, -⟩ | hlast
        · rfl
        · simp [openAnswers, hlast]
        · simp [openAnswers, hlast]
      have hanswers := hholds.answers
      refine ⟨?_, ?_, ?_, ?_, fun hunassessed _ => ?_, ?_⟩
      · simpa using hholds.critiques
      · simpa using hholds.revisions
      · rw [hfromNothing] at hanswers
        simp [openAnswers, hanswers]
      · simpa using hholds.asked
      · by_cases hlast : kinds.getLast? = some .Critique
        · have hbelow : kinds.count .Critique < caps.budget := by
            simpa [goes, hlast, rejection, hunassessed] using hasked
          exact .inl (by simpa using hbelow)
        · simpa using hholds.unassessed hunassessed hlast
      · simp
  | @rejects kinds hearlier hbelow hholds =>
      have hanswers := hholds.answers
      have hasked := hholds.asked
      have hrevisions := hholds.revisions
      simp [openAnswers] at hanswers hasked hrevisions hbelow
      refine ⟨?_, ?_, ?_, ?_, ?_, ?_⟩
      · simp; omega
      · rw [inARow_critique]
        exact Nat.zero_le _
      · simp [openAnswers]; omega
      · rw [inARow_critique]
        simp [Nat.add_mul]; omega
      · simp
      · simp
  | @revises kinds hearlier hbelow hholds =>
      have hanswers := hholds.answers
      have hasked := hholds.asked
      have hcritiques := hholds.critiques
      have hunassessed := hholds.unassessed
      simp [openAnswers] at hanswers hasked hcritiques hunassessed hbelow
      refine ⟨?_, ?_, ?_, ?_, ?_, ?_⟩
      · simpa using hcritiques
      · rw [inARow_revision, inARow_generation]
        omega
      · simp [openAnswers]; omega
      · rw [inARow_revision, inARow_generation]
        simp; omega
      · simpa using hunassessed
      · simp
  | @accepts kinds hearlier hbelow hholds =>
      have hanswers := hholds.answers
      have hasked := hholds.asked
      have hunassessed := hholds.unassessed
      simp [openAnswers] at hanswers hasked hunassessed hbelow
      refine ⟨?_, ?_, ?_, ?_, ?_, ?_⟩
      · simpa using hbelow.le
      · rw [inARow_acceptance]
        exact hholds.revisions
      · simp [openAnswers]; omega
      · rw [inARow_acceptance, inARow_generation]
        simpa using hasked
      · simpa using hunassessed
      · simpa using hbelow

/-- At most the revisions and one answers more follow each critique, and what comes before the first. -/
theorem answers_le (hlegal : caps.Legal kinds) :
    kinds.count .Generation ≤
      (if caps.finalGeneration then caps.budget + 1 else max caps.budget 1) * (caps.revisions + 1) := by
  have hholds := hlegal.within
  have hcritiques := hholds.critiques
  have hrevisions := hholds.revisions
  have hfew : kinds.count .Generation ≤ (kinds.count .Critique + 1) * (caps.revisions + 1) := by
    have hanswers := hholds.answers
    have hasked := hholds.asked
    have hone : openAnswers kinds ≤ 1 := by
      unfold openAnswers
      split <;> omega
    simp only [Nat.add_mul, Nat.mul_add]
    omega
  cases hfinal : caps.finalGeneration with
  | true =>
      exact hfew.trans (Nat.mul_le_mul_right _ (by simpa using hcritiques))
  | false =>
      simp only [Bool.false_eq_true, if_false]
      by_cases hlast : kinds.getLast? = some .Critique
      · have hanswers := hholds.answers
        have hasked := hholds.asked
        have hended : openAnswers kinds = 0 := by simp [openAnswers, hlast]
        obtain ⟨front, rfl⟩ : ∃ front, kinds = front ++ [.Critique] := by
          obtain ⟨front, rfl⟩ := List.getLast?_eq_some_iff.mp hlast
          exact ⟨front, rfl⟩
        rw [inARow_critique] at hasked
        calc (front ++ [TurnKind.Critique]).count .Generation
            ≤ (front ++ [TurnKind.Critique]).count .Critique * (caps.revisions + 1) := by
              rw [Nat.mul_add]
              omega
          _ ≤ max caps.budget 1 * (caps.revisions + 1) :=
              Nat.mul_le_mul_right _ (hcritiques.trans (Nat.le_max_left _ _))
      · refine hfew.trans (Nat.mul_le_mul_right _ ?_)
        rcases hholds.unassessed hfinal hlast with hbelow | hnone <;> omega

/-- A revision that the check recorded sends the generator back. -/
theorem goes_revision (hlegal : caps.Legal kinds) (hlast : kinds.getLast? = some .Revision) :
    caps.goes kinds = .Generate := by
  have hrevisions := hlegal.within.revisions
  obtain ⟨front, rfl⟩ := List.getLast?_eq_some_iff.mp hlast
  rw [inARow_revision] at hrevisions
  unfold goes
  rw [hlast]
  dsimp only
  rw [inARow_revision, if_pos (by omega)]

end Legal

end Caps

section Turns

variable {C : Type} [Messages C]

theorem CallTurns.kinds_snoc (turns : CallTurns) (turn : Turn) (kind : TurnKind) :
    CallTurns.kinds (turns ++ [(turn, kind)]) = CallTurns.kinds turns ++ [kind] :=
  List.map_append

theorem CallTurns.count_kinds (turns : CallTurns) (kind : TurnKind) :
    turns.count kind = turns.kinds.count kind := by
  unfold CallTurns.count CallTurns.kinds
  rw [List.count, List.countP_map, List.countP_eq_length_filter]
  rfl

theorem CallTurns.revisionsInARow_kinds (turns : CallTurns) :
    turns.revisionsInARow = inARow turns.kinds := by
  unfold CallTurns.revisionsInARow inARow CallTurns.kinds
  rw [← List.map_reverse, List.takeWhile_map, List.count, List.countP_map,
    List.countP_eq_length_filter]
  rfl

theorem CallTurns.last_kind (turns : CallTurns) :
    turns.getLast?.map Prod.snd = turns.kinds.getLast? := by
  rw [CallTurns.kinds, List.getLast?_map]

/-- The numbers that a router reads from a configuration. -/
structure Router.Reads (router : Router) (config : Config C) (caps : Caps) : Prop where
  bounds : router.bounds.check config = .ok ()
  budget : router.duo.budget.resolve config = .ok caps.budget
  revisions : router.duo.revisionLimit.resolve config = .ok caps.revisions
  finalGeneration : router.duo.finalGeneration = caps.finalGeneration

namespace Router

variable {router : Router} {config : Config C} {caps : Caps} {state : State C} {turns : CallTurns}

theorem afterPass_eq (hreads : router.Reads config caps) :
    router.afterPass turns config = .ok (caps.pass turns.kinds) := by
  unfold afterPass
  rw [hreads.budget, CallTurns.critiques, CallTurns.count_kinds]
  rfl

theorem afterRejection_eq (hreads : router.Reads config caps) :
    router.afterRejection turns config = .ok (caps.rejection turns.kinds) := by
  unfold afterRejection
  rw [hreads.budget, hreads.finalGeneration, CallTurns.critiques, CallTurns.count_kinds]
  simp [Caps.rejection]

/-- On entry a call goes on from the kinds of its turns alone. -/
theorem entry_eq (hreads : router.Reads config caps)
    (hholds : router.duo.callTurns state = .ok turns) :
    router.entry state config = .ok (caps.goes turns.kinds) := by
  unfold entry Caps.goes
  rw [hreads.bounds, hholds]
  dsimp only
  rw [CallTurns.last_kind]
  cases turns.kinds.getLast? with
  | none => rfl
  | some kind =>
      cases kind with
      | Generation => rfl
      | Critique => exact afterRejection_eq hreads
      | Revision =>
          dsimp only
          unfold revisionFound
          rw [hreads.revisions, CallTurns.revisionsInARow_kinds]
          dsimp only
          split
          · rfl
          · exact afterPass_eq hreads
      | Acceptance => rfl

/-- After the check, a call that ends with a message of the critic goes on as on entry, and one that
ends with an answer as after a pass. -/
theorem afterCheck_eq (hreads : router.Reads config caps)
    (hholds : router.duo.callTurns state = .ok turns) (hlegal : caps.Legal turns.kinds)
    (hnonempty : turns.kinds ≠ []) :
    router.afterCheck state config =
      .ok (if turns.kinds.getLast? = some .Generation then caps.pass turns.kinds
        else caps.goes turns.kinds) := by
  unfold afterCheck
  rw [hholds]
  dsimp only
  rw [CallTurns.last_kind]
  cases hlast : turns.kinds.getLast? with
  | none => exact absurd (List.getLast?_eq_none_iff.mp hlast) hnonempty
  | some kind =>
      cases kind with
      | Generation => exact afterPass_eq hreads
      | Critique =>
          have hgoes : caps.goes turns.kinds = caps.rejection turns.kinds := by simp [Caps.goes, hlast]
          rw [if_neg (by simp), hgoes]
          exact afterRejection_eq hreads
      | Revision =>
          rw [if_neg (by simp), hlegal.goes_revision hlast]
      | Acceptance =>
          have hgoes : caps.goes turns.kinds = .Finish := by simp [Caps.goes, hlast]
          rw [if_neg (by simp), hgoes]

/-- After the critic, on the message that it recorded, a call goes on as on entry. -/
theorem afterCritique_eq (hreads : router.Reads config caps)
    (hholds : router.duo.callTurns state = .ok turns)
    (hjudged : turns.kinds.getLast? = some .Critique ∨ turns.kinds.getLast? = some .Acceptance) :
    router.afterCritique state config = .ok (caps.goes turns.kinds) := by
  unfold afterCritique Caps.goes
  rw [hholds]
  dsimp only
  rw [CallTurns.last_kind]
  rcases hjudged with hlast | hlast
  · rw [hlast]
    exact afterRejection_eq hreads
  · rw [hlast]

end Router

end Turns

end LlmGraph.React
