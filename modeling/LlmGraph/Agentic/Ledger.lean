/- digest: A conversation that is its list of turns, and refuses an identity that it already holds
   and an entry for a turn that is closed. -/

import LlmGraph.Agentic.Messages

set_option autoImplicit false
set_option relaxedAutoImplicit false

namespace LlmGraph.Agentic

/-- The turns of a conversation, and nothing else. -/
structure Ledger where
  turns : List Turn
  deriving DecidableEq, Repr

namespace Ledger

/-- The turns with an entry at the end of the first one of an identity. -/
def extend (id : TurnId) (entry : TurnEntry) : List Turn → Except MessageError (List Turn)
  | [] => .error "no such turn"
  | turn :: rest =>
      if turn.id = id then
        match turn with
        | .AITurn ai =>
            if ai.isClosed then .error "the turn is closed" else .ok (.AITurn (ai.add entry) :: rest)
        | .InputTurn _ => .error "not an AI turn"
      else
        match extend id entry rest with
        | .ok rest => .ok (turn :: rest)
        | .error error => .error error

def heldIds (ledger : Ledger) : List EntryId := ledger.turns.flatMap Turn.entryIds

instance : Conversation Ledger where
  turns := Ledger.turns
  pushTurn ledger turn :=
    if ledger.turns.any (·.id == turn.id) || turn.entryIds.any (ledger.heldIds.contains ·) then
      .error "the identity is taken"
    else .ok ⟨ledger.turns ++ [turn]⟩
  pushEntry ledger id entry :=
    if ledger.heldIds.contains entry.id then .error "the identity is taken"
    else (extend id entry ledger.turns).map Ledger.mk
  pushTurnEntry _ turn entry :=
    if turn.isClosed then .error "the turn is closed" else .ok (turn.add entry)
  newInputTurn _ id entries :=
    if entries.isEmpty then .error "the turn has no entry" else .ok ⟨id, entries⟩
  tryTurnEntry _ entry := .ok (.Incoming entry)

private theorem extend_there {id : TurnId} {entry : TurnEntry} (turns : List Turn)
    {next : List Turn} (hextended : extend id entry turns = .ok next) :
    ∃ before turn after, turns = before ++ .AITurn turn :: after ∧
      (∀ other ∈ before, other.id ≠ id) ∧ turn.id = id ∧
        next = before ++ .AITurn (turn.add entry) :: after := by
  induction turns generalizing next with
  | nil => cases hextended
  | cons turn rest hstep =>
      unfold extend at hextended
      by_cases hsame : turn.id = id
      · rw [if_pos hsame] at hextended
        rcases turn with input | ai
        · cases hextended
        · dsimp only at hextended
          split at hextended
          · cases hextended
          · cases hextended
            exact ⟨[], ai, rest, rfl, (fun _ hmember => by cases hmember), hsame, rfl⟩
      · rw [if_neg hsame] at hextended
        rcases hlater : extend id entry rest with error | made
        · rw [hlater] at hextended
          cases hextended
        · rw [hlater] at hextended
          cases hextended
          obtain ⟨before, found, after, hold, hothers, hhere, hnew⟩ := hstep hlater
          refine ⟨turn :: before, found, after, congrArg (turn :: ·) hold, ?_, hhere,
            congrArg (turn :: ·) hnew⟩
          intro other hmember
          rcases List.mem_cons.mp hmember with rfl | hmember
          · exact hsame
          · exact hothers other hmember

/-- The turn that takes an entry is not closed. -/
theorem extend_open {id : TurnId} {entry : TurnEntry} {turns next : List Turn} {turn : AITurn}
    (hextended : extend id entry turns = .ok next)
    (hturn : turns.find? (·.id == id) = some (.AITurn turn)) : turn.isClosed = false := by
  induction turns generalizing next with
  | nil => cases hturn
  | cons first rest hind =>
      unfold extend at hextended
      by_cases hsame : first.id = id
      · rw [List.find?_cons, beq_iff_eq.mpr hsame] at hturn
        cases hturn
        rw [if_pos hsame] at hextended
        dsimp only at hextended
        split at hextended
        · cases hextended
        · rename_i hopen
          rwa [Bool.not_eq_true] at hopen
      · rw [List.find?_cons, beq_false_of_ne hsame] at hturn
        rw [if_neg hsame] at hextended
        cases hrest : extend id entry rest with
        | error error =>
            rw [hrest] at hextended
            cases hextended
        | ok made => exact hind hrest hturn

theorem lawful : Conversation.Lawful Ledger where
  pushTurn ledger next turn hpushed := by
    simp only [Conversation.pushTurn] at hpushed
    split at hpushed
    · cases hpushed
    · cases hpushed
      rfl
  pushEntry ledger next id entry hpushed := by
    simp only [Conversation.pushEntry] at hpushed
    split at hpushed
    · cases hpushed
    · rcases hextended : extend id entry ledger.turns with error | made
      · rw [hextended] at hpushed
        cases hpushed
      · rw [hextended] at hpushed
        cases hpushed
        exact extend_there ledger.turns hextended
  pushTurnEntry _ turn entry made hpushed := by
    simp only [Conversation.pushTurnEntry] at hpushed
    split at hpushed
    · cases hpushed
    · cases hpushed
      rfl
  newInputTurn _ id entries made hbuilt := by
    simp only [Conversation.newInputTurn] at hbuilt
    split at hbuilt
    · cases hbuilt
    · cases hbuilt
      rfl
  tryTurnEntry _ entry made hbuilt := by
    cases hbuilt
    rfl

end Ledger

end LlmGraph.Agentic
