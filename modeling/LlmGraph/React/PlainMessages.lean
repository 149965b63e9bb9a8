/- digest: A message library that keeps its entries in a list and refuses what would break it. -/

import LlmGraph.React.Messages

set_option autoImplicit false
set_option relaxedAutoImplicit false

namespace LlmGraph.React

/-- A step that awaits tool results calls a tool. -/
def TurnItem.called : TurnItem → Bool
  | Step step => step.stopReason != .AwaitingToolResults || !step.toolCalls.isEmpty
  | ToolResults _ => true

def Entry.called : Entry → Bool
  | UserInput _ => true
  | Turn turn => turn.items.all TurnItem.called

/-- Entries with identities of their own, and calls with identities of their own. -/
def Entries.Sound (entries : List Entry) : Prop :=
  (entries.map Entry.id).Nodup ∧ ((entries.flatMap Entry.toolCalls).map (·.id)).Nodup ∧
    entries.all Entry.called = true

instance (entries : List Entry) : Decidable (Entries.Sound entries) :=
  inferInstanceAs (Decidable (_ ∧ _ ∧ _))

/-- A conversation as the list of its entries. -/
structure PlainMessages where
  entries : List Entry
  sound : Entries.Sound entries

namespace PlainMessages

def keep (entries : List Entry) : Except MessageError PlainMessages :=
  if hsound : Entries.Sound entries then .ok ⟨entries, hsound⟩ else .error "not sound"

/-- The entries with the turn of an identity changed. -/
def changeTurn (id : TurnId) (change : Turn → Turn) : List Entry → Option (List Entry)
  | [] => none
  | .UserInput input :: rest => (changeTurn id change rest).map (.UserInput input :: ·)
  | .Turn turn :: rest =>
      if turn.id = id then some (.Turn (change turn) :: rest)
      else (changeTurn id change rest).map (.Turn turn :: ·)

def push (c : PlainMessages) (id : TurnId) (change : Turn → Turn) :
    Except MessageError PlainMessages :=
  match changeTurn id change c.entries with
  | none => .error "no such turn"
  | some entries => keep entries

instance : Messages PlainMessages where
  new := ⟨[], by decide⟩
  entries := entries
  state := Turn.awaits
  pushInput c input := keep (c.entries ++ [.UserInput input])
  pushTurn c turn := keep (c.entries ++ [.Turn turn])
  pushStep c id step := c.push id (·.addStep step)
  pushResult c id result := c.push id (·.addResult result)
  newStep content stopReason := .ok ⟨content, stopReason, none, none⟩
  newText text := if text.isEmpty then .error "no text" else .ok text

theorem keep_ok {entries : List Entry} {c : PlainMessages} (hkept : keep entries = .ok c) :
    c.entries = entries := by
  unfold keep at hkept
  split at hkept
  · cases hkept
    rfl
  · cases hkept

theorem changeTurn_some {id : TurnId} {change : Turn → Turn} {entries next : List Entry}
    (hchanged : changeTurn id change entries = some next) :
    ∃ front turn back, entries = front ++ .Turn turn :: back ∧ turn.id = id ∧
      next = front ++ .Turn (change turn) :: back := by
  induction entries generalizing next with
  | nil => cases hchanged
  | cons entry rest hind =>
      cases entry with
      | UserInput input =>
          obtain ⟨changed, hrest, rfl⟩ := Option.map_eq_some_iff.mp hchanged
          obtain ⟨front, turn, back, rfl, hid, rfl⟩ := hind hrest
          exact ⟨.UserInput input :: front, turn, back, rfl, hid, rfl⟩
      | Turn turn =>
          unfold changeTurn at hchanged
          split at hchanged
          · rename_i hid
            cases hchanged
            exact ⟨[], turn, rest, rfl, hid, rfl⟩
          · obtain ⟨changed, hrest, rfl⟩ := Option.map_eq_some_iff.mp hchanged
            obtain ⟨front, found, back, rfl, hid, rfl⟩ := hind hrest
            exact ⟨.Turn turn :: front, found, back, rfl, hid, rfl⟩

theorem push_ok {c next : PlainMessages} {id : TurnId} {change : Turn → Turn}
    (hpushed : c.push id change = .ok next) :
    ∃ front turn back, c.entries = front ++ .Turn turn :: back ∧ turn.id = id ∧
      next.entries = front ++ .Turn (change turn) :: back := by
  unfold push at hpushed
  split at hpushed
  · cases hpushed
  · rename_i entries hchanged
    rw [keep_ok hpushed]
    exact changeTurn_some hchanged

theorem lawful : Messages.Lawful PlainMessages where
  state := fun _ => rfl
  pushInput := fun _ _ _ hpushed => keep_ok hpushed
  pushTurn := fun _ _ _ hpushed => keep_ok hpushed
  pushStep := fun _ _ _ _ hpushed => push_ok hpushed
  pushResult := fun _ _ _ _ hpushed => push_ok hpushed
  newStep := by
    intro content stopReason step hstep
    cases hstep
    rfl
  newText := by
    intro text taken htaken
    have hif : (if text.isEmpty then .error "no text" else .ok text) = Except.ok taken := htaken
    split at hif
    · cases hif
    · cases hif
      rfl
  distinct := fun c => c.sound.1
  unique := fun c => c.sound.2.1
  called := by
    intro c turn step hentry hstep hawaiting hnone
    have hturn := List.all_eq_true.mp c.sound.2.2 _ hentry
    have hitem : (step.stopReason != .AwaitingToolResults || !step.toolCalls.isEmpty) = true :=
      List.all_eq_true.mp hturn _ hstep
    rw [hawaiting, hnone] at hitem
    cases hitem

end PlainMessages

end LlmGraph.React
