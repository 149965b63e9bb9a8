/- digest: What the nodes of a durable agent write of a call, cut anywhere: its turns stay those of the
   first ranks, each past but the last, and a turn that asks for nothing more is completed. -/

import LlmGraph.React.DurableRuns
import LlmGraph.React.Entering

set_option autoImplicit false
set_option relaxedAutoImplicit false

namespace LlmGraph.React

open Function (update)
open Lib (Act)
open Lib.Act (Holds Keeps)
open Superstep (State Config GraphError Key Update)

section Calls

variable {D : Type} [StepDrafts D] {key : Nat → TurnId} {past : MessageStatus → Prop}
  {inputs : List UserInput} {before held next : Held D} {last : Nat} {write : Write}

/-- A write that takes no id of the call keeps what the thread holds of it. -/
theorem CallHeld.left (hcalled : CallHeld key past inputs held last) (hstreams : ¬ past .Streaming)
    (hleft : Left held write next) (hother : ∀ rank, 0 < rank → write.takes ≠ some (key rank)) :
    CallHeld key past inputs next last where
  ranked := by
    refine ⟨fun rank hpos => ?_, fun rank message hpos hlt hmessage => ?_⟩
    · rw [← hcalled.ranked.upTo rank hpos]
      exact ⟨fun hsome => hleft.new hsome (hother rank hpos), hleft.grows⟩
    · obtain ⟨before, hbefore⟩ := hcalled.ranked.some_of_le hpos (Nat.le_of_lt hlt)
      have hpast := hcalled.ranked.past rank before hpos hlt hbefore
      have hsame := hleft.final hbefore fun hstatus => hstreams (hstatus ▸ hpast)
      rw [hmessage] at hsame
      cases hsame
      exact hpast
  begun := fun hpos input hinput => hleft.grows (hcalled.begun hpos input hinput)

omit [StepDrafts D] in
theorem status_some {id : TurnId} {status : MessageStatus} (hstatus : held.status id = status)
    (hfinal : status ≠ .Failed) : ∃ message, held id = some message ∧ message.status = status := by
  unfold Held.status at hstatus
  cases hheld : held id with
  | none =>
    rw [hheld] at hstatus
    exact absurd hstatus.symm hfinal
  | some message =>
    rw [hheld] at hstatus
    exact ⟨message, rfl, hstatus⟩

theorem Left.completed {write : Write} (hleft : Left held write next) {id : TurnId}
    (hstatus : held.status id = .Completed) : next.status id = .Completed := by
  obtain ⟨message, hheld, hmessage⟩ := status_some hstatus fun heq => by cases heq
  unfold Held.status
  rw [hleft.final hheld fun heq => by rw [hmessage] at heq; cases heq]
  exact hmessage

/-- A call that has been entered: its opening is stored, and what a thread held before is kept. -/
structure CallOn (key : Nat → TurnId) (past : MessageStatus → Prop) (inputs : List UserInput)
    (before held : Held D) (last : Nat) : Prop where
  called : CallHeld key past inputs held last
  inputs : ∀ input ∈ inputs, (held input.id).isSome = true
  forward : Forward before held

/-- The last turn of a call is past, so that the next one may be opened. -/
def LastPast (key : Nat → TurnId) (past : MessageStatus → Prop) (held : Held D) (last : Nat) : Prop :=
  0 < last → ∀ message, held (key last) = some message → past message.status

theorem CallOn.left (hcalled : CallOn key past inputs before held last) (hstreams : ¬ past .Streaming)
    (hleft : Left held write next) (hother : ∀ rank, 0 < rank → write.takes ≠ some (key rank)) :
    CallOn key past inputs before next last where
  called := hcalled.called.left hstreams hleft hother
  inputs := fun input hinput => hleft.grows (hcalled.inputs input hinput)
  forward := hcalled.forward.trans hleft.forward

theorem LastPast.left (hpast : LastPast key past held last)
    (hcalled : CallHeld key past inputs held last) (hstreams : ¬ past .Streaming)
    (hleft : Left held write next) : LastPast key past next last := by
  intro hpos message hmessage
  obtain ⟨before, hbefore⟩ := hcalled.ranked.some_of_le hpos (Nat.le_refl last)
  have hstatus := hpast hpos before hbefore
  have hsame := hleft.final hbefore fun heq => hstreams (heq ▸ hstatus)
  rw [hmessage] at hsame
  cases hsame
  exact hstatus

/-- The next turn of a call is opened once the last one is past. -/
theorem CallOn.open_turn (hcalled : CallOn key past inputs before held last) (hapart : Apart key inputs)
    (hpast : LastPast key past held last) {author : Author}
    (hdone : Done held (.openTurn (key (last + 1)) author) next) :
    CallOn key past inputs before next (last + 1) := by
  have hforward := hcalled.forward.trans (Left.done hdone).forward
  have hfree := hcalled.called.ranked.none_of_lt (Nat.lt_succ_self last)
  cases hdone with
  | opened author hfree' =>
    have hinputs : ∀ input ∈ inputs,
        (update held (key (last + 1)) (some (.Turn ⟨key (last + 1), author, .Streaming, [], none⟩))
          input.id).isSome = true := by
      intro input hinput
      rw [Function.update_of_ne (Ne.symm (hapart.inputs input hinput _ (Nat.succ_pos last)))]
      exact hcalled.inputs input hinput
    exact ⟨⟨hcalled.called.ranked.extend hapart.numbered hpast _, fun _ => hinputs⟩, hinputs, hforward⟩
  | reopened hstored =>
    rw [hfree] at hstored
    cases hstored

end Calls

section Nodes

variable {C D σ : Type} [Messages C] [StepDrafts D] {store : ThreadStore C σ} {threads : σ → Threads D}
  {thread : ThreadId} {elsewhere : Threads D} {key : Nat → TurnId} {past : MessageStatus → Prop}
  {inputs : List UserInput} {before : Held D} {last : Nat} {turn : TurnId}

/-- The call stands in the thread of a run with its turns up to the last. -/
abbrev CallStands (threads : σ → Threads D) (thread : ThreadId) (elsewhere : Threads D)
    (key : Nat → TurnId) (past : MessageStatus → Prop) (inputs : List UserInput) (before : Held D)
    (last : Nat) : Desk σ → Prop :=
  Stands threads thread elsewhere fun held => CallOn key past inputs before held last

/-- A write of a run that opens no turn keeps the call. -/
theorem write_keeps (hdocumented : store.Documented threads) (hstreams : ¬ past .Streaming)
    {write : Write} (hopens : write.takes = none) :
    Keeps (CallStands threads thread elsewhere key past inputs before last)
      (ask (store.write thread write) : Act (Desk σ) (Halt C) Unit) := by
  have hother : ∀ rank, 0 < rank → write.takes ≠ some (key rank) := by
    intro rank _ htakes
    rw [hopens] at htakes
    cases htakes
  exact hdocumented.write_stands (fun held next hcalled hdone => hcalled.left hstreams (.done hdone) hother)
    fun held next hcalled hleft => hcalled.left hstreams hleft hother

theorem pushEvents_keeps (hdocumented : store.Documented threads) (hstreams : ¬ past .Streaming)
    (events : List StreamEvent) :
    Keeps (CallStands threads thread elsewhere key past inputs before last)
      ((⟨store, thread, turn⟩ : TurnWriter C σ).pushEvents events) := by
  induction events with
  | nil => exact .pure
  | cons event rest hind => exact .bind (write_keeps hdocumented hstreams rfl) fun _ => hind

/-- A turn that is completed stands so. -/
theorem complete_stands (hdocumented : store.Documented threads) (hstreams : ¬ past .Streaming) :
    Holds (CallStands threads thread elsewhere key past inputs before last)
      ((⟨store, thread, turn⟩ : TurnWriter C σ).endTurn .Completed)
      (fun _ => Stands threads thread elsewhere fun held =>
        CallOn key past inputs before held last ∧ held.status turn = .Completed)
      fun _ => CallStands threads thread elsewhere key past inputs before last := by
  have hother : ∀ rank, 0 < rank → (Write.endTurn turn .Completed).takes ≠ some (key rank) :=
    fun _ _ htakes => by cases htakes
  refine hdocumented.write_stands (fun held next hcalled hdone => ?_)
    fun held next hcalled hleft => hcalled.left hstreams hleft hother
  refine ⟨hcalled.left hstreams (.done hdone) hother, ?_⟩
  cases hdone with
  | ended hstored htaken =>
    unfold Held.status
    rw [Function.update_self]
    exact (TurnRecord.finish_ok htaken).2.2.1

namespace ReactLoop

variable {loop : ReactLoop} {call : ModelCall}

/-- A reply that asks for no tool completes its turn. -/
theorem streamReply_stands (hdocumented : store.Documented threads) (hstreams : ¬ past .Streaming) :
    Holds (CallStands threads thread elsewhere key past inputs before last)
      (loop.streamReply ⟨store, thread, turn⟩ false call)
      (fun step => Stands threads thread elsewhere fun held => CallOn key past inputs before held last ∧
        (step.stopReason ≠ .AwaitingToolResults → held.status turn = .Completed))
      fun _ => CallStands threads thread elsewhere key past inputs before last := by
  unfold streamReply
  simp only [Bool.false_eq_true, if_false]
  refine .bind _ (pushEvents_keeps hdocumented hstreams call.events) fun _ => ?_
  refine .bind _ Keeps.ofExcept fun step => ?_
  split
  · refine .bind _ (complete_stands hdocumented hstreams) fun _ => .pure fun desk hstands => ?_
    exact ⟨⟨hstands.1.1, fun _ => hstands.1.2⟩, hstands.2⟩
  · rename_i hasks
    exact .pure fun desk hstands => ⟨⟨hstands.1, fun hends => absurd hends hasks⟩, hstands.2⟩

/-- A model call that opens the next turn opens it first. -/
theorem streamReply_opens (hdocumented : store.Documented threads) (hstreams : ¬ past .Streaming)
    (hapart : Apart key inputs) :
    Holds (Stands threads thread elsewhere fun held =>
        CallOn key past inputs before held last ∧ LastPast key past held last)
      (loop.streamReply ⟨store, thread, key (last + 1)⟩ true call)
      (fun step => Stands threads thread elsewhere fun held => CallOn key past inputs before held (last + 1) ∧
        (step.stopReason ≠ .AwaitingToolResults → held.status (key (last + 1)) = .Completed))
      fun _ => Stands threads thread elsewhere fun held =>
        ∃ count, CallOn key past inputs before held count := by
  have hsplit : loop.streamReply (C := C) ⟨store, thread, key (last + 1)⟩ true call =
      (do (⟨store, thread, key (last + 1)⟩ : TurnWriter C σ).openTurn loop.author
          loop.streamReply ⟨store, thread, key (last + 1)⟩ false call) := rfl
  rw [hsplit]
  refine .bind (fun _ => CallStands threads thread elsewhere key past inputs before (last + 1)) ?_ fun _ => ?_
  · refine hdocumented.write_stands (fun held next hcalled hdone => hcalled.1.open_turn hapart hcalled.2 hdone)
      fun held next hcalled hleft => ?_
    cases hleft with
    | same => exact ⟨last, hcalled.1⟩
    | done hdone => exact ⟨last + 1, hcalled.1.open_turn hapart hcalled.2 hdone⟩
  · exact (streamReply_stands hdocumented hstreams).imp (fun _ hpre => hpre) (fun _ _ hpost => hpost)
      fun _ desk hstands => ⟨⟨last + 1, hstands.1⟩, hstands.2⟩

section Threads

variable {tkey : Key} {state : State C} {c : C}

/-- The text of a thread names it. -/
theorem threadOf_text (hthread : state.str tkey = .ok thread.text) : threadOf tkey state = .ok thread := by
  unfold threadOf
  rw [hthread]
  exact dif_pos thread.valid

/-- What a model call of a durable agent does, once it knows where its reply goes. -/
theorem callModel_eq (hkey : loop.call.thread = some tkey) (hthread : state.str tkey = .ok thread.text)
    (hconversation : state.conversation loop.key = .ok c) {target : ReplyTarget}
    (htarget : loop.target state c = .ok target) :
    loop.callModel store call state = (do
      let step ← loop.streamReply ⟨store, thread, target.turnId⟩ target.opens call
      known (loop.reply state step)) := by
  unfold callModel
  rw [known_bind hconversation, known_bind htarget, hkey]
  dsimp only
  rw [known_bind (threadOf_text hthread)]

/-- The updates of a model call are those of a reply, which its stream has left as it was to. -/
theorem callModel_stands (hkey : loop.call.thread = some tkey) (hthread : state.str tkey = .ok thread.text)
    (hconversation : state.conversation loop.key = .ok c) {target : ReplyTarget}
    (htarget : loop.target state c = .ok target) {pre exit : Desk σ → Prop} {after : Step → Desk σ → Prop}
    (hstreams : Holds pre (loop.streamReply ⟨store, thread, target.turnId⟩ target.opens call) after
      fun _ => exit) (hexit : ∀ step desk, after step desk → exit desk) :
    Holds pre (loop.callModel store call state)
      (fun updates desk => ∃ step, loop.reply state step = .ok updates ∧ after step desk)
      fun _ => exit := by
  rw [callModel_eq hkey hthread hconversation htarget]
  refine .bind _ hstreams fun step => ?_
  exact .ofExcept (fun updates hreply desk hafter => ⟨step, hreply, hafter⟩)
    fun _ _ desk hafter => hexit step desk hafter

/-- The tool nodes write their results to the turn that the agent is on. -/
theorem writeRound_keeps (hdocumented : store.Documented threads) (hstreams : ¬ past .Streaming)
    (hkey : loop.call.thread = some tkey) (hthread : state.str tkey = .ok thread.text) {turn : Turn}
    {results : List ToolResult} :
    Keeps (CallStands threads thread elsewhere key past inputs before last)
      (loop.writeRound store state turn results : Act (Desk σ) (Halt C) Unit) := by
  unfold writeRound
  rw [hkey]
  dsimp only
  rw [known_bind (threadOf_text hthread)]
  split
  · exact .pure
  · exact write_keeps hdocumented hstreams rfl

end Threads

end ReactLoop

namespace LimitNode

open ReactLoop (threadOf_text)

variable {node : LimitNode} {tkey : Key} {config : Config C} {state : State C}

/-- A limit node that closes the turn completes it. -/
theorem writes_stands (hdocumented : store.Documented threads) (hstreams : ¬ past .Streaming)
    {index : Nat} {results : List ToolResult} {closing : Option String} :
    Holds (CallStands threads thread elsewhere key past inputs before last)
      (writes (C := C) ⟨store, thread, turn⟩ index results closing)
      (fun _ => Stands threads thread elsewhere fun held => CallOn key past inputs before held last ∧
        (closing.isSome = true → held.status turn = .Completed))
      fun _ => CallStands threads thread elsewhere key past inputs before last := by
  have hcloses : Holds (CallStands threads thread elsewhere key past inputs before last)
      (writeClosing (C := C) ⟨store, thread, turn⟩ closing)
      (fun _ => Stands threads thread elsewhere fun held => CallOn key past inputs before held last ∧
        (closing.isSome = true → held.status turn = .Completed))
      fun _ => CallStands threads thread elsewhere key past inputs before last := by
    cases closing with
    | none => exact .pure fun desk hstands => ⟨⟨hstands.1, fun hsome => by cases hsome⟩, hstands.2⟩
    | some text =>
      refine .bind _ (pushEvents_keeps hdocumented hstreams _) fun _ => ?_
      exact (complete_stands hdocumented hstreams).imp (fun _ hpre => hpre)
        (fun _ desk hstands => ⟨⟨hstands.1.1, fun _ => hstands.1.2⟩, hstands.2⟩) fun _ _ hexit => hexit
  unfold writes
  cases results.isEmpty with
  | false =>
    refine .bind (fun _ => CallStands threads thread elsewhere key past inputs before last) ?_ fun _ => hcloses
    exact write_keeps hdocumented hstreams rfl
  | true => exact hcloses

/-- The updates of a limit node are those of its run; before them it has written, and with an end it has
completed the turn. -/
theorem refuse_stands (hdocumented : store.Documented threads) (hstreams : ¬ past .Streaming)
    (hthread : state.str tkey = .ok thread.text) {c : C} {turn : Turn}
    (hconversation : state.conversation node.key = .ok c)
    (hlast : lastTurnByAuthor c node.author = some turn) :
    Holds (CallStands threads thread elsewhere key past inputs before last)
      (node.refuse store (some tkey) config state)
      (fun updates desk => node.run config state = .ok updates ∧
        Stands threads thread elsewhere (fun held => CallOn key past inputs before held last ∧
          (node.ends = true → held.status turn.id = .Completed)) desk)
      fun _ => CallStands threads thread elsewhere key past inputs before last := by
  unfold refuse
  refine .bind _ Keeps.ofExcept fun max => ?_
  rw [known_bind hconversation]
  dsimp only
  rw [hlast]
  dsimp only
  refine .bind _ Keeps.ofExcept fun text => .bind _ Keeps.ofExcept fun calls => ?_
  refine .bind (fun closing desk => (node.ends = true → closing.isSome = true) ∧
    CallStands threads thread elsewhere key past inputs before last desk) ?_ fun closing => ?_
  · refine .ofExcept (fun closing hclosing desk hstands => ⟨fun hends => ?_, hstands⟩)
      fun _ _ _ hstands => hstands
    rw [if_pos hends] at hclosing
    cases htext : Messages.newText C (LlmGraph.React.closing max) with
    | error error =>
      rw [htext] at hclosing
      cases hclosing
    | ok text =>
      rw [htext] at hclosing
      cases hclosing
      rfl
  · rw [known_bind (threadOf_text hthread)]
    intro desk hpre
    refine (Holds.bind (fun _ => Stands threads thread elsewhere fun held => CallOn key past inputs before held last ∧
      (closing.isSome = true → held.status turn.id = .Completed))
      (writes_stands hdocumented hstreams) fun _ => ?_) desk hpre.2
    refine .ofExcept (fun updates hrun after hstands => ⟨hrun, ⟨hstands.1.1, fun hends => ?_⟩, hstands.2⟩)
      fun _ _ after hstands => ⟨hstands.1.1, hstands.2⟩
    exact hstands.1.2 (hpre.1 hends)

end LimitNode

end Nodes

end LlmGraph.React
