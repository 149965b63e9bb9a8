/- digest: No wakeup of an instance is lost: what a registered waker waits for has not happened yet,
   and the operation that makes it happen wakes it. -/

import LlmGraph.Contract.Channel

set_option autoImplicit false
set_option relaxedAutoImplicit false

namespace LlmGraph.Contract.Core

variable {F : Type} [Fields F]

/-- The reader has nothing to receive, and more may come. -/
def ReaderWaits (core : Core F) : Prop := core.queue = [] ∧ core.node = .Working .Open

/-- The node works, so there is no event to deliver. -/
def EventWaits (core : Core F) : Prop := ∃ gate, core.node = .Working gate

/-- No executor end was dropped. -/
def DropWaits (core : Core F) : Prop := core.executor = .Attached

/-- A waker is registered only while what it waits for has not happened. -/
structure Watched (core : Core F) : Prop where
  reader : ∀ waker, core.readerWaker = some waker → core.ReaderWaits
  event : ∀ waker, core.eventWaker = some waker → core.EventWaits
  dropped : core.droppedWaiters.slots ≠ [] → core.DropWaits

/-- The operations that put another waker in the place of the reader's, or none. -/
def Action.Rereads : Action F → Prop
  | Next _ | ForgetReaderWaker => True
  | _ => False

/-- The operations that put another waker in the place of the event's, or none. -/
def Action.Rereceives : Action F → Prop
  | Recv _ | ForgetEventWaker => True
  | _ => False

/-- The operations of the executor's ends that are dropped. -/
def Action.DropsEnd : Action F → Prop
  | InputEndDropped | EventEndDropped => True
  | _ => False

theorem watched_new (id : InstanceId) : (new id : Core F).Watched where
  reader waker hregistered := by cases hregistered
  event waker hregistered := by cases hregistered
  dropped hregistered := absurd rfl hregistered

section Steps

variable {core : Core F}

/-- The reader's waker stays and has its reason, or is woken and gone, or its own handle replaced
it. -/
private theorem act_reader (hwatched : core.Watched) {waker : Waker}
    (hregistered : core.readerWaker = some waker) (action : Action F) :
    (core.act action).1.readerWaker = some waker ∧ (core.act action).1.ReaderWaits ∨
      waker ∈ (core.act action).2.2 ∧ (core.act action).1.readerWaker = none ∨
      action.Rereads ∧ (core.act action).1.ReaderWaits := by
  obtain ⟨hqueue, hnode⟩ := hwatched.reader waker hregistered
  rcases core with ⟨id, queue, node, executor, reader, event, waiters⟩
  cases hqueue
  cases hnode
  cases hregistered
  cases action with
  | Give input => exact .inr (.inl ⟨List.mem_singleton_self _, rfl⟩)
  | CloseInput => exact .inr (.inl ⟨List.mem_singleton_self _, rfl⟩)
  | Finish _ | SenderGone => exact .inr (.inl ⟨List.mem_cons_self, rfl⟩)
  | InputEndDropped | EventEndDropped => exact .inr (.inl ⟨List.mem_cons_self, rfl⟩)
  | Next _ | ForgetReaderWaker => exact .inr (.inr ⟨trivial, rfl, rfl⟩)
  | PollDropped key other =>
    rcases executor with _ | _
    · exact .inl ⟨rfl, rfl, rfl⟩
    · exact .inl ⟨rfl, rfl, rfl⟩
  | Drain | Recv _ | ForgetEventWaker | RemoveDroppedWaiter _ => exact .inl ⟨rfl, rfl, rfl⟩

/-- The event's waker stays and has its reason, or is woken and gone, or its own handle replaced
it. -/
private theorem act_event (hwatched : core.Watched) {waker : Waker}
    (hregistered : core.eventWaker = some waker) (action : Action F) :
    (core.act action).1.eventWaker = some waker ∧ (core.act action).1.EventWaits ∨
      waker ∈ (core.act action).2.2 ∧ (core.act action).1.eventWaker = none ∨
      action.Rereceives ∧ (core.act action).1.EventWaits := by
  obtain ⟨gate, hnode⟩ := hwatched.event waker hregistered
  rcases core with ⟨id, queue, node, executor, reader, event, waiters⟩
  cases hnode
  cases hregistered
  have hwoken : waker ∈ reader.toList ++ [waker] :=
    List.mem_append_right _ (List.mem_singleton_self _)
  cases action with
  | Finish _ | SenderGone => exact .inr (.inl ⟨hwoken, rfl⟩)
  | InputEndDropped | EventEndDropped =>
    exact .inr (.inl ⟨List.mem_append_left _ hwoken, rfl⟩)
  | Recv _ | ForgetEventWaker => exact .inr (.inr ⟨trivial, gate, rfl⟩)
  | Give input => rcases gate with _ | _ <;> exact .inl ⟨rfl, _, rfl⟩
  | CloseInput => rcases gate with _ | _ <;> exact .inl ⟨rfl, _, rfl⟩
  | Next other =>
    rcases queue with _ | _
    · rcases gate with _ | _ <;> exact .inl ⟨rfl, _, rfl⟩
    · exact .inl ⟨rfl, _, rfl⟩
  | PollDropped key other => rcases executor with _ | _ <;> exact .inl ⟨rfl, _, rfl⟩
  | ForgetReaderWaker | Drain | RemoveDroppedWaiter _ => exact .inl ⟨rfl, _, rfl⟩

/-- An end that is dropped wakes every waiter of the drop, and keeps none. -/
private theorem act_drops {action : Action F} (hdrops : action.DropsEnd) :
    (∀ key waker, (key, waker) ∈ core.droppedWaiters.slots → waker ∈ (core.act action).2.2) ∧
      (core.act action).1.droppedWaiters.slots = [] ∧
      (core.act action).1.executor = .Dropped := by
  have hmem (key : Nat) (waker : Waker) (hslot : (key, waker) ∈ core.droppedWaiters.slots) :
      waker ∈ core.droppedWaiters.slots.map Prod.snd := List.mem_map_of_mem hslot
  cases action with
  | InputEndDropped =>
    exact ⟨fun key waker hslot => List.mem_append_right _ (hmem key waker hslot), rfl, rfl⟩
  | EventEndDropped =>
    exact ⟨fun key waker hslot => List.mem_append_right _ (hmem key waker hslot), rfl, rfl⟩
  | _ => cases hdrops

/-- No other operation drops an end. -/
private theorem act_keeps_ends {action : Action F} (hkeeps : ¬action.DropsEnd) :
    (core.act action).1.executor = core.executor := by
  rcases core with ⟨id, queue, node, executor, reader, event, waiters⟩
  cases action with
  | InputEndDropped | EventEndDropped => exact absurd trivial hkeeps
  | PollDropped key waker => rcases executor with _ | _ <;> rfl
  | Next waker =>
    rcases queue with _ | _
    · rcases node with (_ | _) | _ | _ | _ <;> rfl
    · rfl
  | _ => rcases node with (_ | _) | _ | _ | _ <;> rfl

/-- Only a poll for the drop registers a waiter of the drop, and only while both ends are there. -/
private theorem act_waiters {action : Action F} (hkeeps : ¬action.DropsEnd)
    (hattached : core.executor ≠ .Attached) :
    (core.act action).1.droppedWaiters.slots = core.droppedWaiters.slots ∨
      ∃ key, action = .RemoveDroppedWaiter key := by
  rcases core with ⟨id, queue, node, executor, reader, event, waiters⟩
  cases action with
  | InputEndDropped | EventEndDropped => exact absurd trivial hkeeps
  | RemoveDroppedWaiter key => exact .inr ⟨key, rfl⟩
  | PollDropped key waker =>
    rcases executor with _ | _
    · exact absurd rfl hattached
    · exact .inl rfl
  | Next waker =>
    refine .inl ?_
    rcases queue with _ | _
    · rcases node with (_ | _) | _ | _ | _ <;> rfl
    · rfl
  | _ =>
    refine .inl ?_
    rcases node with (_ | _) | _ | _ | _ <;> rfl

/-- A waker of the reader that was not there before is registered by a poll that waits. -/
private theorem registers_reader {action : Action F} {waker : Waker}
    (hnone : core.readerWaker = none) (hafter : (core.act action).1.readerWaker = some waker) :
    (core.act action).1.ReaderWaits := by
  rcases core with ⟨id, queue, node, executor, reader, event, waiters⟩
  cases hnone
  cases action with
  | Next other =>
    rcases queue with _ | _
    · rcases node with (_ | _) | _ | _ | _
      · exact ⟨rfl, rfl⟩
      · cases hafter
      · cases hafter
      · cases hafter
      · cases hafter
    · cases hafter
  | PollDropped key other => rcases executor with _ | _ <;> cases hafter
  | _ => rcases node with (_ | _) | _ | _ | _ <;> cases hafter

/-- A waker of the event that was not there before is registered by a poll that waits. -/
private theorem registers_event {action : Action F} {waker : Waker}
    (hnone : core.eventWaker = none) (hafter : (core.act action).1.eventWaker = some waker) :
    (core.act action).1.EventWaits := by
  rcases core with ⟨id, queue, node, executor, reader, event, waiters⟩
  cases hnone
  cases action with
  | Recv other =>
    rcases node with gate | _ | _ | _
    · exact ⟨gate, rfl⟩
    · cases hafter
    · cases hafter
    · cases hafter
  | PollDropped key other => rcases executor with _ | _ <;> cases hafter
  | Next other =>
    rcases queue with _ | _
    · rcases node with (_ | _) | _ | _ | _ <;> cases hafter
    · cases hafter
  | _ => rcases node with (_ | _) | _ | _ | _ <;> cases hafter

theorem Watched.act (hwatched : core.Watched) (action : Action F) :
    (core.act action).1.Watched where
  reader waker hafter := by
    rcases hbefore : core.readerWaker with _ | earlier
    · exact registers_reader hbefore hafter
    · rcases act_reader hwatched hbefore action with ⟨-, hwaits⟩ | ⟨-, hnone⟩ | ⟨-, hwaits⟩
      · exact hwaits
      · rw [hnone] at hafter
        cases hafter
      · exact hwaits
  event waker hafter := by
    rcases hbefore : core.eventWaker with _ | earlier
    · exact registers_event hbefore hafter
    · rcases act_event hwatched hbefore action with ⟨-, hwaits⟩ | ⟨-, hnone⟩ | ⟨-, hwaits⟩
      · exact hwaits
      · rw [hnone] at hafter
        cases hafter
      · exact hwaits
  dropped hafter := by
    by_cases hdrops : action.DropsEnd
    · exact absurd (act_drops hdrops).2.1 hafter
    · refine (act_keeps_ends hdrops).trans ?_
      by_contra hgone
      have hempty : core.droppedWaiters.slots = [] := by
        by_contra hsome
        exact hgone (hwatched.dropped hsome)
      rcases act_waiters hdrops hgone with hsame | ⟨key, rfl⟩
      · exact hafter (hsame.trans hempty)
      · refine hafter ?_
        change core.droppedWaiters.slots.filter _ = []
        rw [hempty, List.filter_nil]

end Steps

theorem Watched.run {core : Core F} (hwatched : core.Watched) (history : List (Action F)) :
    (core.run history).Watched := by
  induction history generalizing core with
  | nil => exact hwatched
  | cons action later ih => exact ih (hwatched.act action)

/-- The ends are there exactly as long as none was dropped. -/
theorem run_attached {core : Core F} (history : List (Action F)) :
    (core.run history).executor = .Attached ↔
      core.executor = .Attached ∧ ∀ action ∈ history, ¬action.DropsEnd := by
  induction history generalizing core with
  | nil => simp [run]
  | cons action later ih =>
    have hlater := @ih (core.act action).1
    change ((core.act action).1.run later).executor = .Attached ↔ _
    rw [hlater, List.forall_mem_cons, ← and_assoc]
    refine and_congr_left fun _ => ?_
    by_cases hdrops : action.DropsEnd
    · simp [(act_drops hdrops).2.2, hdrops]
    · simp [act_keeps_ends hdrops, hdrops]

/-- The wakers that a history wakes. -/
def wokenBy (core : Core F) : List (Action F) → List Waker
  | [] => []
  | action :: later => (core.act action).2.2 ++ (core.act action).1.wokenBy later

/-- A registered waker of the reader is woken before the reader would not wait. -/
private theorem reader_woken {core : Core F} (hwatched : core.Watched) {waker : Waker}
    (hregistered : core.readerWaker = some waker) {history : List (Action F)}
    (hown : ∀ action ∈ history, ¬action.Rereads) :
    (core.run history).ReaderWaits ∨ waker ∈ core.wokenBy history := by
  induction history generalizing core with
  | nil => exact .inl (hwatched.reader waker hregistered)
  | cons action later ih =>
    obtain ⟨hfirst, hlater⟩ := List.forall_mem_cons.mp hown
    rcases act_reader hwatched hregistered action with ⟨hkept, -⟩ | ⟨hwoken, -⟩ | ⟨hrereads, -⟩
    · rcases ih (hwatched.act action) hkept hlater with hwaits | hwoken
      · exact .inl hwaits
      · exact .inr (List.mem_append_right _ hwoken)
    · exact .inr (List.mem_append_left _ hwoken)
    · exact absurd hrereads hfirst

/-- A registered waker of the event is woken before there is an event to deliver. -/
private theorem event_woken {core : Core F} (hwatched : core.Watched) {waker : Waker}
    (hregistered : core.eventWaker = some waker) {history : List (Action F)}
    (hown : ∀ action ∈ history, ¬action.Rereceives) :
    (core.run history).EventWaits ∨ waker ∈ core.wokenBy history := by
  induction history generalizing core with
  | nil => exact .inl (hwatched.event waker hregistered)
  | cons action later ih =>
    obtain ⟨hfirst, hlater⟩ := List.forall_mem_cons.mp hown
    rcases act_event hwatched hregistered action with ⟨hkept, -⟩ | ⟨hwoken, -⟩ | ⟨hrereceives, -⟩
    · rcases ih (hwatched.act action) hkept hlater with hwaits | hwoken
      · exact .inl hwaits
      · exact .inr (List.mem_append_right _ hwoken)
    · exact .inr (List.mem_append_left _ hwoken)
    · exact absurd hrereceives hfirst

/-- In every reachable core a waker of the reader is registered only while the queue is empty, the
gate open and the node working; one of the event only while the node works; and a waiter of the
drop only while neither end was dropped.  The operation after which one of these no longer holds
takes the wakers concerned and wakes them, so that a waker its own handle does not replace is woken
by whatever it waits for. -/
theorem no_lost_wakeup (id : InstanceId) (history : List (Action F)) :
    (∀ waker, ((new id : Core F).run history).readerWaker = some waker →
      ((new id : Core F).run history).queue = [] ∧
        ((new id : Core F).run history).node = .Working .Open) ∧
    (∀ waker, ((new id : Core F).run history).eventWaker = some waker →
      ∃ gate, ((new id : Core F).run history).node = .Working gate) ∧
    (((new id : Core F).run history).droppedWaiters.slots ≠ [] →
      .InputEndDropped ∉ history ∧ .EventEndDropped ∉ history) ∧
    (∀ action waker, ((new id : Core F).run history).readerWaker = some waker →
      ¬((new id : Core F).run (history ++ [action])).ReaderWaits →
        waker ∈ (((new id : Core F).run history).act action).2.2 ∧
          ((new id : Core F).run (history ++ [action])).readerWaker = none) ∧
    (∀ action waker, ((new id : Core F).run history).eventWaker = some waker →
      ¬((new id : Core F).run (history ++ [action])).EventWaits →
        waker ∈ (((new id : Core F).run history).act action).2.2 ∧
          ((new id : Core F).run (history ++ [action])).eventWaker = none) ∧
    (∀ action : Action F, action.DropsEnd →
      (∀ key waker, (key, waker) ∈ ((new id : Core F).run history).droppedWaiters.slots →
        waker ∈ (((new id : Core F).run history).act action).2.2) ∧
          ((new id : Core F).run (history ++ [action])).droppedWaiters.slots = []) ∧
    (∀ waker later, ((new id : Core F).run history).readerWaker = some waker →
      (∀ action ∈ later, ¬action.Rereads) →
        ((new id : Core F).run (history ++ later)).ReaderWaits ∨
          waker ∈ ((new id : Core F).run history).wokenBy later) ∧
    (∀ waker later, ((new id : Core F).run history).eventWaker = some waker →
      (∀ action ∈ later, ¬action.Rereceives) →
        ((new id : Core F).run (history ++ later)).EventWaits ∨
          waker ∈ ((new id : Core F).run history).wokenBy later) := by
  have hwatched := (watched_new (F := F) id).run history
  have happend (later : List (Action F)) : (new id : Core F).run (history ++ later) =
      ((new id : Core F).run history).run later := List.foldl_append
  refine ⟨hwatched.reader, hwatched.event, ?_, ?_, ?_, ?_, ?_, ?_⟩
  · intro hregistered
    have hkept := ((run_attached history).mp (hwatched.dropped hregistered)).2
    exact ⟨fun hmem => hkept _ hmem trivial, fun hmem => hkept _ hmem trivial⟩
  · intro action waker hregistered hover
    rw [happend] at hover ⊢
    rcases act_reader hwatched hregistered action with ⟨-, hwaits⟩ | htaken | ⟨-, hwaits⟩
    · exact absurd hwaits hover
    · exact htaken
    · exact absurd hwaits hover
  · intro action waker hregistered hover
    rw [happend] at hover ⊢
    rcases act_event hwatched hregistered action with ⟨-, hwaits⟩ | htaken | ⟨-, hwaits⟩
    · exact absurd hwaits hover
    · exact htaken
    · exact absurd hwaits hover
  · intro action hdrops
    rw [happend]
    exact ⟨(act_drops hdrops).1, (act_drops hdrops).2.1⟩
  · intro waker later hregistered hown
    rw [happend]
    exact reader_woken hwatched hregistered hown
  · intro waker later hregistered hown
    rw [happend]
    exact event_woken hwatched hregistered hown

end LlmGraph.Contract.Core
