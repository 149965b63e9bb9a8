/- digest: The node that waits for lanes: what it makes of an input, its task one locked operation at a
   time, and what the executor can rely on in every interleaving with its own operations. -/

import Mathlib.Logic.Relation
import LlmGraph.Contract.Channel

set_option autoImplicit false
set_option relaxedAutoImplicit false

namespace LlmGraph.Flow

open Contract
open Relation (ReflTransGen)

variable {F : Type} [Fields F]

/-- What a merger does with an input whose state it calls spent. -/
inductive LateInput where
  | Silent
  | Fail
  | FireAgain
  deriving DecidableEq, Repr

structure Rules (F : Type) [Fields F] where
  name : String
  ready : State F → Bool
  spent : State F → Bool

structure Merger (F : Type) [Fields F] where
  rules : Rules F
  lateInput : LateInput

inductive Decision where
  | Wait
  | Fire
  | Refuse
  deriving DecidableEq, Repr

/-- Where the task of an instance stands between two operations on its core; `settle` closes the
input, drains it and sends the event. -/
inductive Stage (F : Type) [Fields F] where
  | Waiting
  | Reading
  | Closing (event : Event F)
  | Draining (event : Event F)
  | Finishing (event : Event F)
  | Returned

namespace Merger

variable (merger : Merger F)

def decide (state : State F) : Decision :=
  let ready := if merger.rules.ready state then .Fire else .Wait
  if merger.rules.spent state then
    match merger.lateInput with
    | .Silent => .Wait
    | .Fail => .Refuse
    | .FireAgain => ready
  else ready

def refusal : Reason :=
  "merger " ++ merger.rules.name ++ ": the merge was already done, a late input is refused"

/-- Where the task goes on from an input it has read. -/
def after (input : Input F) : Stage F :=
  match merger.decide input.state with
  | .Wait => .Waiting
  | .Fire => .Closing (.Result Fields.emptyUpdate)
  | .Refuse => .Closing (.Refused merger.refusal)

/-- One operation of the task with what it reports; a wait polls the dropped signal first, then the
cancel signal, which fires only when the token may be triggered, and the reader last. -/
inductive Moves (token : Bool) : Stage F → Core.Action F → Core.Outcome F → Stage F → Prop
  | dropped (key : Option Nat) (waker : Waker) :
      Moves token .Waiting (.PollDropped key waker) (.Dropped true) .Returned
  | cancelled (key : Option Nat) (waker : Waker) (htriggered : token = true) :
      Moves token .Waiting (.PollDropped key waker) (.Dropped false) (.Closing .Cancelled)
  | attends (key : Option Nat) (waker : Waker) :
      Moves token .Waiting (.PollDropped key waker) (.Dropped false) .Reading
  | pending (waker : Waker) : Moves token .Reading (.Next waker) (.Next .Pending) .Waiting
  | gone (waker : Waker) : Moves token .Reading (.Next waker) (.Next (.Ready none)) .Returned
  | reads (waker : Waker) (input : Input F) :
      Moves token .Reading (.Next waker) (.Next (.Ready (some input))) (merger.after input)
  | closes (event : Event F) : Moves token (.Closing event) .CloseInput .Done (.Draining event)
  | drains (event : Event F) (inputs : List (Input F)) :
      Moves token (.Draining event) .Drain (.Drained inputs) (.Finishing event)
  | finishes (event : Event F) : Moves token (.Finishing event) (.Finish event) .Done .Returned
  | forgets (stage : Stage F) : Moves token stage .ForgetReaderWaker .Done stage
  | unwatches (stage : Stage F) (key : Nat) :
      Moves token stage (.RemoveDroppedWaiter key) .Done stage
  | leaves : Moves token .Returned .SenderGone .Done .Returned
  | shuts : Moves token .Returned .CloseInput .Done .Returned

/-- An instance in any interleaving of its task with the executor that holds it: the executor gives
inputs, and its forwarder polls the event end until it is ready. -/
inductive Serves (token : Bool) (id : InstanceId) : Stage F → Core F → List (Input F) → Prop
  | begins : Serves token id .Waiting (Core.new id) []
  | given {stage : Stage F} {core next : Core F} {inputs : List (Input F)} (input : Input F)
      (woken : List Waker) (hserves : Serves token id stage core inputs)
      (haccepted : core.give input = some (next, woken)) :
      Serves token id stage next (inputs ++ [input])
  | polled {stage : Stage F} {core : Core F} {inputs : List (Input F)} (waker : Waker)
      (hserves : Serves token id stage core inputs) (hpending : (core.pollRecv waker).2 = .Pending) :
      Serves token id stage (core.pollRecv waker).1 inputs
  | moved {stage stage' : Stage F} {core : Core F} {inputs : List (Input F)}
      (action : Core.Action F) (hserves : Serves token id stage core inputs)
      (hmoves : merger.Moves token stage action (core.act action).2.1 stage') :
      Serves token id stage' (core.act action).1 inputs

/-- The event answers one of the inputs, or the token. -/
inductive Answers (token : Bool) (inputs : List (Input F)) : Event F → Prop
  | fire (input : Input F) (hmem : input ∈ inputs) (hfire : merger.decide input.state = .Fire) :
      Answers token inputs (.Result Fields.emptyUpdate)
  | refuse (input : Input F) (hmem : input ∈ inputs)
      (hrefuse : merger.decide input.state = .Refuse) :
      Answers token inputs (.Refused merger.refusal)
  | cancel (htriggered : token = true) : Answers token inputs .Cancelled

/-- What holds of the core of an instance at each stage of its task. -/
def Stands (token : Bool) (core : Core F) (inputs : List (Input F)) : Stage F → Prop
  | .Waiting | .Reading => core.node = .Working .Open ∧ ∃ read, inputs = read ++ core.queue ∧
      ∀ input ∈ read, merger.decide input.state = .Wait
  | .Closing event => core.node = .Working .Open ∧ merger.Answers token inputs event
  | .Draining event | .Finishing event =>
      core.node = .Working .Closed ∧ merger.Answers token inputs event
  | .Returned => ∃ event, core.node = .Sent event ∧ merger.Answers token inputs event

variable {merger}

theorem Answers.append {token : Bool} {inputs : List (Input F)} {event : Event F}
    (hanswers : merger.Answers token inputs event) (more : List (Input F)) :
    merger.Answers token (inputs ++ more) event := by
  cases hanswers with
  | fire input hmem hfire => exact .fire input (List.mem_append_left _ hmem) hfire
  | refuse input hmem hrefuse => exact .refuse input (List.mem_append_left _ hmem) hrefuse
  | cancel htriggered => exact .cancel htriggered

/-- What a merger does with an input it does not wait on. -/
theorem after_answers (merger : Merger F) (token : Bool) {inputs : List (Input F)}
    {input : Input F} (hmem : input ∈ inputs) :
    (merger.decide input.state = .Wait ∧ merger.after input = .Waiting) ∨
      ∃ event, merger.after input = .Closing event ∧ merger.Answers token inputs event := by
  unfold after
  cases hdecide : merger.decide input.state with
  | Wait => exact .inl ⟨rfl, rfl⟩
  | Fire => exact .inr ⟨_, rfl, .fire input hmem hdecide⟩
  | Refuse => exact .inr ⟨_, rfl, .refuse input hmem hdecide⟩

variable {token : Bool} {id : InstanceId} {core : Core F} {inputs : List (Input F)}
  {stage : Stage F}

/-- An accepted input goes behind the queue of an open core. -/
private theorem Stands.give (hstands : merger.Stands token core inputs stage) {input : Input F}
    {next : Core F} {woken : List Waker} (haccepted : core.give input = some (next, woken)) :
    next.executor = core.executor ∧ merger.Stands token next (inputs ++ [input]) stage := by
  have hopen : core.node = .Working .Open :=
    (Core.give_isSome core input).mp (by rw [haccepted]; rfl)
  have haccepts : core.acceptsInput = true := by
    unfold Core.acceptsInput
    rw [hopen]
  unfold Core.give at haccepted
  rw [if_pos haccepts] at haccepted
  cases haccepted
  refine ⟨rfl, ?_⟩
  cases stage with
  | Waiting | Reading =>
    obtain ⟨-, read, hinputs, hwait⟩ := hstands
    exact ⟨hopen, read, by rw [hinputs, List.append_assoc], hwait⟩
  | Closing event => exact ⟨hopen, hstands.2.append _⟩
  | Draining event | Finishing event =>
    have hclosed := hstands.1
    rw [hopen] at hclosed
    cases hclosed
  | Returned =>
    obtain ⟨event, hsent, -⟩ := hstands
    rw [hopen] at hsent
    cases hsent

/-- A forwarder that has to wait only leaves its waker. -/
private theorem Stands.poll (hstands : merger.Stands token core inputs stage) {waker : Waker}
    (hpending : (core.pollRecv waker).2 = .Pending) :
    (core.pollRecv waker).1.executor = core.executor ∧
      merger.Stands token (core.pollRecv waker).1 inputs stage := by
  rcases core with ⟨coreId, queue, node, executor, reader, event, waiters⟩
  rcases node with gate | event | _ | _
  · refine ⟨rfl, ?_⟩
    cases stage <;> exact hstands
  · cases hpending
  · cases hpending
  · cases hpending

/-- Each operation of the task leaves its core as the next stage has it. -/
private theorem Stands.move {stage' : Stage F} {action : Core.Action F}
    (hstands : merger.Stands token core inputs stage) (hattached : core.executor = .Attached)
    (hmoves : merger.Moves token stage action (core.act action).2.1 stage') :
    (core.act action).1.executor = .Attached ∧
      merger.Stands token (core.act action).1 inputs stage' := by
  generalize hreport : (core.act action).2.1 = outcome at hmoves
  have hunwatched : core.isDropped = false := by
    unfold Core.isDropped
    rw [hattached]
    rfl
  have hopen (hnode : core.node = .Working .Open) : core.acceptsInput = true := by
    unfold Core.acceptsInput
    rw [hnode]
  cases hmoves with
  | dropped key waker =>
    have hready : (core.pollDropped key waker).2.2 = true := Core.Outcome.Dropped.inj hreport
    unfold Core.pollDropped at hready
    rw [hunwatched] at hready
    cases hready
  | cancelled key waker htriggered =>
    obtain ⟨hnode, -⟩ := hstands
    refine ⟨?_, ?_, .cancel htriggered⟩
    · show (core.pollDropped key waker).1.executor = .Attached
      rw [Core.pollDropped, hunwatched]
      exact hattached
    · rw [Core.act_node]
      exact hnode
  | attends key waker =>
    obtain ⟨hnode, read, hinputs, hwait⟩ := hstands
    have hpolled : (core.act (.PollDropped key waker)).1 =
        { core with droppedWaiters := (core.droppedWaiters.register key waker).1 } := by
      show (core.pollDropped key waker).1 = _
      rw [Core.pollDropped, hunwatched]
      rfl
    rw [hpolled]
    exact ⟨hattached, hnode, read, hinputs, hwait⟩
  | pending waker =>
    obtain ⟨hnode, read, hinputs, hwait⟩ := hstands
    have hpoll : (core.pollNext waker).2 = .Pending := Core.Outcome.Next.inj hreport
    have hpolled : (core.pollNext waker).1 = { core with readerWaker := some waker } := by
      unfold Core.pollNext at hpoll ⊢
      cases hqueue : core.queue with
      | nil => rw [if_pos (hopen hnode)]
      | cons first rest =>
        rw [hqueue] at hpoll
        cases hpoll
    show (core.pollNext waker).1.executor = .Attached ∧ _
    rw [Core.act, hpolled]
    exact ⟨hattached, hnode, read, hinputs, hwait⟩
  | gone waker =>
    obtain ⟨hnode, -⟩ := hstands
    have hpoll : (core.pollNext waker).2 = .Ready none := Core.Outcome.Next.inj hreport
    unfold Core.pollNext at hpoll
    split at hpoll
    · cases hpoll
    · rw [if_pos (hopen hnode)] at hpoll
      cases hpoll
  | reads waker input =>
    obtain ⟨hnode, read, hinputs, hwait⟩ := hstands
    have hpoll : (core.pollNext waker).2 = .Ready (some input) := Core.Outcome.Next.inj hreport
    obtain ⟨rest, hqueue, hpolled⟩ : ∃ rest, core.queue = input :: rest ∧
        (core.pollNext waker).1 = { core with queue := rest } := by
      unfold Core.pollNext at hpoll ⊢
      cases hqueue : core.queue with
      | nil =>
        rw [hqueue] at hpoll
        dsimp only at hpoll
        rw [if_pos (hopen hnode)] at hpoll
        cases hpoll
      | cons first rest =>
        rw [hqueue] at hpoll
        cases hpoll
        exact ⟨rest, rfl, rfl⟩
    show (core.pollNext waker).1.executor = .Attached ∧ merger.Stands token
      (core.pollNext waker).1 inputs (merger.after input)
    rw [hpolled]
    refine ⟨hattached, ?_⟩
    have hmem : input ∈ inputs := by
      rw [hinputs, hqueue]
      exact List.mem_append_right _ List.mem_cons_self
    rcases after_answers merger token hmem with
      ⟨hdecide, hafter⟩ | ⟨event, hafter, hanswers⟩
    · rw [hafter]
      refine ⟨hnode, read ++ [input], ?_, ?_⟩
      · rw [hinputs, hqueue, List.append_assoc]
        rfl
      · intro other hother
        rcases List.mem_append.mp hother with hread | hlast
        · exact hwait other hread
        · rw [List.mem_singleton.mp hlast]
          exact hdecide
    · rw [hafter]
      exact ⟨hnode, hanswers⟩
  | closes event =>
    obtain ⟨hnode, hanswers⟩ := hstands
    have hclosed : (core.act .CloseInput).1 =
        { core with node := .Working .Closed, readerWaker := none } := by
      show core.closeInput.1 = _
      rw [Core.closeInput, hnode]
    rw [hclosed]
    exact ⟨hattached, rfl, hanswers⟩
  | drains event drained =>
    obtain ⟨hnode, hanswers⟩ := hstands
    exact ⟨hattached, hnode, hanswers⟩
  | finishes event =>
    obtain ⟨hnode, hanswers⟩ := hstands
    have hworking : core.isWorking = true := by
      unfold Core.isWorking
      rw [hnode]
    have hsent : (core.act (.Finish event)).1 = { core with
        node := .Sent event, queue := [], readerWaker := none, eventWaker := none } := by
      show (core.finish event).1 = _
      rw [Core.finish, if_pos hworking]
      rfl
    rw [hsent]
    exact ⟨hattached, event, rfl, hanswers⟩
  | forgets | unwatches =>
    refine ⟨hattached, ?_⟩
    cases stage <;> exact hstands
  | leaves =>
    obtain ⟨event, hsent, hanswers⟩ := hstands
    have hworking : ¬core.isWorking = true := by
      unfold Core.isWorking
      rw [hsent]
      exact Bool.false_ne_true
    have hleft : (core.act .SenderGone).1 =
        { core with queue := [], readerWaker := none, eventWaker := none } := by
      show core.senderGone.1 = _
      rw [Core.senderGone, if_neg hworking]
      rfl
    rw [hleft]
    exact ⟨hattached, event, hsent, hanswers⟩
  | shuts =>
    obtain ⟨event, hsent, hanswers⟩ := hstands
    have hleft : (core.act .CloseInput).1 = core := by
      show core.closeInput.1 = _
      rw [Core.closeInput, hsent]
    rw [hleft]
    exact ⟨hattached, event, hsent, hanswers⟩

/-- Whatever the order of its task and the executor, the core of an instance is as the stage of
its task has it, and the executor keeps both ends. -/
theorem Serves.stands (hserves : merger.Serves token id stage core inputs) :
    core.executor = .Attached ∧ merger.Stands token core inputs stage := by
  induction hserves with
  | begins => exact ⟨rfl, rfl, [], rfl, fun _ hmem => absurd hmem List.not_mem_nil⟩
  | given input woken _ haccepted ih =>
    obtain ⟨hsame, hstands⟩ := ih.2.give haccepted
    exact ⟨hsame.trans ih.1, hstands⟩
  | polled waker _ hpending ih =>
    obtain ⟨hsame, hstands⟩ := ih.2.poll hpending
    exact ⟨hsame.trans ih.1, hstands⟩
  | moved action _ hmoves ih => exact ih.2.move ih.1 hmoves

/-- An instance that no one cancels stays open while every input it accepted lets it wait. -/
theorem Serves.acceptsInput (hserves : merger.Serves false id stage core inputs)
    (hwait : ∀ input ∈ inputs, merger.decide input.state = .Wait) : core.acceptsInput = true := by
  have hunanswered (event : Event F) : ¬merger.Answers false inputs event := by
    intro hanswers
    cases hanswers with
    | fire input hmem hfire =>
      rw [hwait input hmem] at hfire
      cases hfire
    | refuse input hmem hrefuse =>
      rw [hwait input hmem] at hrefuse
      cases hrefuse
    | cancel htriggered => cases htriggered
  have hstands := hserves.stands.2
  have hopen : core.node = .Working .Open := by
    cases stage with
    | Waiting | Reading => exact hstands.1
    | Closing event => exact hstands.1
    | Draining event | Finishing event => exact absurd hstands.2 (hunanswered event)
    | Returned =>
      obtain ⟨event, -, hanswers⟩ := hstands
      exact absurd hanswers (hunanswered event)
  unfold Core.acceptsInput
  rw [hopen]

/-- What the executor receives from an instance is an event that answers one of the inputs it
accepted, or the token. -/
theorem Serves.recv (hserves : merger.Serves token id stage core inputs) {waker : Waker}
    {result : Except EventEndError (Event F)}
    (hready : (core.pollRecv waker).2 = .Ready result) :
    ∃ event, result = .ok event ∧ merger.Answers token inputs event := by
  have hstands := hserves.stands.2
  have hworking {gate : Gate} (hnode : core.node = .Working gate) : False := by
    unfold Core.pollRecv at hready
    rw [hnode] at hready
    cases hready
  cases stage with
  | Waiting | Reading => exact (hworking hstands.1).elim
  | Closing event => exact (hworking hstands.1).elim
  | Draining event | Finishing event => exact (hworking hstands.1).elim
  | Returned =>
    obtain ⟨event, hsent, hanswers⟩ := hstands
    unfold Core.pollRecv at hready
    rw [hsent] at hready
    cases hready
    exact ⟨event, rfl, hanswers⟩

/-- One operation of the task of an instance. -/
inductive Advances (merger : Merger F) (token : Bool) : Stage F × Core F → Stage F × Core F → Prop
  | move {stage stage' : Stage F} {core : Core F} (action : Core.Action F)
      (hmoves : merger.Moves token stage action (core.act action).2.1 stage') :
      Advances merger token (stage, core) (stage', (core.act action).1)

/-- A closed and drained task sends its event. -/
private theorem finishing_returns (merger : Merger F) (token : Bool) (event : Event F)
    (hnode : core.node = .Working .Closed) :
    ∃ last, ReflTransGen (Advances merger token) (.Finishing event, core) (.Returned, last) ∧
      last.node = .Sent event := by
  have hsent : (core.act (.Finish event)).1.node = .Sent event := by
    rw [Core.act_node, hnode]
  exact ⟨_, .single (.move (.Finish event) (.finishes event)), hsent⟩

private theorem draining_returns (merger : Merger F) (token : Bool) (event : Event F)
    (hnode : core.node = .Working .Closed) :
    ∃ last, ReflTransGen (Advances merger token) (.Draining event, core) (.Returned, last) ∧
      last.node = .Sent event := by
  have hdrained : (core.act .Drain).1.node = .Working .Closed := by
    rw [Core.act_node, hnode]
  obtain ⟨last, hreturns, hsent⟩ :=
    finishing_returns merger token event hdrained
  exact ⟨last, .head (.move .Drain (.drains event _)) hreturns, hsent⟩

private theorem closing_returns (merger : Merger F) (token : Bool) (event : Event F)
    (hnode : core.node = .Working .Open) :
    ∃ last, ReflTransGen (Advances merger token) (.Closing event, core) (.Returned, last) ∧
      last.node = .Sent event := by
  have hclosed : (core.act .CloseInput).1.node = .Working .Closed := by
    rw [Core.act_node, hnode]
  obtain ⟨last, hreturns, hsent⟩ := draining_returns merger token event hclosed
  exact ⟨last, .head (.move .CloseInput (.closes event)) hreturns, hsent⟩

/-- A task that waits comes to read, on the same open core. -/
private theorem waiting_reads (merger : Merger F) (token : Bool)
    (hattached : core.executor = .Attached)
    (hnode : core.node = .Working .Open) :
    ∃ next, Advances merger token (.Waiting, core) (.Reading, next) ∧
      next.node = .Working .Open ∧ next.executor = .Attached ∧ next.queue = core.queue := by
  have hunwatched : core.isDropped = false := by
    unfold Core.isDropped
    rw [hattached]
    rfl
  have hpolled : core.act (.PollDropped none 0) =
      ({ core with droppedWaiters := (core.droppedWaiters.register none 0).1 },
        .Dropped false, []) := by
    show ((core.pollDropped none 0).1, Core.Outcome.Dropped (core.pollDropped none 0).2.2, []) = _
    rw [Core.pollDropped, hunwatched]
    rfl
  refine ⟨_, .move (.PollDropped none 0) ?_, ?_⟩
  · rw [hpolled]
    exact .attends none 0
  · rw [hpolled]
    exact ⟨hnode, hattached, rfl⟩

/-- A task that reads goes through its queue up to the first input it does not wait on. -/
private theorem reading_returns {queue : List (Input F)} (hattached : core.executor = .Attached)
    (hnode : core.node = .Working .Open) (hqueue : core.queue = queue)
    (hready : ∃ input ∈ queue, merger.decide input.state ≠ .Wait) :
    ∃ last event, ReflTransGen (Advances merger token) (.Reading, core) (.Returned, last) ∧
      last.node = .Sent event := by
  induction queue generalizing core with
  | nil =>
    obtain ⟨input, hmem, -⟩ := hready
    exact absurd hmem List.not_mem_nil
  | cons first rest ih =>
    have hnext : core.act (.Next 0) =
        ({ core with queue := rest }, .Next (.Ready (some first)), []) := by
      show ((core.pollNext 0).1, Core.Outcome.Next (core.pollNext 0).2, []) = _
      rw [Core.pollNext, hqueue]
    have hreads : Advances merger token (.Reading, core)
        (merger.after first, (core.act (.Next 0)).1) := by
      apply Advances.move
      rw [hnext]
      exact .reads 0 first
    rw [hnext] at hreads
    have hfirst : first ∈ [first] := List.mem_cons_self
    rcases after_answers merger token hfirst with ⟨hdecide, hafter⟩ | ⟨event, hafter, -⟩
    · have hlater : ∃ input ∈ rest, merger.decide input.state ≠ .Wait := by
        obtain ⟨input, hmem, hnot⟩ := hready
        rcases List.mem_cons.mp hmem with hfirst | hrest
        · rw [hfirst] at hnot
          exact absurd hdecide hnot
        · exact ⟨input, hrest, hnot⟩
      obtain ⟨next, hattends, hopen, hheld, hsame⟩ :=
        waiting_reads merger token (show ({ core with queue := rest } : Core F).executor = .Attached
          from hattached) hnode
      obtain ⟨last, event, hreturns, hsent⟩ := ih hheld hopen hsame hlater
      rw [hafter] at hreads
      exact ⟨last, event, .head hreads (.head hattends hreturns), hsent⟩
    · obtain ⟨last, hreturns, hsent⟩ := closing_returns merger token event
        (show ({ core with queue := rest } : Core F).node = .Working .Open from hnode)
      rw [hafter] at hreads
      exact ⟨last, event, .head hreads hreturns, hsent⟩

/-- An instance that accepted an input it does not wait on comes to send its event by operations
of its own task alone. -/
theorem Serves.returns (hserves : merger.Serves token id stage core inputs)
    (hready : ∃ input ∈ inputs, merger.decide input.state ≠ .Wait) :
    ∃ last event, ReflTransGen (Advances merger token) (stage, core) (.Returned, last) ∧
      last.node = .Sent event := by
  obtain ⟨hattached, hstands⟩ := hserves.stands
  have hqueued {read : List (Input F)} (hinputs : inputs = read ++ core.queue)
      (hwait : ∀ input ∈ read, merger.decide input.state = .Wait) :
      ∃ input ∈ core.queue, merger.decide input.state ≠ .Wait := by
    obtain ⟨input, hmem, hnot⟩ := hready
    rw [hinputs] at hmem
    rcases List.mem_append.mp hmem with hread | hleft
    · exact absurd (hwait input hread) hnot
    · exact ⟨input, hleft, hnot⟩
  cases stage with
  | Waiting =>
    obtain ⟨hnode, read, hinputs, hwait⟩ := hstands
    obtain ⟨next, hattends, hopen, hheld, hsame⟩ :=
      waiting_reads merger token hattached hnode
    obtain ⟨last, event, hreturns, hsent⟩ := reading_returns hheld hopen hsame
      (hqueued hinputs hwait)
    exact ⟨last, event, .head hattends hreturns, hsent⟩
  | Reading =>
    obtain ⟨hnode, read, hinputs, hwait⟩ := hstands
    exact reading_returns hattached hnode rfl (hqueued hinputs hwait)
  | Closing event =>
    obtain ⟨last, hreturns, hsent⟩ := closing_returns merger token event hstands.1
    exact ⟨last, event, hreturns, hsent⟩
  | Draining event =>
    obtain ⟨last, hreturns, hsent⟩ := draining_returns merger token event hstands.1
    exact ⟨last, event, hreturns, hsent⟩
  | Finishing event =>
    obtain ⟨last, hreturns, hsent⟩ := finishing_returns merger token event hstands.1
    exact ⟨last, event, hreturns, hsent⟩
  | Returned =>
    obtain ⟨event, hsent, -⟩ := hstands
    exact ⟨core, event, .refl, hsent⟩

/-- The task of an instance goes on serving. -/
theorem Serves.advances (hserves : merger.Serves token id stage core inputs) {stage' : Stage F}
    {core' : Core F}
    (hreaches : ReflTransGen (Advances merger token) (stage, core) (stage', core')) :
    merger.Serves token id stage' core' inputs := by
  generalize hlast : (stage', core') = last at hreaches
  induction hreaches generalizing stage' core' with
  | refl =>
    cases hlast
    exact hserves
  | tail _ hstep ih =>
    cases hstep with
    | move action hmoves =>
      cases hlast
      exact .moved action (ih rfl) hmoves

/-- An open instance can be given any inputs before its task moves. -/
theorem Serves.give_all (hserves : merger.Serves token id stage core inputs)
    (hnode : core.node = .Working .Open) (more : List (Input F)) :
    ∃ next, merger.Serves token id stage next (inputs ++ more) ∧ next.node = .Working .Open ∧
      next.queue = core.queue ++ more ∧ next.executor = core.executor := by
  induction more generalizing core inputs with
  | nil =>
    rw [List.append_nil, List.append_nil]
    exact ⟨core, hserves, hnode, rfl, rfl⟩
  | cons input more ih =>
    have hgiven : core.give input =
        some ({ core with queue := core.queue ++ [input], readerWaker := none },
          core.readerWaker.toList) := by
      simp [Core.give, Core.acceptsInput, hnode]
    obtain ⟨next, hnext, hopen, hqueue, hexecutor⟩ := ih (.given input _ hserves hgiven) hnode
    rw [List.append_assoc] at hnext hqueue
    exact ⟨next, hnext, hopen, hqueue, hexecutor⟩

end Merger

end LlmGraph.Flow
