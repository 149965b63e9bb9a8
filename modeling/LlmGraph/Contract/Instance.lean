/- digest: One instance of a node: its input queue and gate, the terminal event of the node
   side, and the two ends the executor holds. -/

import LlmGraph.Contract.Graph

set_option autoImplicit false
set_option relaxedAutoImplicit false

namespace LlmGraph.Contract

/-- The identity of an instance, a fresh value of the host's id source. -/
abbrev InstanceId := Nat

/-- The task a waker wakes. -/
abbrev Waker := Nat

inductive Poll (α : Type) where
  | Ready (value : α)
  | Pending
  deriving DecidableEq, Repr

variable {F : Type} [Fields F]

/-- A state shared by reference.  `step` is the number of results applied when it was made; it
tells one shared state from another and no function of the program reads it. -/
structure Shared (F : Type) [Fields F] where
  step : Nat
  state : State F

/-- The input of an instance is a shared state. -/
abbrev Input (F : Type) [Fields F] := Shared F

inductive Event (F : Type) [Fields F] where
  | Result (update : Fields.Update F)
  | Failed (cause : Cause)
  | Refused (reason : Reason)
  | Cancelled

inductive EventEndError where
  | Finished
  | Vanished
  deriving DecidableEq, Repr

inductive Gate where
  | Open
  | Closed
  deriving DecidableEq, Repr

inductive NodeSide (F : Type) [Fields F] where
  | Working (gate : Gate)
  | Sent (event : Event F)
  | Ended
  | Vanished

inductive ExecutorSide where
  | Attached
  | Dropped
  deriving DecidableEq, Repr

/-- Wakers registered under keys that are handed out in order (`waiters.rs`). -/
structure Waiters where
  nextKey : Nat
  slots : List (Nat × Waker)
  deriving DecidableEq, Repr

namespace Waiters

def empty : Waiters := ⟨0, []⟩

/-- Register under the caller's key, or under a fresh one that the caller keeps. -/
def register (waiters : Waiters) (key : Option Nat) (waker : Waker) : Waiters × Nat :=
  match key with
  | none =>
      (⟨(waiters.nextKey + 1) % 2 ^ 64,
        (waiters.nextKey, waker) :: waiters.slots.filter (·.1 != waiters.nextKey)⟩,
        waiters.nextKey)
  | some key =>
      (⟨waiters.nextKey, (key, waker) :: waiters.slots.filter (·.1 != key)⟩, key)

def remove (waiters : Waiters) (key : Nat) : Waiters :=
  ⟨waiters.nextKey, waiters.slots.filter (·.1 != key)⟩

def drain (waiters : Waiters) : Waiters × List Waker :=
  (⟨waiters.nextKey, []⟩, waiters.slots.map Prod.snd)

end Waiters

/-- The shared core of an instance.  Each operation is one locked section. -/
structure Core (F : Type) [Fields F] where
  id : InstanceId
  queue : List (Input F)
  node : NodeSide F
  executor : ExecutorSide
  readerWaker : Option Waker
  eventWaker : Option Waker
  droppedWaiters : Waiters

namespace Core

def new (id : InstanceId) : Core F where
  id := id
  queue := []
  node := .Working .Open
  executor := .Attached
  readerWaker := none
  eventWaker := none
  droppedWaiters := .empty

def acceptsInput (core : Core F) : Bool :=
  match core.node with
  | .Working .Open => true
  | _ => false

def isWorking (core : Core F) : Bool :=
  match core.node with
  | .Working _ => true
  | _ => false

/-- `Inner::retire`: the queue goes, and both wakers are woken. -/
def retire (core : Core F) : Core F × List Waker :=
  ({ core with queue := [], readerWaker := none, eventWaker := none },
    core.readerWaker.toList ++ core.eventWaker.toList)

/-- `give`: `none` is the refusal of a closed input end. -/
def give (core : Core F) (input : Input F) : Option (Core F × List Waker) :=
  if core.acceptsInput then
    some ({ core with queue := core.queue ++ [input], readerWaker := none },
      core.readerWaker.toList)
  else none

def closeInput (core : Core F) : Core F × List Waker :=
  match core.node with
  | .Working .Open =>
      ({ core with node := .Working .Closed, readerWaker := none }, core.readerWaker.toList)
  | _ => (core, [])

def pollNext (core : Core F) (waker : Waker) : Core F × Poll (Option (Input F)) :=
  match core.queue with
  | input :: rest => ({ core with queue := rest }, .Ready (some input))
  | [] =>
      if core.acceptsInput then ({ core with readerWaker := some waker }, .Pending)
      else (core, .Ready none)

def forgetReaderWaker (core : Core F) : Core F := { core with readerWaker := none }

def drain (core : Core F) : Core F × List (Input F) := ({ core with queue := [] }, core.queue)

/-- `finish`: the terminal event is kept only while the node side is working. -/
def finish (core : Core F) (event : Event F) : Core F × List Waker :=
  retire (if core.isWorking then { core with node := .Sent event } else core)

def senderGone (core : Core F) : Core F × List Waker :=
  retire (if core.isWorking then { core with node := .Vanished } else core)

/-- `detach`: one of the executor's ends was dropped. -/
def detach (core : Core F) (discardEvent : Bool) : Core F × List Waker :=
  let node : NodeSide F :=
    match core.node with
    | .Sent event => if discardEvent then .Ended else .Sent event
    | .Vanished => .Vanished
    | .Working _ => .Ended
    | .Ended => .Ended
  let (left, woken) := retire { core with node, executor := .Dropped }
  let (waiters, dropped) := left.droppedWaiters.drain
  ({ left with droppedWaiters := waiters }, woken ++ dropped)

def inputEndDropped (core : Core F) : Core F × List Waker := core.detach false

def eventEndDropped (core : Core F) : Core F × List Waker := core.detach true

def pollRecv (core : Core F) (waker : Waker) :
    Core F × Poll (Except EventEndError (Event F)) :=
  match core.node with
  | .Sent event => ({ core with node := .Ended }, .Ready (.ok event))
  | .Ended => (core, .Ready (.error .Finished))
  | .Vanished => (core, .Ready (.error .Vanished))
  | .Working _ => ({ core with eventWaker := some waker }, .Pending)

def forgetEventWaker (core : Core F) : Core F := { core with eventWaker := none }

def isDropped (core : Core F) : Bool := core.executor == .Dropped

/-- `poll_dropped`: ready once an end was dropped, else registered under the waiter's key. -/
def pollDropped (core : Core F) (key : Option Nat) (waker : Waker) :
    Core F × Option Nat × Bool :=
  if core.isDropped then (core, key, true)
  else
    let (waiters, key) := core.droppedWaiters.register key waker
    ({ core with droppedWaiters := waiters }, some key, false)

def removeDroppedWaiter (core : Core F) (key : Nat) : Core F :=
  { core with droppedWaiters := core.droppedWaiters.remove key }

/-- An input is accepted exactly while the node works behind an open gate. -/
theorem give_isSome (core : Core F) (input : Input F) :
    (core.give input).isSome ↔ core.node = .Working .Open := by
  rcases core with ⟨id, queue, node, executor, reader, event, waiters⟩
  rcases node with (_ | _) | _ | _ | _ <;> simp [give, acceptsInput]

end Core

end LlmGraph.Contract
