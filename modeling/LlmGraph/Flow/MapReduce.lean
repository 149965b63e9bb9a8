/- digest: The node that maps its state to a list of elements, gives each to an instance of the
   internal node under a limit, and reduces the outcomes; one instance of it, await by await. -/

import LlmGraph.Contract.Channel

set_option autoImplicit false
set_option relaxedAutoImplicit false

namespace LlmGraph.Flow

open Lib (Attempt)
open Contract

inductive FaultMode where
  | NonStrict
  | Strict
  deriving DecidableEq, Repr

inductive MapReduceError where
  | InvalidInitialValue (position : Nat) (reason : String)
  | InstanceNotCreated (position : Nat) (cause : Cause)
  | InstanceIdMismatch (position : Nat) (expected returned : InstanceId)
  | InputRefused (position : Nat)
  | InternalFailed (position : Nat) (cause : Cause)
  | InternalRefused (position : Nat) (reason : String)
  | InternalCancelled (position : Nat)
  | InternalVanished (position : Nat)
  | UpdateRejected (position : Nat) (reason : String)
  deriving DecidableEq, Repr

namespace MapReduceError

/-- A text that ends with what a cause displays. -/
def ending (text : String) : Cause → Cause
  | .shows shown => .shows (text ++ shown)
  | .panics panic => .panics panic

/-- The error as a cause: displaying it displays the cause it holds. -/
def display : MapReduceError → Cause
  | InvalidInitialValue position reason => .shows
      ("the initial value of internal state " ++ toString position ++ " is invalid: " ++ reason)
  | InstanceNotCreated position cause =>
      ending ("the internal instance " ++ toString position ++ " could not be created: ") cause
  | InstanceIdMismatch position expected returned => .shows
      ("the internal instance " ++ toString position ++ " carries the instance id " ++
        toString returned ++ ", not the id " ++ toString expected ++ " it was given")
  | InputRefused position => .shows
      ("the internal instance " ++ toString position ++
        " refused its input: its input end is closed")
  | InternalFailed position cause =>
      ending ("the internal instance " ++ toString position ++ " failed: ") cause
  | InternalRefused position reason => .shows
      ("the internal instance " ++ toString position ++ " refused its input: " ++ reason)
  | InternalCancelled position => .shows
      ("the internal instance " ++ toString position ++
        " was cancelled while its cancel token was not triggered")
  | InternalVanished position => .shows
      ("the internal instance " ++ toString position ++
        " vanished without sending a terminal event")
  | UpdateRejected position reason => .shows
      ("the update of the internal instance " ++ toString position ++ " was not accepted: " ++
        reason)

end MapReduceError

inductive ElementOutcome (G : Type) [Fields G] where
  | Done (state : State G)
  | Failed (text : String)

/-- The rules and the options of the node; `none` stands for a panic of the host's code. -/
structure MapReduce (F G : Type) [Fields F] [Fields G] where
  name : String
  map : State F → Option (List G)
  limit : ℕ+
  reduce : List (ElementOutcome G) → Option (Fields.Update F)
  internalSizeLimit : ℕ+
  faultMode : FaultMode

/-- What an element's instance ended with, as `recv` reports it. -/
abbrev Received (G : Type) [Fields G] := Except EventEndError (Event G)

inductive Halt where
  | Cancel
  | Dropped
  | Fault (error : MapReduceError)
  deriving DecidableEq, Repr

/-- The task that listens to one element's instance, with what it has received. -/
structure Child (G : Type) [Fields G] where
  position : Nat
  core : Core G
  received : Option (Received G)

/-- The work on the elements; `triggered` is the child scope's own token. -/
structure Work (G : Type) [Fields G] where
  triggered : Bool
  states : List (State G)
  failures : List (Option String)
  children : List (Child G)
  next : Nat

/-- Where the instance's task stands. -/
inductive Phase (F G : Type) [Fields F] [Fields G] where
  | Reading
  | Closing (first : Input F)
  | Draining (first : Input F)
  | Starting (last : Input F)
  | Creating (work : Work G) (asked : InstanceId)
  | Waiting (work : Work G)
  | StopCancelled (work : Work G)
  | StopFailed (work : Work G) (error : MapReduceError)
  | Settling (event : Event F)
  | Gone

/-- What the world sees of a run, in the order in which it happens. -/
inductive Effect (F G : Type) [Fields F] [Fields G] where
  | Accepted (input : Input F)
  | Created (position : Nat) (asked : InstanceId) (core : Core G)
  | Given (position : Nat) (input : Input G)
  | Ended (position : Nat) (received : Received G)
  | Reduced (outcomes : List (ElementOutcome G))
  | Sent (event : Event F)

/-- One instance of the node, the instances of its elements, and its cancel token. -/
structure World (F G : Type) [Fields F] [Fields G] where
  own : Core F
  cancelled : Bool
  phase : Phase F G
  log : List (Effect F G)

variable {F G : Type} [Fields F] [Fields G]

/-- `initial::states`: each element as a state, checked and measured. -/
def initialStates (limit : ℕ+) (now position : Nat) :
    List G → Except MapReduceError (List (State G))
  | [] => .ok []
  | fields :: rest =>
      match State.createWithLimit now fields limit with
      | .error error => .error (.InvalidInitialValue position error.reason)
      | .panicked reason => .error (.InvalidInitialValue position reason)
      | .ok state =>
          match initialStates limit (now + 1) (position + 1) rest with
          | .ok states => .ok (state :: states)
          | .error error => .error error

namespace Work

def start (states : List (State G)) : Work G :=
  ⟨false, states, List.replicate states.length none, [], 0⟩

/-- `element_end`: the update of the element's instance is applied; anything else is a fault. -/
def elementEnd (work : Work G) (cancelled : Bool) (now position : Nat) :
    Received G → Attempt Halt (Work G)
  | .ok (.Result update) =>
      match work.states[position]? with
      | none => .panicked "index out of bounds"
      | some state =>
          match state.apply now update with
          | .ok next => .ok { work with states := work.states.set position next }
          | .error error => .error (.Fault (.UpdateRejected position error.display))
          | .panicked reason => .error (.Fault (.UpdateRejected position reason))
  | .ok (.Failed cause) => .error (.Fault (.InternalFailed position cause))
  | .ok (.Refused reason) => .error (.Fault (.InternalRefused position reason))
  | .ok .Cancelled =>
      if cancelled || work.triggered then .error .Cancel
      else .error (.Fault (.InternalCancelled position))
  | .error _ => .error (.Fault (.InternalVanished position))

/-- `receive`: a node that is not strict keeps the text of the fault and goes on. -/
def receive (mode : FaultMode) (work : Work G) (cancelled : Bool) (now position : Nat)
    (received : Received G) : Attempt Halt (Work G) :=
  match work.elementEnd cancelled now position received with
  | .error (.Fault error) =>
      if mode = .NonStrict then
        match error.display with
        | .shows text => .ok { work with failures := work.failures.set position (some text) }
        | .panics text => .panicked text
      else .error (.Fault error)
  | ended => ended

/-- The outcomes that `finish` gives to `reduce`. -/
def outcomes (work : Work G) : List (ElementOutcome G) :=
  (work.states.zip work.failures).map fun
    | (_, some text) => .Failed text
    | (state, none) => .Done state

/-- `join_next`: a child that has received is taken out of the set. -/
def join (work : Work G) (position : Nat) : Option (Received G × Work G) := do
  let child ← work.children.find? (·.position == position)
  let received ← child.received
  return (received, { work with children := work.children.filter (·.position != position) })

/-- A child whose listening ended by a panic is taken out of the set. -/
def joinFailed (work : Work G) (position : Nat) : Option (Work G) :=
  if work.children.any (·.position == position) then
    some { work with children := work.children.filter (·.position != position) }
  else none

end Work

namespace Phase

/-- The work whose children listen in a phase. -/
def work : Phase F G → Option (Work G)
  | Creating work _ | Waiting work | StopCancelled work | StopFailed work _ => some work
  | Reading | Closing _ | Draining _ | Starting _ | Settling _ | Gone => none

/-- The same phase with other children. -/
def withChildren (children : List (Child G)) : Phase F G → Phase F G
  | Creating work asked => Creating { work with children } asked
  | Waiting work => Waiting { work with children }
  | StopCancelled work => StopCancelled { work with children }
  | StopFailed work error => StopFailed { work with children } error
  | phase => phase

end Phase

/-- Where a `select` of the task goes on: a branch that is ready, with the moment of a call into the
host and the next value of its id source. -/
inductive Choice (G : Type) [Fields G] where
  | Dropped
  | Cancel
  | Next (waker : Waker)
  | Close
  | Drain
  | Start (now : Nat) (id : Except Cause InstanceId)
  | Joined (position now : Nat) (id : Except Cause InstanceId)
  | JoinFailed (position : Nat)
  | Created (created : Attempt Cause (Core G)) (id : Except Cause InstanceId)
  | Shutdown
  | Settle

namespace World

/-- An instance that was just created. -/
def opening (id : InstanceId) : World F G := ⟨.new id, false, .Reading, []⟩

def record (world : World F G) (effects : List (Effect F G)) : World F G :=
  { world with log := world.log ++ effects }

/-- The task ends without an event: its two handles are dropped. -/
def vanish (world : World F G) : World F G :=
  { world with own := world.own.senderGone.1, phase := .Gone }

/-- `complete`, up to its next await: an instance is begun while the limit leaves room, the outcomes
are reduced once no child is left. -/
def complete (node : MapReduce F G) (world : World F G) (work : Work G)
    (id : Except Cause InstanceId) : World F G :=
  if work.next < work.states.length ∧ work.children.length < node.limit then
    if world.cancelled || work.triggered then { world with phase := .StopCancelled work }
    else
      match id with
      | .error cause =>
          let stopped := { work with triggered := true }
          { world with phase := .StopFailed stopped (.InstanceNotCreated work.next cause) }
      | .ok id => { world with phase := .Creating work id }
  else if work.children.isEmpty then
    if world.cancelled || work.triggered then { world with phase := .Settling .Cancelled }
    else
      let reduced := world.record [.Reduced work.outcomes]
      match node.reduce work.outcomes with
      | none => reduced.vanish
      | some update => { reduced with phase := .Settling (.Result update) }
  else { world with phase := .Waiting work }

/-- `drive`, on a halt. -/
def halt (world : World F G) (work : Work G) : Halt → World F G
  | .Dropped => world.vanish
  | .Cancel => { world with phase := .StopCancelled work }
  | .Fault error =>
      let stopped := { work with triggered := true }
      { world with phase := .StopFailed stopped error }

/-- A child has joined, while an instance is created or not. -/
def joined (node : MapReduce F G) (world : World F G) (work : Work G) (position now : Nat)
    (goOn : Work G → World F G) : Option (World F G) :=
  (work.join position).map fun (received, work) =>
    match work.receive node.faultMode world.cancelled now position received with
    | .ok work => goOn work
    | .error halt => world.halt work halt
    | .panicked _ => world.vanish

/-- The end of `start`: the instance that was created takes the element, or the work halts. -/
def created (node : MapReduce F G) (world : World F G) (work : Work G) (asked : InstanceId)
    (id : Except Cause InstanceId) : Attempt Cause (Core G) → World F G
  | .error cause => world.halt work (.Fault (.InstanceNotCreated work.next cause))
  | .panicked text => world.halt work (.Fault (.InstanceNotCreated work.next (.shows text)))
  | .ok core =>
      let world := world.record [.Created work.next asked core]
      if core.id ≠ asked then
        world.halt work (.Fault (.InstanceIdMismatch work.next asked core.id))
      else
        match work.states[work.next]? with
        | none => world.vanish
        | some state =>
            match core.give ⟨0, state⟩ with
            | none => world.halt work (.Fault (.InputRefused work.next))
            | some (core, _) =>
                (world.record [.Given work.next ⟨0, state⟩]).complete node
                  { work with
                    children := work.children ++ [⟨work.next, core, none⟩]
                    next := work.next + 1 } id

/-- `settle`: the input end is closed and emptied, and the event is sent, which is kept while the
node side works. -/
def settle (world : World F G) (event : Event F) : World F G :=
  let idle := world.own.closeInput.1.drain.1
  let sent := { world with own := (idle.finish event).1, phase := .Gone }
  if idle.isWorking then sent.record [.Sent event] else sent

/-- One step of the instance's task, on the branch that a choice names. -/
def task (node : MapReduce F G) (world : World F G) (choice : Choice G) : Option (World F G) :=
  match world.phase, choice with
  | .Reading, .Dropped => if world.own.isDropped then some world.vanish else none
  | .Reading, .Cancel =>
      if world.cancelled then some { world with phase := .Settling .Cancelled } else none
  | .Reading, .Next waker =>
      match world.own.pollNext waker with
      | (own, .Ready (some input)) => some { world with own, phase := .Closing input }
      | (own, .Ready none) => some { world with own }.vanish
      | (own, .Pending) => some { world with own }
  | .Closing first, .Close =>
      some { world with own := world.own.closeInput.1, phase := .Draining first }
  | .Draining first, .Drain =>
      some { world with
        own := world.own.drain.1
        phase := .Starting (world.own.drain.2.getLast?.getD first) }
  | .Starting last, .Start now id =>
      match node.map last.state with
      | none => some world.vanish
      | some elements =>
          match initialStates node.internalSizeLimit now 0 elements with
          | .error error => some { world with phase := .Settling (.Failed error.display) }
          | .ok states => some (world.complete node (.start states) id)
  | .Creating work _, .Dropped | .Waiting work, .Dropped =>
      if world.own.isDropped then some (world.halt work .Dropped) else none
  | .Creating work _, .Cancel | .Waiting work, .Cancel =>
      if world.cancelled then some (world.halt work .Cancel) else none
  | .Creating work _, .JoinFailed position | .Waiting work, .JoinFailed position =>
      (work.joinFailed position).map fun work => world.halt work .Dropped
  | .Creating work asked, .Joined position now _ =>
      world.joined node work position now fun work => { world with phase := .Creating work asked }
  | .Waiting work, .Joined position now id =>
      world.joined node work position now fun work => world.complete node work id
  | .Creating work asked, .Created result id => some (world.created node work asked id result)
  | .StopCancelled _, .Dropped => if world.own.isDropped then some world.vanish else none
  | .StopCancelled work, .Joined position _ _ =>
      (work.join position).map fun (_, work) => { world with phase := .StopCancelled work }
  | .StopCancelled work, .JoinFailed position =>
      (work.joinFailed position).map fun work => { world with phase := .StopCancelled work }
  | .StopCancelled work, .Shutdown =>
      if work.children.isEmpty then some { world with phase := .Settling .Cancelled } else none
  | .StopFailed _ error, .Shutdown =>
      some { world with phase := .Settling (.Failed error.display) }
  | .Settling event, .Settle => some (world.settle event)
  | _, _ => none

/-- One poll of the task that listens to a child: on an event it drops both ends. -/
def listen (world : World F G) (position : Nat) (waker : Waker) : Option (World F G) := do
  let work ← world.phase.work
  let child ← work.children.find? (·.position == position)
  if child.received.isSome then none
  else
    let put (core : Core G) (received : Option (Received G)) : World F G :=
      { world with phase := world.phase.withChildren (work.children.map fun other =>
          if other.position = position then { other with core, received } else other) }
    match child.core.pollRecv waker with
    | (core, .Pending) => some (put core none)
    | (core, .Ready received) =>
        some ((put core.inputEndDropped.1.eventEndDropped.1 (some received)).record
          [.Ended position received])

/-- An operation of the internal node on the instance of an element. -/
def childAct (world : World F G) (position : Nat) (action : Core.Action G) :
    Option (World F G) := do
  let work ← world.phase.work
  return { world with phase := world.phase.withChildren (work.children.map fun other =>
    if other.position = position then { other with core := (other.core.act action).1 } else other) }

/-- An operation on the instance's own ends. -/
def ownAct (world : World F G) (action : Core.Action F) : World F G :=
  { world with
    own := (world.own.act action).1
    log := world.log ++ (world.own.accepted [action]).map Effect.Accepted }

end World

/-- The operations of the two ends that whoever created the instance holds. -/
def Outer : Core.Action F → Bool
  | .Give _ | .InputEndDropped | .EventEndDropped | .Recv _ | .ForgetEventWaker => true
  | _ => false

/-- The operations of the node's side of an instance, its watchers included. -/
def Inner : Core.Action F → Bool
  | .CloseInput | .Next _ | .ForgetReaderWaker | .Drain | .Finish _ | .SenderGone
  | .PollDropped .. | .RemoveDroppedWaiter _ => true
  | _ => false

/-- Whatever happens next: to the instance from outside, to its token, in the instance of an element,
in a listening task, or in the instance's own task. -/
inductive Label (F G : Type) [Fields F] [Fields G] where
  | Own (action : Core.Action F)
  | Watch (key : Option Nat) (waker : Waker)
  | Trigger
  | Child (position : Nat) (action : Core.Action G)
  | Listen (position : Nat) (waker : Waker)
  | Task (choice : Choice G)

namespace World

def step (node : MapReduce F G) (world : World F G) : Label F G → Option (World F G)
  | .Own action => if Outer action then some (world.ownAct action) else none
  | .Watch key waker => some (world.ownAct (.PollDropped key waker))
  | .Trigger => some { world with cancelled := true }
  | .Child position action => if Inner action then world.childAct position action else none
  | .Listen position waker => world.listen position waker
  | .Task choice => world.task node choice

/-- A run: the labels that are possible one after the other. -/
def run (node : MapReduce F G) (world : World F G) : List (Label F G) → Option (World F G)
  | [] => some world
  | label :: later => (world.step node label).bind fun next => next.run node later

end World

end LlmGraph.Flow
