/- digest: What surrounds the driver of a run: the cancellation token, the instances and their
   node sides, the tasks in flight, the message channel, and the moments at which they move. -/

import LlmGraph.Executor.Checkpoint

set_option autoImplicit false
set_option relaxedAutoImplicit false

namespace LlmGraph.Executor

open Contract

variable {F : Type} [Fields F]

structure CreationFailure where
  reason : String
  cause : Option Cause
  deriving DecidableEq, Repr

/-- The address of the core an instance shares between its ends. -/
abbrev Address := Nat

/-- An instance as its node hands it over. -/
structure Instance where
  id : InstanceId
  core : Address
  deriving DecidableEq, Repr

inductive Message (F : Type) [Fields F] where
  | Created (node : String) (id : InstanceId) (result : Except CreationFailure Instance)
  | Ended (node : String) (id : InstanceId) (result : Except EventEndError (Event F))

/-- A creation task in flight. -/
structure Creation where
  node : String
  id : InstanceId
  deriving DecidableEq, Repr

/-- A task that waits for the terminal event of a running instance. -/
structure Forwarder where
  node : String
  id : InstanceId
  core : Address
  deriving DecidableEq, Repr

structure World (F : Type) [Fields F] where
  clock : Nat
  now : Nat
  triggered : Bool
  cores : List (Core F)
  /-- Cores whose instance a node still holds. -/
  channels : List Address
  creations : List Creation
  forwarders : List Forwarder
  /-- Cores whose aborted forwarder has not let go of the event end yet. -/
  aborted : List Address
  mailbox : List (Message F)

/-- One atomic move of a party other than the driver. -/
inductive Act (F : Type) [Fields F] where
  | trigger
  | pass (duration : Nat)
  | channel (id : InstanceId)
  | created (creation : Creation) (result : Except CreationFailure Address)
  | forward (core : Address)
  | letGo (core : Address)
  | closeInput (core : Address)
  | next (core : Address) (waker : Waker)
  | drain (core : Address)
  | finish (core : Address) (event : Event F)
  | senderGone (core : Address)

/-- What a checkpoint sink answers. -/
inductive SinkAnswer where
  | accepted
  | refused (reason : String)
  | panicked (text : String)
  | cancelled
  deriving DecidableEq, Repr

/-- What the others do at one moment, and how the host answers if it is asked then. -/
structure Moment (F : Type) [Fields F] where
  acts : List (Act F)
  mint : Except String Unit
  sink : SinkAnswer

/-- The others over the whole run: any moments in any order are one interleaving. -/
abbrev Outside (F : Type) [Fields F] := Nat → Moment F

/-- A moment at which the others do nothing and the host agrees. -/
def Moment.still : Moment F := ⟨[], .ok (), .accepted⟩

def Moment.doing (acts : List (Act F)) : Moment F := { (Moment.still : Moment F) with acts }

namespace World

def fresh (triggered : Bool) : World F where
  clock := 0
  now := 0
  triggered := triggered
  cores := []
  channels := []
  creations := []
  forwarders := []
  aborted := []
  mailbox := []

def updateCore (world : World F) (core : Address) (update : Core F → Core F) : World F :=
  { world with cores := world.cores.modify core update }

/-- The task of a creation ends and sends its message; an instance leaves its node. -/
def complete (world : World F) (creation : Creation) (result : Except CreationFailure Address) :
    World F :=
  if creation ∉ world.creations then world
  else
    let send (result : Except CreationFailure Instance) : World F :=
      { world with
        creations := world.creations.erase creation
        mailbox := world.mailbox ++ [.Created creation.node creation.id result] }
    match result with
    | .error failure => send (.error failure)
    | .ok address =>
        match world.cores[address]? with
        | some core =>
            if address ∈ world.channels then
              { send (.ok ⟨core.id, address⟩) with channels := world.channels.erase address }
            else world
        | none => world

/-- A forwarder polls its event end; once it is ready the message is sent. -/
def forward (world : World F) (address : Address) : World F :=
  match world.forwarders.find? (·.core == address), world.cores[address]? with
  | some forwarder, some core =>
      let (polled, ready) := core.pollRecv address
      let world := world.updateCore address fun _ => polled
      match ready with
      | .Pending => world
      | .Ready result =>
          { world with
            forwarders := world.forwarders.erase forwarder
            mailbox := world.mailbox ++ [.Ended forwarder.node forwarder.id result] }
  | _, _ => world

def letGo (world : World F) (address : Address) : World F :=
  if address ∈ world.aborted then
    { world.updateCore address (·.eventEndDropped.1) with
      aborted := world.aborted.erase address }
  else world

def act (world : World F) : Act F → World F
  | .trigger => { world with triggered := true }
  | .pass duration => { world with now := world.now + duration }
  | .channel id =>
      { world with
        cores := world.cores ++ [Core.new id]
        channels := world.channels ++ [world.cores.length] }
  | .created creation result => world.complete creation result
  | .forward core => world.forward core
  | .letGo core => world.letGo core
  | .closeInput core => world.updateCore core (·.closeInput.1)
  | .next core waker => world.updateCore core (·.pollNext waker |>.1)
  | .drain core => world.updateCore core (·.drain.1)
  | .finish core event => world.updateCore core (·.finish event |>.1)
  | .senderGone core => world.updateCore core (·.senderGone.1)

/-- Let one moment pass. -/
def tick (out : Outside F) (world : World F) : World F :=
  { (out world.clock).acts.foldl act world with clock := world.clock + 1 }

/-- `spawn_creation`. -/
def spawnCreation (world : World F) (node : String) (id : InstanceId) : World F :=
  { world with creations := world.creations ++ [⟨node, id⟩] }

/-- `spawn_forwarder`. -/
def spawnForwarder (world : World F) (node : String) (id : InstanceId) (core : Address) :
    World F :=
  { world with forwarders := world.forwarders ++ [⟨node, id, core⟩] }

/-- An instance is dropped with both of its ends. -/
def dropInstance (world : World F) (core : Address) : World F :=
  world.updateCore core (·.inputEndDropped.1.eventEndDropped.1)

/-- The input end of a running instance is dropped and its forwarder aborted. -/
def dropRunning (world : World F) (core : Address) : World F :=
  { world.updateCore core (·.inputEndDropped.1) with
    forwarders := world.forwarders.filter (·.core != core)
    aborted := core :: world.aborted }

/-- The creation task of an id is aborted. -/
def abortCreation (world : World F) (node : String) (id : InstanceId) : World F :=
  { world with creations := world.creations.erase ⟨node, id⟩ }

@[simp] theorem complete_triggered (world : World F) (creation : Creation)
    (result : Except CreationFailure Address) :
    (world.complete creation result).triggered = world.triggered := by
  unfold complete
  split
  · rfl
  · rcases result with failure | address
    · rfl
    · dsimp only
      split
      · split <;> rfl
      · rfl

@[simp] theorem forward_triggered (world : World F) (core : Address) :
    (world.forward core).triggered = world.triggered := by
  unfold forward
  split
  · dsimp only
    split <;> rfl
  · rfl

@[simp] theorem letGo_triggered (world : World F) (core : Address) :
    (world.letGo core).triggered = world.triggered := by
  unfold letGo
  split <;> rfl

theorem act_triggered (world : World F) (act : Act F) (htriggered : world.triggered) :
    (world.act act).triggered := by
  cases act <;> simp [World.act, updateCore, htriggered]

/-- A triggered token stays triggered, whatever the others do. -/
theorem tick_triggered (out : Outside F) (world : World F) (htriggered : world.triggered) :
    (world.tick out).triggered := by
  have hall : ∀ (acts : List (Act F)) (world : World F), world.triggered →
      (acts.foldl act world).triggered := by
    intro acts
    induction acts with
    | nil => exact fun _ htriggered => htriggered
    | cons act rest hstep => exact fun world htriggered => hstep _ (act_triggered world act htriggered)
  exact hall _ _ htriggered

end World

end LlmGraph.Executor
