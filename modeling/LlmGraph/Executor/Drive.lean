/- digest: The driver of a run: waiting for a message, a cancellation or the deadline, and the
   handling of each. -/

import LlmGraph.Executor.Slot

set_option autoImplicit false
set_option relaxedAutoImplicit false

namespace LlmGraph.Executor

open Contract

variable {F : Type} [Fields F]

/-- A run and what surrounds it. -/
structure Sys (F : Type) [Fields F] where
  run : Run F
  world : World F

namespace Sys

variable (out : Outside F)

/-- The others move before the driver's next atomic operation. -/
def tick (s : Sys F) : Sys F := { s with world := s.world.tick out }

def withRun (s : Sys F) (change : Run F → Run F) : Sys F := { s with run := change s.run }

/-! `run/stopping.rs` -/

/-- `deadline_after`; an instant is unbounded here, so adding the grace never overflows. -/
def deadlineAfter (now grace : Nat) : Nat := now + grace

def beginStopping (s : Sys F) (trigger : Trigger) : Sys F :=
  s.withRun (·.beginStopping (deadlineAfter s.world.now s.run.grace) trigger)

def readToken (s : Sys F) : Sys F :=
  let s := s.tick out
  if !s.run.isStopping && s.world.triggered then s.beginStopping .Host else s

/-- `fail`: record the failure, and unless the run is stopping already, read the token, trigger
it if no one has, and stop. -/
def fail (s : Sys F) (failure : RunFailure) : Sys F :=
  let s := s.tick out
  let stopping := s.run.isStopping
  { run := s.run.fail s.world.triggered (deadlineAfter s.world.now s.run.grace) failure
    world := { s.world with triggered := s.world.triggered || !stopping } }

def leaveUntaken (s : Sys F) (node : String) : Sys F := s.withRun (·.change node (·.leaveUntaken))

def failNode (s : Sys F) (node : String) (failure : RunFailure) : Sys F :=
  (s.leaveUntaken node).fail out failure

/-- The world after the live part of a slot is dropped. -/
def dropLive (world : World F) (node : String) (slot : NodeSlot F) : World F :=
  match slot.live with
  | .Absent => world
  | .Creating id _ => world.abortCreation node id
  | .Running _ core => world.dropRunning core

def abandonAllLive (s : Sys F) : Sys F where
  run := s.run.abandonAllLive
  world := s.run.slots.toList.foldl (fun world entry => dropLive world entry.1 entry.2) s.world

/-! `run/handover.rs` -/

/-- `give_input`: hand a state to the running instance of a node, if its input end is open. -/
def giveInput (s : Sys F) (name : String) (state : Shared F) : Bool × Sys F :=
  let s := s.tick out
  match s.run.slot name with
  | some ⟨_, _, .Running id core, _, _⟩ =>
      match s.world.cores[core]?.bind (·.give state) with
      | some (given, _) =>
          (true, { run := s.run.accept name id state
                   world := s.world.updateCore core fun _ => given })
      | none => (false, s)
  | _ => (false, s)

def giveHeld (s : Sys F) (name : String) : Sys F :=
  let (given, s) := s.giveInput out name s.run.state
  if given then s.withRun (·.change name (·.release)) else s

def creationImpossible (s : Sys F) (name reason : String) : Sys F :=
  s.failNode out name (.NodeCouldNotStart name reason none)

def beginCreation (s : Sys F) (name : String) : Sys F :=
  match s.run.slot name with
  | none => s
  | some _ =>
      match (out s.world.clock).mint with
      | .error reason => s.creationImpossible out name reason
      | .ok () =>
          { run := s.run.create name
            world := s.world.spawnCreation name s.run.minted }

def handTo (s : Sys F) (name : String) : Sys F :=
  match s.run.slot name with
  | none => s
  | some slot =>
      if !slot.held then s
      else match slot.presence with
        | .Creating => s
        | .Running => s.giveHeld out name
        | .Absent => s.beginCreation out name

/-- The targets first, then every other held node. -/
def handOrder (run : Run F) (targets : List String) : List String :=
  targets ++ run.heldNames.filter (· ∉ targets)

def handOver (s : Sys F) (targets : List String) : Sys F :=
  (handOrder s.run targets).foldl
    (fun s name => if s.run.isStopping then s else s.handTo out name) s

/-! `run/checkpointing.rs` -/

def outcomeCheckpoint (s : Sys F) : Sys F × Checkpoint × Option RunFailure :=
  let s := s.tick out
  let nodes := s.run.nonIdleNames
  match Checkpoint.build s.world.clock s.run.state.state s.run.graph.shape nodes with
  | .ok checkpoint => (s, checkpoint, none)
  | .error reason =>
      (s, .unreadable s.run.graph.shape nodes, some (.CheckpointNotBuilt reason))

def takeStepCheckpoint (s : Sys F) : Sys F :=
  let s := s.tick out
  match Checkpoint.build s.world.clock s.run.state.state s.run.graph.shape s.run.nonIdleNames with
  | .error reason => s.fail out (.CheckpointNotBuilt reason)
  | .ok checkpoint =>
      if !s.run.sink then s
      else
        let answer := (out s.world.clock).sink
        let s := (s.withRun (·.note (.offered checkpoint))).tick out
        match answer with
        | .accepted => s
        | .refused reason => s.fail out (.SinkRefused reason checkpoint)
        | .panicked text => s.fail out (.SinkRefused text checkpoint)
        | .cancelled => s.fail out (.SinkRefused "the sink call was cancelled" checkpoint)

/-! `run/created.rs` -/

def settleCreated (s : Sys F) (node : String) (made : Instance) (firstInput : Shared F) :
    Sys F :=
  match s.run.slot node with
  | none => { s with world := s.world.dropInstance made.core }
  | some slot =>
      let s : Sys F :=
        { run := s.run.instanceCreated node made.id made.core slot
          world := s.world.spawnForwarder node made.id made.core }
      let (given, s) := s.giveInput out node firstInput
      if !given then s.withRun (·.change node (·.hold))
      else if (s.run.slot node).any (·.held) && !s.run.isStopping then s.giveHeld out node
      else s

def dropResult (world : World F) (result : Except CreationFailure Instance) : World F :=
  match result with
  | .ok made => world.dropInstance made.core
  | .error _ => world

def onCreated (s : Sys F) (node : String) (id : InstanceId)
    (result : Except CreationFailure Instance) : Sys F :=
  match (s.run.slot node).bind (·.firstInputOfCreation id) with
  | none => { s with world := dropResult s.world result }
  | some firstInput =>
      let failWith (failure : CreationFailure) : Sys F :=
        (({ s with world := dropResult s.world result } : Sys F).withRun
          (·.change node (·.endInstance.hold))).failNode out node
            (.NodeCouldNotStart node failure.reason failure.cause)
      match result with
      | .ok made =>
          if made.id = id then s.settleCreated out node made firstInput
          else failWith
            ⟨"the instance does not carry the instance id it was given", none⟩
      | .error failure => failWith failure

/-! `run/result_step.rs` -/

def resultStep (s : Sys F) (node : String) (id : InstanceId) (update : Fields.Update F) : Sys F :=
  let s := s.tick out
  match s.run.state.state.apply s.world.clock update with
  | .error error => s.failNode out node (.UpdateRefused node error.display)
  | .panicked text => s.failNode out node (.UpdateRefused node text)
  | .ok newState =>
      let s := s.tick out
      match s.run.graph.evaluateEdge s.world.clock node newState with
      | .error (.Failed cause) =>
          s.failNode out node (.EdgeFailed node cause.displayOf (some cause))
      | .error other => s.failNode out node (.EdgeFailed node other.display none)
      | .panicked text => s.failNode out node (.EdgeFailed node text none)
      | .ok targets =>
          let s := s.withRun (·.step node id update newState targets)
          if s.run.allIdle then s
          else
            let s := if !s.run.isStopping then (s.takeStepCheckpoint out).readToken out else s
            if !s.run.isStopping then s.handOver out (Target.names targets) else s

/-! `run/ended.rs` -/

def reportEvent (s : Sys F) (node : String) (id : InstanceId) (event : ObservedEvent) : Sys F :=
  s.withRun (·.tell (.EventHandled node id event))

def onEnded (s : Sys F) (node : String) (id : InstanceId)
    (result : Except EventEndError (Event F)) : Sys F :=
  match s.run.slot node with
  | none => s
  | some slot =>
      if slot.runningId ≠ some id then s
      else
        let s : Sys F :=
          { run := (s.run.change node (·.endInstance)).note (.handled node id result)
            world := dropLive s.world node slot }
        match result with
        | .ok (.Result update) => (s.reportEvent node id .Result).resultStep out node id update
        | .ok (.Failed cause) =>
            (s.reportEvent node id .Failed).failNode out node
              (.NodeFailed node cause.displayOf (some cause))
        | .ok (.Refused reason) =>
            (s.reportEvent node id .Refused).failNode out node (.NodeRefusedInput node reason)
        | .ok .Cancelled =>
            let s := (s.reportEvent node id .Cancelled).tick out
            if s.world.triggered then s.leaveUntaken node
            else s.failNode out node
              (.NodeFailed node "cancelled without a cancel request" none)
        | .error .Vanished =>
            s.failNode out node
              (.NodeVanished node "the node side ended without a terminal event")
        | .error .Finished =>
            s.failNode out node
              (.NodeVanished node "the event end finished without an event")

/-! `run/mod.rs` and `run/conclude.rs` -/

def step (s : Sys F) (message : Message F) : Sys F :=
  let s := s.readToken out
  match message with
  | .Created node id result => s.onCreated out node id result
  | .Ended node id result => s.onEnded out node id result

/-- The last entries of a run: the observer hears the kind of the outcome it returns. -/
def report (s : Sys F) (kind : OutcomeKind) (outcome : Outcome F) : Sys F × Outcome F :=
  (s.withRun fun run => (run.tell (.Outcome kind)).note (.concluded outcome), outcome)

def conclude (s : Sys F) (starting : Option Checkpoint) : Sys F × Outcome F :=
  if s.run.allIdle && s.run.failures.isEmpty then
    s.report .RunEnded (.RunEnded s.run.state.state)
  else
    let (s, checkpoint, notBuilt) : Sys F × Checkpoint × Option RunFailure :=
      match starting with
      | some checkpoint => (s, checkpoint, none)
      | none => s.outcomeCheckpoint out
    let failures := s.run.failures ++ notBuilt.toList
    if s.run.stoppedByExecutor then s.report .RunFailed (.RunFailed failures checkpoint)
    else s.report .RunCancelled (.RunCancelled failures checkpoint)

end Sys

/-- Where a run stands between two polls of its driver. -/
inductive Control (F : Type) [Fields F] where
  | waiting (s : Sys F)
  | done (s : Sys F) (outcome : Outcome F)

def Control.sys : Control F → Sys F
  | .waiting s => s
  | .done s _ => s

/-- `Origin`: the nodes of a start, or the checkpoint of a resume. -/
inductive Origin where
  | Nodes (nodes : List String)
  | Checkpoint (checkpoint : Checkpoint)

namespace Origin

def heldNames : Origin → List String
  | .Nodes nodes => nodes
  | .Checkpoint checkpoint => checkpoint.nodes

def firstTargets : Origin → List String
  | .Nodes nodes => nodes
  | .Checkpoint _ => []

def intoCheckpoint : Origin → Option Executor.Checkpoint
  | .Nodes _ => none
  | .Checkpoint checkpoint => some checkpoint

end Origin

namespace Sys

variable (out : Outside F)

def finish (s : Sys F) (starting : Option Checkpoint) : Control F :=
  let (s, outcome) := s.conclude out starting
  .done s outcome

/-- The head of the loop of `drive`: the token is read, and the run either concludes or waits. -/
def loopHead (s : Sys F) : Control F :=
  let s := s.readToken out
  if s.run.allIdle then s.finish out none
  else if s.run.isStopping && (!s.run.anyLive || s.run.grace == 0) then
    s.abandonAllLive.finish out none
  else .waiting s

/-- `drive` up to its first wait. -/
def begin (s : Sys F) (origin : Origin) : Control F :=
  let s := s.withRun fun run => (run.holdAll origin.heldNames).note (.started origin.heldNames)
  let s := s.readToken out
  if s.run.isStopping then s.finish out origin.intoCheckpoint
  else (s.handOver out origin.firstTargets).loopHead out

def receive (s : Sys F) : Option (Message F × Sys F) :=
  match s.world.mailbox with
  | [] => none
  | message :: rest => some (message, { s with world := { s.world with mailbox := rest } })

/-- One poll of a waiting driver, biased as the source: while running the token comes before a
message, while stopping a message before the deadline. -/
def poll (s : Sys F) : Control F :=
  let s := s.tick out
  match s.run.phase with
  | .Running =>
      if s.world.triggered then (s.readToken out).loopHead out
      else
        let s := s.tick out
        match s.receive with
        | some (message, s) => (s.step out message).loopHead out
        | none => .waiting s
  | .Stopping deadline _ =>
      match s.receive with
      | some (message, s) => (s.step out message).loopHead out
      | none =>
          let s := s.tick out
          if deadline ≤ s.world.now then s.abandonAllLive.finish out none
          else .waiting s

end Sys

def Control.isDone : Control F → Bool
  | .waiting _ => false
  | .done _ _ => true

theorem Control.exists_done {control : Control F} (hover : control.isDone = true) :
    ∃ s outcome, control = .done s outcome := by
  rcases control with s | ⟨s, outcome⟩
  · cases hover
  · exact ⟨s, outcome, rfl⟩

def Control.next (out : Outside F) : Control F → Control F
  | .waiting s => s.poll out
  | .done s outcome => .done s outcome

/-- The run after a number of polls. -/
def Control.after (out : Outside F) (control : Control F) : Nat → Control F
  | 0 => control
  | polls + 1 => (control.after out polls).next out

/-- A run that is over stays as it is. -/
theorem Control.after_done {out : Outside F} {control : Control F} {polls : Nat}
    (hover : (control.after out polls).isDone = true) (more : Nat) :
    control.after out (polls + more) = control.after out polls := by
  induction more with
  | zero => rfl
  | succ more hstep =>
      obtain ⟨s, outcome, hsame⟩ := Control.exists_done hover
      rw [← Nat.add_assoc, Control.after, hstep, hsame]
      rfl

/-- What the host passes beside the graph and the state. -/
structure RunConfig where
  triggered : Bool
  grace : Nat
  sink : Bool

/-- `start`: check the node list, then drive. -/
def start (out : Outside F) (graph : Graph F) (state : State F) (nodes : List String)
    (config : RunConfig) : Except StartError (Control F) :=
  match checkNames graph nodes with
  | .error fault => .error fault.toStartError
  | .ok () =>
      let s : Sys F := ⟨.new graph state config.grace config.sink, .fresh config.triggered⟩
      .ok (s.begin out (.Nodes nodes))

/-- `resume`: check the checkpoint, rebuild its state, then drive. -/
def resume (out : Outside F) (graph : Graph F) (checkpoint : Checkpoint) (limit : ℕ+)
    (config : RunConfig) : Except ResumeError (Control F) :=
  match checkResume graph 0 checkpoint limit with
  | .error error => .error error
  | .ok state =>
      let s : Sys F := ⟨.new graph state config.grace config.sink, .fresh config.triggered⟩
      .ok (s.begin out (.Checkpoint checkpoint))

end LlmGraph.Executor
