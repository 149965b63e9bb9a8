/- digest: A superstep while it runs: the nodes and the map items under way, what each poll does to
   them and to the recorder, and the commands that arrive meanwhile. -/

import LlmGraph.Superstep.Settle

set_option autoImplicit false
set_option relaxedAutoImplicit false

namespace LlmGraph.Superstep

open Lib (Attempt)

variable {C : Type} [Conversation C]

/-- How a run of a node, or of a map item, comes out. -/
abbrev RawOutcome (C : Type) [Conversation C] := Attempt (NodeError C) (List (Update C))

/-- How far the run of a node, or of a map item, has come: not polled yet, inside a host's future
or a called graph, at work on the items it has started, or at its end. -/
inductive Task (C : Type) [Conversation C] where
  | waiting
  | running
  | mapping (items : List (Task C))
  | ended (outcome : RawOutcome C)

namespace Task

def isEnded : Task C → Bool
  | .ended _ => true
  | _ => false

def isError : Task C → Bool
  | .ended (.error _) => true
  | _ => false

end Task

/-- What happens to one run: its first poll, the start of the next item of a map, the end of a
map, and the end of a host's future or of a called graph. -/
inductive Act (C : Type) [Conversation C] where
  | poll
  | pull
  | collect
  | returns (outcome : RawOutcome C)

/-- What there is to see of a poll: an occurrence is run, a called graph starts whole, an
occurrence that was run succeeds. -/
inductive Note (C : Type) [Conversation C] where
  | ran (occurrence : OccurrenceKey)
  | restarted (occurrence : OccurrenceKey)
  | finished (occurrence : OccurrenceKey) (entry : PendingEntry C)

/-- A run after a poll, with the recorder and what there was to see. -/
structure Progress (C : Type) [Conversation C] where
  task : Task C
  store : PendingWrites C
  notes : List (Note C)

namespace Map

variable (fields : Map C)

/-- How many bodies run at once. -/
def width (config : Config C) (items : List (Value C)) : Except (GraphError C) Nat :=
  match fields.maxConcurrency with
  | some limit => limit.resolve config
  | none => .ok (max items.length 1)

/-- Each item with the context of its occurrence. -/
def prepare (ctx : Context) (index : Nat) :
    List (Value C) → Except (GraphError C) (List (Value C × Context))
  | [] => .ok []
  | item :: rest =>
      match ctx.occurrence.item index with
      | none => .error .MapWithoutOccurrence
      | some occurrence =>
          match prepare ctx (index + 1) rest with
          | .error error => .error error
          | .ok others => .ok ((item, ctx.withOccurrence occurrence) :: others)

/-- What a map settles before its first item: the items with their contexts, and the width. -/
def plan (config : Config C) (state : State C) (ctx : Context) :
    Except (GraphError C) (List (Value C × Context) × Nat) :=
  match state.list fields.list with
  | .error error => .error error
  | .ok items =>
      match fields.width config items with
      | .error error => .error error
      | .ok width =>
          match prepare ctx 0 items with
          | .error error => .error error
          | .ok prepared => .ok (prepared, width)

/-- The stop flag: an item has failed, and no other starts. -/
def stopped (tasks : List (Task C)) : Bool :=
  match fields.onItemFailure with
  | .failFast => tasks.any Task.isError
  | .finish | .capture _ => false

/-- The next item starts when there is one, the flag is down and fewer than `width` are under
way. -/
def pulls (prepared : List (Value C × Context)) (width : Nat) (tasks : List (Task C)) : Bool :=
  decide (tasks.length < prepared.length) && !fields.stopped tasks &&
    decide (tasks.countP (!·.isEnded) < width)

/-- Every item that started has ended, and no other starts. -/
def exhausted (prepared : List (Value C × Context)) (tasks : List (Task C)) : Bool :=
  tasks.all Task.isEnded && (decide (tasks.length = prepared.length) || fields.stopped tasks)

end Map

/-- The results forwarded in item order, or the first error in that order. -/
def collect : List (Task C) → RawOutcome C
  | .ended (.ok updates) :: rest =>
      match collect rest with
      | .ok others => .ok (updates ++ others)
      | failed => failed
  | .ended (.error error) :: _ => .error error
  | _ => .ok []

/-- The updates of a map body may only be appends that their lists take. -/
def checkAppends (state : State C) : List (Update C) → Except (GraphError C) Unit
  | [] => .ok ()
  | .append key value :: rest =>
      match state.checkAppend key value with
      | .error error => .error error
      | .ok () => checkAppends state rest
  | update :: _ => .error (.MapBodyNotAppend update.key)

/-- What a run of a body is: its behaviour under every act. -/
abbrev BodyRun (C : Type) [Conversation C] :=
  State C → Context → List Nat → Act C → Task C → PendingWrites C → Option (Progress C)

/-- The updates of an item are checked and recorded. -/
def keepItem (state : State C) (item : Value C) (ctx : Context) (progress : Progress C)
    (updates : List (Update C)) : Progress C :=
  match checkAppends state updates with
  | .error error => { progress with task := .ended (.error (.graph error)) }
  | .ok () => {
      task := .ended (.ok updates)
      store := ctx.recordItem progress.store item updates
      notes := progress.notes ++ [.finished ctx.occurrence ⟨updates, some item⟩] }

/-- What an item makes of what its body has come to. -/
def Map.finishItem (fields : Map C) (state derived : State C) (item : Value C) (ctx : Context)
    (progress : Progress C) : Progress C :=
  match progress.task with
  | .ended (.ok updates) => keepItem state item ctx progress updates
  | .ended (.error error) =>
      match fields.onItemFailure with
      | .capture captures =>
          match captured derived error.display captures with
          | .ok updates => keepItem state item ctx progress updates
          | .error refused => { progress with task := .ended (.error (.graph refused)) }
      | .finish | .failFast => progress
  | _ => progress

/-- `item_updates`: an item recorded on the same value is not run again. -/
def Map.itemUpdates [DecidableEq C] (fields : Map C) (bodyRun : BodyRun C) (state : State C)
    (item : Value C) : Context → List Nat → Act C → Task C → PendingWrites C → Option (Progress C)
  | ctx, [], .poll, .waiting, store =>
      match ctx.recordedItem store item with
      | some updates =>
          match checkAppends state updates with
          | .ok () => some ⟨.ended (.ok updates), store, []⟩
          | .error error => some ⟨.ended (.error (.graph error)), store, []⟩
      | none =>
          match state.derive fields.item item with
          | .error error => some ⟨.ended (.error (.graph error)), store, []⟩
          | .ok derived =>
              (bodyRun derived ctx [] .poll .waiting store).map fun progress =>
                fields.finishItem state derived item ctx
                  { progress with notes := .ran ctx.occurrence :: progress.notes }
  | _, _, _, .waiting, _ => none
  | ctx, path, act, task, store =>
      match state.derive fields.item item with
      | .error _ => none
      | .ok derived =>
          (bodyRun derived ctx path act task store).map
            (fields.finishItem state derived item ctx)

/-- A map after a poll of one of its items: a panic of the body is one of the map. -/
def Progress.into (tasks : List (Task C)) (index : Nat) (progress : Progress C) : Progress C :=
  match progress.task with
  | .ended (.panicked text) => { progress with task := .ended (.panicked text) }
  | task => { progress with task := .mapping (tasks.set index task) }

/-- `Node::run`: what an act at `path`, the indices of the items on the way, does to the run. -/
def Node.run [DecidableEq C] (config : Config C) : Node C → BodyRun C
  | .host _, _, _, path, act, task, store =>
      match path, act, task with
      | [], .poll, .waiting => some ⟨.running, store, []⟩
      | [], .returns outcome, .running => some ⟨.ended outcome, store, []⟩
      | _, _, _ => none
  | .call _ start, state, ctx, path, act, task, store =>
      match path, act, task with
      | [], .poll, .waiting =>
          match start state config with
          | .error error => some ⟨.ended (.error (.graph error)), store, []⟩
          | .ok () => some ⟨.running, ctx.restartWhole store, [.restarted ctx.occurrence]⟩
      | [], .returns outcome, .running => some ⟨.ended outcome, store, []⟩
      | _, _, _ => none
  | .map fields body, state, ctx, path, act, task, store =>
      match fields.plan config state ctx with
      | .error error =>
          match path, act, task with
          | [], .poll, .waiting => some ⟨.ended (.error (.graph error)), store, []⟩
          | _, _, _ => none
      | .ok (prepared, width) =>
          match path, act, task with
          | [], .poll, .waiting => some ⟨.mapping [], store, []⟩
          | [], .pull, .mapping tasks =>
              if fields.pulls prepared width tasks then
                some ⟨.mapping (tasks ++ [.waiting]), store, []⟩
              else none
          | [], .collect, .mapping tasks =>
              if fields.exhausted prepared tasks then some ⟨.ended (collect tasks), store, []⟩
              else none
          | index :: path, act, .mapping tasks =>
              match prepared[index]?, tasks[index]? with
              | some (item, itemCtx), some task =>
                  (fields.itemUpdates (Node.run config body) state item itemCtx path act task
                    store).map (Progress.into tasks index)
              | _, _ => none
          | _, _, _ => none

/-- A node that returns updates records them as soon as it finishes. -/
def keepNode (ctx : Context) (progress : Progress C) : Progress C :=
  match progress.task with
  | .ended (.ok updates) => { progress with
      store := ctx.record progress.store updates
      notes := progress.notes ++ [.finished ctx.occurrence ⟨updates, none⟩] }
  | _ => progress

/-- `run_recorded`: a node an earlier attempt recorded is not run. -/
def runRecorded [DecidableEq C] (config : Config C) (node : Node C) (state : State C) :
    Context → List Nat → Act C → Task C → PendingWrites C → Option (Progress C)
  | ctx, [], .poll, .waiting, store =>
      match ctx.recorded store with
      | some updates => some ⟨.ended (.ok updates), store, []⟩
      | none =>
          (node.run config state ctx [] .poll .waiting store).map fun progress =>
            keepNode ctx { progress with notes := .ran ctx.occurrence :: progress.notes }
  | _, _, _, .waiting, _ => none
  | ctx, path, act, task, store =>
      (node.run config state ctx path act task store).map (keepNode ctx)

/-- One command of the host. -/
inductive Command (C : Type) [Conversation C] where
  | input (key : Key) (input : Conversation.UserInput C)
  | pause
  | resume
  | cancel

/-- One event of a superstep: a poll of the node at a position, or a command. -/
inductive Event (C : Type) [Conversation C] where
  | node (position : Nat) (path : List Nat) (act : Act C)
  | command (command : Command C)

/-- A superstep under way: the runs of its nodes, the recorder, the inputs held and the pause
asked for so far, and what there was to see. -/
structure Driving (C : Type) [Conversation C] where
  tasks : List (Task C)
  store : PendingWrites C
  held : List (Key × Conversation.UserInput C)
  pause : Bool
  notes : List (Note C)

namespace Driving

variable (driving : Driving C)

/-- An input is held, a pause is noted; a resume is ignored. -/
def take : Command C → Driving C
  | .input key input => { driving with held := driving.held ++ [(key, input)] }
  | .pause => { driving with pause := true }
  | .resume | .cancel => driving

/-- A poll of the node at a position of the present nodes. -/
def advance [DecidableEq C] (graph : Graph C) (config : Config C) (state : State C) (ctx : Context)
    (present : List NodeId) (position : Nat) (path : List Nat) (act : Act C) : Option (Driving C) :=
  match present[position]?, driving.tasks[position]? with
  | some id, some task =>
      match graph.node id with
      | none => none
      | some node =>
          (runRecorded config node state (ctx.forNode id) path act task driving.store).map
            fun progress => { driving with
              tasks := driving.tasks.set position progress.task
              store := progress.store
              notes := driving.notes ++ progress.notes }
  | _, _ => none

end Driving

/-- The results of the present nodes, once each of them has ended. -/
def pair (present : List NodeId) (tasks : List (Task C)) : Results C :=
  (present.zip tasks).filterMap fun (id, task) =>
    match task with
    | .ended (.ok updates) => some (id, .ok updates)
    | .ended (.error error) => some (id, .error (.Returned error))
    | .ended (.panicked message) => some (id, .error (.Panic message))
    | _ => none

/-- How a superstep stops running: its nodes have all ended, or it is cancelled. -/
inductive StepResult (C : Type) [Conversation C] where
  | done (results : Results C)
  | cancelled

/-- The loop of `drive_superstep` over the events of a superstep. -/
def drive [DecidableEq C] (graph : Graph C) (config : Config C) (state : State C) (ctx : Context)
    (present : List NodeId) : Driving C → List (Event C) → Option (Driving C × StepResult C)
  | driving, [] =>
      if driving.tasks.all Task.isEnded then some (driving, .done (pair present driving.tasks))
      else none
  | driving, .command .cancel :: rest =>
      if rest.isEmpty then some (driving, .cancelled) else none
  | driving, .command command :: rest =>
      drive graph config state ctx present (driving.take command) rest
  | driving, .node position path act :: rest =>
      match driving.advance graph config state ctx present position path act with
      | none => none
      | some next => drive graph config state ctx present next rest

/-- `drive_superstep`: the active nodes that the graph holds, each in its own occurrence. -/
def driveSuperstep [DecidableEq C] (graph : Graph C) (config : Config C) (state : State C)
    (ctx : Context) (active : List NodeId) (store : PendingWrites C) (events : List (Event C)) :
    Option (Driving C × StepResult C) :=
  let present := active.filter fun id => (graph.node id).isSome
  drive graph config state ctx present
    ⟨present.map fun _ => .waiting, store, [], false, []⟩ events

end LlmGraph.Superstep
