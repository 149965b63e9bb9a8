/- digest: The superstep of the tool nodes: their calls start as slots are free and end in any order,
   and each node gives back its updates, for a durable agent once the round is written. -/

import LlmGraph.React.Rounds
import LlmGraph.React.ToolNode

set_option autoImplicit false
set_option relaxedAutoImplicit false

namespace LlmGraph.React

open Superstep (State GraphError Key NodeId Update)
open Contract (Waker Poll)

variable {C : Type} [Messages C]

/-- The superstep of some tool nodes: the state that they read, its address, the limit on the calls
that run at once, and whether the agent is durable. -/
structure Tooling (C : Type) [Messages C] where
  tools : List ToolNode
  state : State C
  superstep : Nat
  limit : Option Nat
  durable : Bool

/-- How far the tool nodes are: the round writers, the nodes polled, the answers by node and call, the
calls that hold a slot, the nodes one of whose hooks failed, and the updates given back. -/
structure Work (C : Type) [Messages C] where
  nodes : Nodes
  polled : Nat → Bool
  answers : Nat → Nat → Option (Answer C)
  running : List (Nat × Nat)
  failed : Nat → Bool
  gave : Nat → Option (List (Update C))

/-- What happens while the tool nodes run: the first poll of a node, a call that takes a slot, a call
that ends, a node whose calls have all ended, the store's answer, a look at the round's end, and what
other supersteps do with the same round writers. -/
inductive WorkEvent (C : Type) [Messages C] where
  | First (node : Nat)
  | Start (node call : Nat)
  | Finish (node call : Nat) (hook : Option (Except String Judgment))
      (outcome : Except String (ToolOutput C))
  | Close (node : Nat)
  | Written (node : Nat) (stored : Except String Unit)
  | Look (node : Nat) (waker : Waker)
  | Elsewhere (superstep : Nat) (event : Event)

namespace Tooling

variable (tooling : Tooling C)

def opening (nodes : Nodes) : Work C :=
  ⟨nodes, fun _ => false, fun _ _ => none, [], fun _ => false, fun _ => none⟩

/-- The owned calls of a node, each with whether its tool is enabled. -/
def callsOf (node : Nat) : List (ToolCall × Bool) :=
  match tooling.tools[node]? with
  | none => []
  | some tool => tool.calls tooling.state

/-- The answer of a call: the tool of a call that is not enabled is never asked. -/
def answerOf (work : Work C) (node call : Nat) : Option (Answer C) :=
  match (tooling.callsOf node)[call]? with
  | none => none
  | some (_, false) => some .NotEnabled
  | some (_, true) => work.answers node call

/-- The calls of a node with their answers, once all are answered. -/
def pairs (work : Work C) (node : Nat) : Option (List (ToolCall × Answer C)) :=
  (List.range (tooling.callsOf node).length).mapM fun call =>
    match (tooling.callsOf node)[call]?, tooling.answerOf work node call with
    | some (owned, _), some answer => some (owned, answer)
    | _, _ => none

/-- What a node gives back once all its calls are answered: its results with the updates of the
tools, nothing without a turn, or an error. -/
def closes (work : Work C) (node : Nat) :
    Option (Except String (List (ToolResult × List (Update C)))) :=
  match tooling.tools[node]? with
  | none => none
  | some tool =>
      match tool.begins tooling.state with
      | .error error => some (.error error.display)
      | .ok none => some (.ok [])
      | .ok (some _) => (tooling.pairs work node).map answered

/-- The updates of a node, on its results. -/
def updatesOf (node : Nat) (results : List (ToolResult × List (Update C))) : List (Update C) :=
  match tooling.tools[node]? with
  | none => []
  | some tool =>
      match tool.begins tooling.state with
      | .ok (some (turn, _)) => tool.updates turn.id results
      | _ => []

/-- An event of the round writers in this superstep. -/
def among (work : Work C) (event : Event) : Option (Work C) :=
  (work.nodes.step tooling.tools.length tooling.superstep event).map fun nodes =>
    { work with nodes }

def step (work : Work C) : WorkEvent C → Option (Work C)
  | .First node =>
      if node < tooling.tools.length ∧ work.polled node = false then
        let work := { work with polled := Function.update work.polled node true }
        if tooling.durable then tooling.among work (.Seat node) else some work
      else none
  | .Start node call =>
      match (tooling.callsOf node)[call]? with
      | some (_, true) =>
          if work.polled node ∧ work.answers node call = none ∧ (node, call) ∉ work.running then
            if work.failed node then
              some { work with
                answers := Function.update work.answers node
                  (Function.update (work.answers node) call (some .NotStarted)) }
            else if tooling.limit.all (work.running.length < ·) then
              some { work with running := (node, call) :: work.running }
            else none
          else none
      | _ => none
  | .Finish node call hook outcome =>
      if (node, call) ∈ work.running then
        let answer := judgeAndRun hook outcome
        some { work with
          running := work.running.erase (node, call)
          answers := Function.update work.answers node
            (Function.update (work.answers node) call (some answer))
          failed := match answer with
            | .HookFailed _ => Function.update work.failed node true
            | _ => work.failed }
      else none
  | .Close node =>
      if work.polled node = true ∧ work.gave node = none then
        match tooling.closes work node with
        | none => none
        | some (.error _) => if tooling.durable then tooling.among work (.Leave node) else some work
        | some (.ok results) =>
            if tooling.durable then
              tooling.among work (.Deposit node (results.map Prod.fst))
            else some { work with
              gave := Function.update work.gave node (some (tooling.updatesOf node results)) }
      else none
  | .Written node stored => tooling.among work (.Written node stored)
  | .Look node waker =>
      match tooling.closes work node, (work.nodes.writers.pollEnd tooling.superstep waker).2 with
      | some (.ok results), .Ready outcome =>
          (tooling.among work (.Poll node waker)).map fun work =>
            match outcome with
            | .StoreFailed _ => work
            | .Written | .NotWritten => { work with
              gave := Function.update work.gave node (some (tooling.updatesOf node results)) }
      | _, _ => tooling.among work (.Poll node waker)
  | .Elsewhere superstep event =>
      if superstep = tooling.superstep then none
      else (work.nodes.step tooling.tools.length superstep event).map fun nodes =>
        { work with nodes }

def run (work : Work C) : List (WorkEvent C) → Option (Work C)
  | [] => some work
  | event :: later => (tooling.step work event).bind fun next => run next later

end Tooling

end LlmGraph.React
