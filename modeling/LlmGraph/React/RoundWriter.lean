/- digest: The rounds in which the tool nodes of a durable agent write their results: seats taken at
   the first poll, deposits, the write of the last depositor, and the wait for the round's end. -/

import Mathlib.Logic.Function.Basic
import LlmGraph.Contract.Instance
import LlmGraph.React.Messages

set_option autoImplicit false
set_option relaxedAutoImplicit false

namespace LlmGraph.React

open Contract (Waker Poll)

inductive Deposit where
  | Results (results : List ToolResult)
  | Failed
  deriving DecidableEq, Repr

/-- How a round ended; the error of a store is its text. -/
inductive Outcome where
  | Written
  | NotWritten
  | StoreFailed (source : String)
  deriving DecidableEq, Repr

structure Round where
  deposits : List (Option Deposit)
  outcome : Option Outcome
  wakers : List Waker
  holders : Nat
  deriving DecidableEq, Repr

def Round.default : Round := ⟨[], none, [], 0⟩

/-- The results of a round whose every node gave some, in node order; a failure leaves none. -/
def gather : List (Option Deposit) → Option (List ToolResult)
  | [] => some []
  | some (.Results results) :: rest => (gather rest).map (results ++ ·)
  | some .Failed :: _ => none
  | none :: _ => none

/-- The rounds under way, by the state that the nodes of the superstep read. -/
structure RoundWriters where
  rounds : Nat → Option Round

namespace RoundWriters

def default : RoundWriters := ⟨fun _ => none⟩

def insert (writers : RoundWriters) (superstep : Nat) (round : Round) : RoundWriters :=
  ⟨Function.update writers.rounds superstep (some round)⟩

def remove (writers : RoundWriters) (superstep : Nat) : RoundWriters :=
  ⟨Function.update writers.rounds superstep none⟩

def seat (writers : RoundWriters) (superstep nodes : Nat) : RoundWriters :=
  let round := (writers.rounds superstep).getD .default
  writers.insert superstep { round with
    deposits := round.deposits ++ List.replicate (nodes - round.deposits.length) none
    holders := round.holders + 1 }

/-- `finish`: the round ends, and the wakers of the nodes that wait are woken. -/
def finish (writers : RoundWriters) (superstep : Nat) (outcome : Outcome) :
    RoundWriters × List Waker :=
  match writers.rounds superstep with
  | some round =>
      (writers.insert superstep { round with outcome := some outcome, wakers := [] }, round.wakers)
  | none => (writers, [])

/-- `deposit`: the last deposit gives back every result of the round, or ends it. -/
def deposit (writers : RoundWriters) (superstep node : Nat) (deposit : Deposit) :
    RoundWriters × Option (List ToolResult) × List Waker :=
  match writers.rounds superstep with
  | none => (writers, none, [])
  | some round =>
      let placed := round.deposits.set node (some deposit)
      if placed.any Option.isNone then
        (writers.insert superstep { round with deposits := placed }, none, [])
      else
        let taken := writers.insert superstep
          { round with deposits := placed.map fun _ => none }
        match gather placed with
        | some all => (taken, some all, [])
        | none =>
            let (ended, woken) := taken.finish superstep .NotWritten
            (ended, none, woken)

/-- The last holder of a round forgets it. -/
def release (writers : RoundWriters) (superstep : Nat) : RoundWriters :=
  match writers.rounds superstep with
  | none => writers
  | some round =>
      if round.holders - 1 = 0 then writers.remove superstep
      else writers.insert superstep { round with holders := round.holders - 1 }

/-- `drop` of a seat: one that has not deposited deposits a failure. -/
def drop (writers : RoundWriters) (superstep node : Nat) (deposited : Bool) :
    RoundWriters × List Waker :=
  if deposited then (writers.release superstep, [])
  else
    let (next, _, woken) := writers.deposit superstep node .Failed
    (next.release superstep, woken)

/-- `RoundEnd::poll`. -/
def pollEnd (writers : RoundWriters) (superstep : Nat) (waker : Waker) :
    RoundWriters × Poll Outcome :=
  match writers.rounds superstep with
  | none => (writers, .Ready .NotWritten)
  | some round =>
      match round.outcome with
      | some outcome => (writers, .Ready outcome)
      | none =>
          if round.wakers.contains waker then (writers, .Pending)
          else (writers.insert superstep { round with wakers := round.wakers ++ [waker] }, .Pending)

end RoundWriters

/-- Where a tool node of a superstep stands. -/
inductive Place where
  | Unpolled
  | Seated
  | Writing
  | Waiting
  | Left
  deriving DecidableEq, Repr

/-- The places of a node that holds a seat. -/
def Place.holds : Place → Bool
  | Seated | Writing | Waiting => true
  | Unpolled | Left => false

/-- The tool nodes of one superstep: where each stands, the waker it sleeps on, the results it has
deposited, and what the superstep has given to the store. -/
structure Team where
  place : Nat → Place
  asleep : Nat → Option Waker
  given : Nat → Option (List ToolResult)
  writes : List (List ToolResult)

namespace Team

/-- Before any node of the superstep is polled. -/
def opening : Team := ⟨fun _ => .Unpolled, fun _ => none, fun _ => none, []⟩

/-- A node that moves is awake. -/
def move (team : Team) (node : Nat) (place : Place) : Team :=
  { team with
    place := Function.update team.place node place
    asleep := Function.update team.asleep node none }

def give (team : Team) (node : Nat) (results : List ToolResult) : Team :=
  { team with given := Function.update team.given node (some results) }

def write (team : Team) (all : List ToolResult) : Team :=
  { team with writes := team.writes ++ [all] }

def sleep (team : Team) (node : Nat) (waker : Waker) : Team :=
  { team with asleep := Function.update team.asleep node (some waker) }

/-- Every node that sleeps on a woken waker is awake. -/
def wake (team : Team) (woken : List Waker) : Team :=
  { team with asleep := fun node => (team.asleep node).filter fun waker => !woken.contains waker }

/-- The nodes among `count` that hold a seat. -/
def holding (count : Nat) (team : Team) : Nat :=
  (List.range count).countP fun node => (team.place node).holds

/-- What the `count` nodes have deposited, in node order, once all have. -/
def collected (count : Nat) (team : Team) : Option (List ToolResult) :=
  ((List.range count).mapM team.given).map List.flatten

end Team

/-- What happens in a superstep; a node leaves on an error, a panic, a cancel or a drop. -/
inductive Event where
  | Begin
  | Seat (node : Nat)
  | Deposit (node : Nat) (results : List ToolResult)
  | Written (node : Nat) (stored : Except String Unit)
  | Poll (node : Nat) (waker : Waker)
  | Leave (node : Nat)

/-- `Seat::write`, on what the store answered. -/
def outcomeOf : Except String Unit → Outcome
  | .ok () => .Written
  | .error source => .StoreFailed source

/-- The round writers of a ReAct loop, and the tool nodes of each superstep, by the state they
read. -/
structure Nodes where
  writers : RoundWriters
  teams : Nat → Team

namespace Nodes

/-- Before any superstep has run. -/
def opening : Nodes := ⟨.default, fun _ => .opening⟩

def set (nodes : Nodes) (writers : RoundWriters) (superstep : Nat) (team : Team) : Nodes :=
  ⟨writers, Function.update nodes.teams superstep team⟩

/-- One event in a superstep of `count` tool nodes; a later superstep begins under the same state
once no node holds a seat. -/
def step (count : Nat) (nodes : Nodes) (superstep : Nat) (event : Event) : Option Nodes :=
  let writers := nodes.writers
  let team := nodes.teams superstep
  match event with
  | .Begin =>
      if team.holding count = 0 then some (nodes.set writers superstep .opening) else none
  | .Seat node =>
      if node < count ∧ team.place node = .Unpolled then
        some (nodes.set (writers.seat superstep count) superstep (team.move node .Seated))
      else none
  | .Deposit node results =>
      if team.place node = .Seated then
        match writers.deposit superstep node (.Results results) with
        | (writers, some all, _) =>
            some (nodes.set writers superstep
              (((team.give node results).write all).move node .Writing))
        | (writers, none, woken) =>
            some (nodes.set writers superstep
              (((team.give node results).move node .Waiting).wake woken))
      else none
  | .Written node stored =>
      if team.place node = .Writing then
        let (writers, woken) := writers.finish superstep (outcomeOf stored)
        some (nodes.set writers superstep ((team.move node .Waiting).wake woken))
      else none
  | .Poll node waker =>
      if team.place node = .Waiting then
        match writers.pollEnd superstep waker with
        | (writers, .Ready _) =>
            let (writers, woken) := writers.drop superstep node true
            some (nodes.set writers superstep ((team.move node .Left).wake woken))
        | (writers, .Pending) => some (nodes.set writers superstep (team.sleep node waker))
      else none
  | .Leave node =>
      if (team.place node).holds then
        let (writers, woken) := writers.drop superstep node (team.place node != .Seated)
        some (nodes.set writers superstep ((team.move node .Left).wake woken))
      else none

def run (count : Nat) (nodes : Nodes) : List (Nat × Event) → Option Nodes
  | [] => some nodes
  | (superstep, event) :: later =>
      (nodes.step count superstep event).bind fun next => next.run count later

end Nodes

end LlmGraph.React
