/- digest: The clients of a model call: a fallback list, the slot that settles on one of its clients,
   and the loop that attempts them. -/

import Mathlib.Algebra.Group.Nat.Defs
import LlmGraph.Agentic.Boundary
import LlmGraph.Lib.Acts

set_option autoImplicit false
set_option relaxedAutoImplicit false

namespace LlmGraph.Agentic

open Lib (Act)

/-- A duration, in nanoseconds. -/
abbrev Duration := Nat

namespace Duration

/-- The digits of a fraction of so many digits, up to the last one that is not zero. -/
def fraction : Nat → Nat → String
  | 0, _ => ""
  | digits + 1, part =>
      if part = 0 then ""
      else toString (part / 10 ^ digits) ++ fraction digits (part % 10 ^ digits)

/-- So many of a unit, and a fraction of it. -/
def decimal (whole part digits : Nat) (unit : String) : String :=
  toString whole ++ (if part = 0 then "" else "." ++ fraction digits part) ++ unit

/-- `{duration:?}`. -/
def text (duration : Duration) : String :=
  if 1000000000 ≤ duration then decimal (duration / 1000000000) (duration % 1000000000) 9 "s"
  else if 1000000 ≤ duration then decimal (duration / 1000000) (duration % 1000000) 6 "ms"
  else if 1000 ≤ duration then decimal (duration / 1000) (duration % 1000) 3 "µs"
  else decimal duration 0 0 "ns"

end Duration

example : Duration.text 60000000000 = "60s" := by decide

example : Duration.text 1050000 = "1.05ms" := by decide

inductive CallFailure where
  | Client (error : String)
  | Timeout (timeout : Duration)
  | NoThinking
  | NoStructuredReply
  | UnusableAnswer (error : String)
  deriving DecidableEq, Repr

inductive Fault where
  | Port (error : PortError)
  | Session (error : SessionError)
  | Boundary (error : BoundaryError)
  | Tool (cause : String)
  | DuplicateTool (name : ToolName)
  | Model (failure : CallFailure)
  | Value (text : String)
  | Sandbox (text : String)
  | CriticAtStepLimit (message : String)
  | CriticAtRoundLimit (message : String)
  | ProgrammaticRefusal (reason : String)
  | BlankExplicitReason
  | Panic (text : String)
  deriving DecidableEq, Repr

inductive Stop where
  | Cancelled
  | Fault (fault : Fault)
  deriving DecidableEq, Repr

inductive ThinkingExpectation where
  | Expected
  | NotExpected
  deriving DecidableEq, Repr

/-- A client of the host, by a name for it, with what is expected of its responses. -/
structure ModelClient where
  client : Nat
  expectation : ThinkingExpectation
  deriving DecidableEq, Repr

def ModelClient.shouldHaveThought (client : ModelClient) : Bool := client.expectation = .Expected

structure FallbackList where
  clients : List ModelClient
  nonempty : clients ≠ []
  deriving DecidableEq

def FallbackList.new (clients : List ModelClient) : Except String FallbackList :=
  if h : clients = [] then .error "a fallback list or a ladder holds at least one entry"
  else .ok ⟨clients, h⟩

structure Ladder where
  entries : List FallbackList
  nonempty : entries ≠ []

/-- `entry`: a position behind the last entry is the last one. -/
def Ladder.entry (ladder : Ladder) (position : Nat) : FallbackList :=
  ladder.entries.get ⟨min position (ladder.entries.length - 1), by
    have hsome := List.length_pos_iff.mpr ladder.nonempty
    omega⟩

structure Slot where
  list : FallbackList
  settled : Option Nat
  deriving DecidableEq

namespace Slot

def new (list : FallbackList) : Slot := ⟨list, none⟩

def isSettled (slot : Slot) : Bool := slot.settled.isSome

def candidate (slot : Slot) (tried : Nat) : Option (Nat × ModelClient) :=
  let index := match slot.settled with
    | some index => if tried = 0 then some index else none
    | none => some tried
  index.bind fun index => slot.list.clients[index]?.map fun client => (index, client)

def maySwitch (slot : Slot) (tried : Nat) : Bool :=
  slot.settled.isNone && tried + 1 < slot.list.clients.length

end Slot

section Drive

variable {σ O : Type}

/-- The loop of `drive` after `tried` attempts; an attempt that meets a fatal error stops. -/
def driveFrom (slot : Slot) (attempt : ModelClient → Act σ Stop (Except CallFailure O)) :
    Nat → Nat → Act σ Stop (O × Slot)
  | 0, _ => .spent
  | bound + 1, tried =>
      match slot.candidate tried with
      | none => .stop (.Fault (.Value "no client left for the model call"))
      | some (index, client) => do
          match ← attempt client with
          | .ok output => return (output, { slot with settled := some index })
          | .error failure =>
              if slot.maySwitch tried then driveFrom slot attempt bound (tried + 1)
              else .stop (.Fault (.Model failure))

/-- `drive`: the loop never goes past the list. -/
def drive (slot : Slot) (attempt : ModelClient → Act σ Stop (Except CallFailure O)) :
    Act σ Stop (O × Slot) :=
  driveFrom slot attempt slot.list.clients.length 0

end Drive

end LlmGraph.Agentic
