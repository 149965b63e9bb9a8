/- digest: The messages of a thread: input turns and AI turns, their entries, and the conversation
   library that takes or refuses what is pushed. -/

import Mathlib.Data.List.Basic

set_option autoImplicit false
set_option relaxedAutoImplicit false

namespace LlmGraph.Agentic

abbrev EntryId := Nat
abbrev TurnId := Nat
abbrev AgentId := Nat
abbrev ConversationId := Nat
abbrev BlockId := Nat
abbrev Author := String
abbrev ToolName := String

/-- `as_uuid`, displayed: the 32 hexadecimal digits of an identity in five groups. -/
def uuidText (id : Nat) : String :=
  let digits := (Nat.toDigits 16 id).leftpad 32 '0'
  String.ofList (digits.take 8 ++ '-' :: ((digits.drop 8).take 4 ++ '-' :: ((digits.drop 12).take 4 ++
    '-' :: ((digits.drop 16).take 4 ++ '-' :: digits.drop 20))))

/-- An error of the conversation library, by its text. -/
abbrev MessageError := String

inductive IncomingEntry where
  | HumanMessage (id : EntryId)
  | AgentMail (id : EntryId) (sender : AgentId) (author : Author) (source : ConversationId)
  | AgentOutput (id : EntryId)
  | PartialAgentOutput (id : EntryId)
  | RequestAccepted (id : EntryId)
  | QueuePosition (id : EntryId)
  | TaskStarted (id : EntryId)
  | TaskCompleted (id : EntryId)
  | TaskFailed (id : EntryId)
  | RuntimeNotice (id : EntryId)
  deriving DecidableEq, Repr

def IncomingEntry.id : IncomingEntry → EntryId
  | HumanMessage id | AgentMail id .. | AgentOutput id | PartialAgentOutput id | RequestAccepted id
  | QueuePosition id | TaskStarted id | TaskCompleted id | TaskFailed id | RuntimeNotice id => id

/-- How a response of a model ends. -/
inductive ResponseEnding where
  | Finished
  | ProviderContinuation
  | Refusal
  | Filtering
  | OutputExhaustion
  deriving DecidableEq, Repr

/-- A call of a tool of the node, with the text of its arguments. -/
structure RuntimeToolCall where
  id : BlockId
  name : ToolName
  arguments : String
  deriving DecidableEq, Repr

structure ModelResponse where
  id : EntryId
  runtimeCalls : List RuntimeToolCall
  ending : ResponseEnding
  deriving DecidableEq, Repr

/-- A block of what a tool answers: its text, the source of its image, or its value. -/
inductive ToolBlock where
  | Text (text : String)
  | Image (source : String)
  | Structured (value : String)
  deriving DecidableEq, Repr

/-- `with_id`: the block under an identity of its own. -/
structure PlainBlock where
  id : BlockId
  block : ToolBlock
  deriving DecidableEq, Repr

structure RuntimeToolResult where
  id : BlockId
  call : BlockId
  name : ToolName
  isError : Bool
  content : List PlainBlock
  deriving DecidableEq, Repr

structure RuntimeToolResults where
  id : EntryId
  results : List RuntimeToolResult
  deriving DecidableEq, Repr

inductive ClosureReason where
  | Completed
  | Interrupted
  | Cancelled
  | Failed (detail : String)
  | BudgetExhausted (detail : Option String)
  deriving DecidableEq, Repr

structure TurnClosure where
  id : EntryId
  reason : ClosureReason
  deriving DecidableEq, Repr

/-- An entry of an AI turn. -/
inductive TurnEntry where
  | ModelResponse (response : ModelResponse)
  | RuntimeToolResults (results : RuntimeToolResults)
  | Incoming (entry : IncomingEntry)
  | TurnClosure (closure : TurnClosure)
  deriving DecidableEq, Repr

def TurnEntry.id : TurnEntry → EntryId
  | ModelResponse response => response.id
  | RuntimeToolResults results => results.id
  | Incoming entry => entry.id
  | TurnClosure closure => closure.id

structure InputTurn where
  id : TurnId
  entries : List IncomingEntry
  deriving DecidableEq, Repr

structure AITurn where
  id : TurnId
  agent : AgentId
  author : Author
  entries : List TurnEntry
  deriving DecidableEq, Repr

namespace AITurn

/-- `AITurn::open`: a turn with no entry yet. -/
def «open» (id : TurnId) (agent : AgentId) (author : Author) : AITurn := ⟨id, agent, author, []⟩

/-- The reason of the closure entry, if the turn has one. -/
def closure (turn : AITurn) : Option ClosureReason :=
  turn.entries.findSome? fun
    | .TurnClosure closure => some closure.reason
    | _ => none

def isClosed (turn : AITurn) : Bool := turn.closure.isSome

def add (turn : AITurn) (entry : TurnEntry) : AITurn :=
  { turn with entries := turn.entries ++ [entry] }

end AITurn

inductive Turn where
  | InputTurn (turn : InputTurn)
  | AITurn (turn : AITurn)
  deriving DecidableEq, Repr

namespace Turn

def id : Turn → TurnId
  | InputTurn turn => turn.id
  | AITurn turn => turn.id

def asAi : Turn → Option Agentic.AITurn
  | InputTurn _ => none
  | AITurn turn => some turn

def entryIds : Turn → List EntryId
  | InputTurn turn => turn.entries.map IncomingEntry.id
  | AITurn turn => turn.entries.map TurnEntry.id

end Turn

/-- The conversation library: the turns of a conversation, and what it takes or refuses. -/
class Conversation (C : Type) where
  turns : C → List Turn
  pushTurn : C → Turn → Except MessageError C
  pushEntry : C → TurnId → TurnEntry → Except MessageError C
  pushTurnEntry : C → AITurn → TurnEntry → Except MessageError AITurn
  newInputTurn : C → TurnId → List IncomingEntry → Except MessageError InputTurn
  tryTurnEntry : C → IncomingEntry → Except MessageError TurnEntry

export Conversation (turns)

/-- What is documented of the library: a turn that is pushed comes last, an entry that is pushed
comes last in the turn of that identity, and a value that is made holds what it is made of. -/
structure Conversation.Lawful (C : Type) [Conversation C] : Prop where
  pushTurn : ∀ (c next : C) turn, Conversation.pushTurn c turn = .ok next →
    turns next = turns c ++ [turn]
  pushEntry : ∀ (c next : C) id entry, Conversation.pushEntry c id entry = .ok next →
    ∃ before turn after, turns c = before ++ .AITurn turn :: after ∧
      (∀ other ∈ before, other.id ≠ id) ∧ turn.id = id ∧
        turns next = before ++ .AITurn (turn.add entry) :: after
  pushTurnEntry : ∀ (c : C) turn entry made, Conversation.pushTurnEntry c turn entry = .ok made →
    made = turn.add entry
  newInputTurn : ∀ (c : C) id entries made, Conversation.newInputTurn c id entries = .ok made →
    made = ⟨id, entries⟩
  tryTurnEntry : ∀ (c : C) entry made, Conversation.tryTurnEntry c entry = .ok made →
    made = .Incoming entry

section Lookup

variable {C : Type} [Conversation C]

/-- `conversation.entry(id).is_ok()`. -/
def holds (c : C) (id : EntryId) : Bool := (turns c).any fun turn => turn.entryIds.contains id

/-- `conversation.turn(id)`. -/
def turnOf (c : C) (id : TurnId) : Option Turn := (turns c).find? (·.id == id)

/-- The entries of a conversation, in order. -/
def entryIds (c : C) : List EntryId := (turns c).flatMap Turn.entryIds

theorem holds_iff {c : C} {id : EntryId} : holds c id = true ↔ id ∈ entryIds c := by
  simp [holds, entryIds]

end Lookup

end LlmGraph.Agentic
