/- digest: Durable agents: how one enters its thread and finds the turns of its call, and what its nodes
   write to the thread before they give back their updates. -/

import LlmGraph.React.Duo
import LlmGraph.React.LoopRuns
import LlmGraph.React.ThreadStore

set_option autoImplicit false
set_option relaxedAutoImplicit false

namespace LlmGraph.React

open Lib (Act)
open Superstep (State Config Value GraphError Key NodeId Update Limit)

variable {C σ : Type} [Messages C]

def Entry.input? : Entry → Option React.UserInput
  | UserInput input => some input
  | Turn _ => none

/-- The user inputs of a durable agent's opening, ending with its trigger: an opening that holds none, or
anything else, is refused. -/
def openingInputs (opening : C) : Except (GraphError C) (List UserInput) :=
  match (entries opening).mapM Entry.input? with
  | some (first :: rest) => .ok (first :: rest)
  | _ => .error
      (.Other "the opening of a durable agent must hold user inputs, and only user inputs")

/-- What an agent asks its host for a thread with. -/
structure Asking where
  origin : Origin
  threadId : Option InputId → ThreadId

/-- What a durable agent finds on entry: its thread, the conversation, and the turns of the call that the
thread holds, rank after rank. -/
structure Entered (C : Type) where
  thread : ThreadId
  conversation : C
  turns : List (Nat × TurnId × MessageStatus)

namespace Entered

/-- The last of the turns of the call, by its rank and its status. -/
def last (entered : Entered C) : Option (Nat × MessageStatus) :=
  entered.turns.getLast?.map fun (rank, _, status) => (rank, status)

/-- Where the call goes on: it is answered by a completed turn, and else writes the next one. -/
def position (entered : Entered C) : Position :=
  match entered.last with
  | none => .Writing 1
  | some (rank, .Completed) => .Answered rank
  | some (rank, _) => .Writing (rank + 1)

end Entered

/-- The turns of the call that a thread shows, from a rank on, until one is missing; none where the bound
of the loop is spent first. -/
def heldTurns (view : ThreadView C) (ids : Nat → TurnId) :
    Nat → Nat → Option (List (Nat × TurnId × MessageStatus))
  | 0, _ => none
  | bound + 1, rank =>
      match view.message (ids rank) with
      | none => some []
      | some message =>
          (heldTurns view ids bound (rank + 1)).map ((rank, ids rank, message.status) :: ·)

section Entering

variable (store : ThreadStore C σ) (thread : ThreadId)

/-- The thread, refused when the store does not hold it. -/
def readThread : Act (Desk σ) (Halt C) (ThreadView C) := do
  match ← ask (store.read thread) with
  | some view => pure view
  | none => Act.stop (.Failed (.Other s!"thread {thread.text} is not in the thread store"))

/-- Each input that the thread does not hold under its id is stored. -/
def storeInputs (view : ThreadView C) : List UserInput → C → Act (Desk σ) (Halt C) C
  | [], conversation => pure conversation
  | input :: rest, conversation =>
      if (view.message input.id).isSome then storeInputs view rest conversation
      else do
        ask (store.write thread (.storeInput input))
        let grown ← Act.ofExcept (fun error => .Failed (.Message error))
          (Messages.pushInput conversation input)
        storeInputs view rest grown

/-- The last turn of the call, found open, is failed, and the thread is read again. -/
def failOpen (conversation : C) (turns : List (Nat × TurnId × MessageStatus)) :
    Act (Desk σ) (Halt C) (Entered C) :=
  match turns.getLast? with
  | some (rank, id, .Streaming) => do
      ask (store.write thread (.endTurn id .Failed))
      let view ← readThread store thread
      let status := ((view.message id).map ThreadMessage.status).getD .Failed
      pure ⟨thread, view.conversation, turns.dropLast ++ [(rank, id, status)]⟩
  | _ => pure ⟨thread, conversation, turns⟩

end Entering

/-- The thread that is given or, where none is, one that the store creates under an id of its own. -/
def findThread (store : ThreadStore C σ) (asking : Asking) (trigger : Option InputId) (given : String) :
    Act (Desk σ) (Halt C) ThreadId :=
  if given.isEmpty then do
    ask (store.write (asking.threadId trigger) (.create asking.origin))
    pure (asking.threadId trigger)
  else known (ThreadId.new given)

/-- The entry into a thread, for the call that answers the last of some inputs. -/
def enterThread (store : ThreadStore C σ) (asking : Asking) (ids : Option InputId → Nat → TurnId)
    (given : String) (inputs : List UserInput) : Act (Desk σ) (Halt C) (Entered C) := do
  let trigger := inputs.getLast?.map UserInput.id
  let thread ← findThread store asking trigger given
  let view ← readThread store thread
  let conversation ← storeInputs store thread view inputs view.conversation
  match heldTurns view (ids trigger) (view.messages.length + 1) 1 with
  | none => Act.spent
  | some turns => failOpen store thread conversation turns

/-- The node that enters: in memory the conversation starts as the opening, durable it is the thread's. -/
structure EnterNode where
  conversation : Key
  call : AgentCall

namespace EnterNode

variable (node : EnterNode)

def run (store : ThreadStore C σ) (asking : Asking) (state : State C) :
    Act (Desk σ) (Halt C) (List (Update C)) := do
  let opening ← known (state.conversation node.call.opening)
  match node.call.thread with
  | none =>
      pure [.set node.conversation (.conversation opening), node.call.moveTo (.Writing 1)]
  | some key => do
      let inputs ← known (openingInputs opening)
      let given ← known (state.str key)
      let entered ← enterThread store asking node.call.ids given inputs
      pure [.set node.conversation (.conversation entered.conversation),
        node.call.moveTo entered.position, .set key (.str entered.thread.text)]

/-- `enter_edge`: the bounds are checked, then a call that is answered goes to its answer. -/
def edge (bounds : Bounds) (config : Config C) (state : State C) : Except (GraphError C) Spot :=
  match bounds.check config with
  | .error error => .error error
  | .ok () =>
      match node.call.positionOf state with
      | .error error => .error error
      | .ok (.Answered _) => .ok .after
      | .ok (.Writing _) => .ok .llm

end EnterNode

/-- The thread that a durable agent works in, as its entry wrote it. -/
def threadOf (key : Key) (state : State C) : Except (GraphError C) ThreadId :=
  match state.str key with
  | .error error => .error error
  | .ok text => ThreadId.new text

/-- One call of a client: the events that it streams and the reply that it gives, or its error. -/
structure ModelCall where
  events : List StreamEvent
  reply : Except String Step

def ModelCall.step (C : Type) [Messages C] (call : ModelCall) : Except (GraphError C) Step :=
  match call.reply with
  | .error error => .error (.Other s!"model call failed: {error}")
  | .ok step => .ok step

def ReplyTarget.turnId : ReplyTarget → TurnId
  | Step turn => turn.id
  | Open id _ => id

def ReplyTarget.opens : ReplyTarget → Bool
  | Step _ => false
  | Open _ _ => true

namespace ReactLoop

variable (loop : ReactLoop)

/-- What the model call writes: a new turn is opened, the events are pushed, and a reply that awaits no
tool result completes the turn. -/
def streamReply (writer : TurnWriter C σ) (opens : Bool) (call : ModelCall) :
    Act (Desk σ) (Halt C) Step := do
  if opens then writer.openTurn loop.author
  writer.pushEvents call.events
  let step ← known (call.step C)
  if step.stopReason ≠ .AwaitingToolResults then writer.endTurn .Completed
  pure step

/-- The model call: what is written comes first, then the updates. -/
def callModel (store : ThreadStore C σ) (call : ModelCall) (state : State C) :
    Act (Desk σ) (Halt C) (List (Update C)) := do
  let conversation ← known (state.conversation loop.key)
  let target ← known (loop.target state conversation)
  match loop.call.thread with
  | none => do
      let step ← known (call.step C)
      known (loop.reply state step)
  | some key => do
      let thread ← known (threadOf key state)
      let step ← loop.streamReply ⟨store, thread, target.turnId⟩ target.opens call
      known (loop.reply state step)

/-- What the tool nodes of a round write, once all of them are done: their results as one item, in node
order, nothing without a result. -/
def writeRound (store : ThreadStore C σ) (state : State C) (turn : Turn) (results : List ToolResult) :
    Act (Desk σ) (Halt C) Unit :=
  match loop.call.thread with
  | none => pure ()
  | some key => do
      let thread ← known (threadOf key state)
      let writer : TurnWriter C σ := ⟨store, thread, turn.id⟩
      if results.isEmpty then pure () else writer.pushResults turn.items.length results

end ReactLoop

namespace LimitNode

variable (node : LimitNode)

/-- What a limit node that closes the turn writes last. -/
def writeClosing (writer : TurnWriter C σ) : Option String → Act (Desk σ) (Halt C) Unit
  | none => pure ()
  | some text => do
      writer.pushTextStep text (.Other limitReached)
      writer.endTurn .Completed

/-- What the limit node writes: its refusals as one item and, where it closes the turn, the closing step
with the end of the turn. -/
def writes (writer : TurnWriter C σ) (index : Nat) (results : List ToolResult)
    (closing : Option String) : Act (Desk σ) (Halt C) Unit := do
  if !results.isEmpty then writer.pushResults index results
  writeClosing writer closing

/-- The limit node of an agent, durable with a thread key: what is written comes first, then the
updates. -/
def refuse (store : ThreadStore C σ) (thread : Option Key) (config : Config C) (state : State C) :
    Act (Desk σ) (Halt C) (List (Update C)) := do
  let max ← known (node.maxRounds.resolve config)
  let conversation ← known (state.conversation node.key)
  match lastTurnByAuthor conversation node.author with
  | none => pure []
  | some turn => do
      let text ← Act.ofExcept (fun error => .Failed (.Message error))
        (Messages.newText C (refusal max))
      let calls ← known (pendingCalls state node.key node.author)
      let closing ← Act.ofExcept (fun error => .Failed (.Message error))
        (if node.ends then (Messages.newText C (closing max)).map some else .ok none)
      match thread with
      | none => pure ()
      | some key => do
          let id ← known (threadOf key state)
          writes ⟨store, id, turn.id⟩ turn.items.length (calls.map (answer text)) closing
      known (node.run config state)

end LimitNode

/-- The node that answers: the text of the final step of the call's turn, and the flag of the round limit
for a call that was answered on entry. -/
structure AnswerNode where
  conversation : Key
  answer : Key
  author : Author
  call : AgentCall
  flag : Option (Key × RoundLimit)

namespace AnswerNode

variable (node : AnswerNode)

/-- The turn that answers: the one of the rank for a call answered on entry, else the agent's last. -/
def answering (state : State C) (conversation : C) : Position → Except (GraphError C) (Option Turn)
  | .Answered rank =>
      match node.call.turnId state rank with
      | .error error => .error error
      | .ok id => .ok (turnOf conversation id)
  | .Writing _ => .ok (lastTurnByAuthor conversation node.author)

/-- The text of the answer, empty without a final step. -/
def answerOf (turn : Option Turn) : String := ((turn.bind finalStep).map answerText).getD ""

/-- The flag of the round limit: a call answered on entry sets it as the run did that wrote the turn. -/
def flagOf (config : Config C) : Position → Option Turn → Except (GraphError C) (List (Update C))
  | .Answered _, some turn =>
      match node.flag with
      | none => .ok []
      | some (flag, limit) =>
          match limit.reachedInTurn turn config with
          | .error error => .error error
          | .ok reached => .ok (if reached then [.set flag (.bool true)] else [])
  | _, _ => .ok []

def run (config : Config C) (state : State C) : Except (GraphError C) (List (Update C)) :=
  match state.conversation node.conversation with
  | .error error => .error error
  | .ok conversation =>
      match node.call.positionOf state with
      | .error error => .error error
      | .ok position =>
          match node.answering state conversation position with
          | .error error => .error error
          | .ok turn =>
              match node.flagOf config position turn with
              | .error error => .error error
              | .ok flag => .ok (.set node.answer (.str (answerOf turn)) :: flag)

end AnswerNode

/-- A ReAct agent: its tools and its bounds, and where its ids come from. -/
structure ReactAgent where
  author : Author
  tools : List ToolName
  toolNodes : List (NodeId × List ToolName)
  toolConcurrency : Option Limit
  roundLimit : Option RoundLimit
  enabled : Option Key
  durable : Bool
  ids : Option InputId → Nat → TurnId
  asking : Asking

namespace ReactAgent

variable (agent : ReactAgent)

def call : AgentCall where
  opening := "opening"
  position := "turn_rank"
  thread := if agent.durable then some "thread" else none
  turns := none
  ids := agent.ids

def loop : ReactLoop where
  llm := "llm"
  toolNodes := splitTools agent.toolNodes agent.tools "tools"
  after := .Node "answer"
  key := "conversation"
  author := agent.author
  tools := agent.tools
  enabled := agent.enabled
  toolConcurrency := agent.toolConcurrency
  roundLimit := agent.roundLimit
  call := agent.call

def bounds : Bounds :=
  ⟨[], agent.toolConcurrency.toList ++ (agent.roundLimit.map RoundLimit.maxRounds).toList⟩

def enter : EnterNode := ⟨"conversation", agent.call⟩

def answer : AnswerNode where
  conversation := "conversation"
  answer := "answer"
  author := agent.author
  call := agent.call
  flag := agent.roundLimit.bind fun limit => (roundLimitFlag limit).map fun flag => (flag, limit)

/-- The refusals of a build: a flag that names a key of the graph's own, then those of the loop. -/
def check : Except DuoRefusal Unit :=
  match agent.roundLimit.bind roundLimitFlag with
  | some flag =>
      if flag ∈ ["answer", "opening", "thread", "conversation", "turn_rank"] then
        .error (.FlagKeyMismatch flag)
      else loopCheck
  | none => loopCheck
where
  /-- The refusals of the loop. -/
  loopCheck : Except DuoRefusal Unit :=
    match agent.loop.check with
    | .error refusal => .error (.Loop refusal)
    | .ok () => .ok ()

end ReactAgent

end LlmGraph.React
