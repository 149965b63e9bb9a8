/- digest: The worker of an agentic node: a step of the model with its attempts, a round of tools, the
   draining of the queue, and the pass that takes steps until a final response or the step limit. -/

import Mathlib.Algebra.Group.Nat.Defs
import Mathlib.Data.PNat.Defs
import LlmGraph.Agentic.Slot

set_option autoImplicit false
set_option relaxedAutoImplicit false

namespace LlmGraph.Agentic

open Lib (Act)

/-- A positive number of a `u32`, as each of the limits is one. -/
structure Limit where
  get : Nat
  positive : 0 < get
  fits : get < 2 ^ 32

abbrev StepLimit := Limit
abbrev RoundLimit := Limit
abbrev ProgrammaticRefusalLimit := Limit

/-- `saturating_add(1)`, of a `u32`. -/
def saturatingSucc (count : Nat) : Nat := min (count + 1) (2 ^ 32 - 1)

structure Steps where
  made : Nat
  limit : StepLimit

namespace Steps

def new (limit : StepLimit) : Steps := ⟨0, limit⟩

def count (steps : Steps) : Steps := { steps with made := saturatingSucc steps.made }

def remaining (steps : Steps) : Nat := steps.limit.get - steps.made

end Steps

structure Counters where
  rounds : Nat
  refusals : Nat
  deriving DecidableEq, Repr

def Counters.zero : Counters := ⟨0, 0⟩

/-- What a client answers: its response, and whether blocks of it hold thinking or structure. -/
structure Reply where
  response : ModelResponse
  thinking : Bool
  structured : Bool

/-- The state of an AI turn, as far as a boundary depends on it. -/
structure TurnState where
  outstandingRuntimeCalls : List BlockId
  pendingProviderExecutions : List BlockId
  lastEnding : Option ResponseEnding

structure ToolContent where
  content : List ToolBlock
  isError : Bool
  deriving DecidableEq, Repr

namespace ToolContent

def errorText (text : String) : ToolContent := ⟨[.Text text], true⟩

/-- `into_result`: the identities of the blocks are taken from the end. -/
def intoResult (content : ToolContent) (id call : BlockId) (name : ToolName) (ids : List BlockId) :
    RuntimeToolResult :=
  ⟨id, call, name, content.isError, List.zipWith PlainBlock.mk ids.reverse content.content⟩

end ToolContent

/-- What a tool call comes to. -/
inductive ToolEnd where
  | TimedOut
  | Faulted (cause : String)
  | Panicked (text : String)
  | Answered (content : ToolContent)
  deriving DecidableEq, Repr

/-- A tool, with what a call of it comes to at a moment, by the arguments of the call. -/
structure Tool where
  name : ToolName
  code : Nat → String → ToolEnd

/-- The tools of a node: no two of one name. -/
structure ToolSet where
  tools : List Tool
  distinct : (tools.map Tool.name).Nodup

def ToolSet.find (set : ToolSet) (name : ToolName) : Option Tool := set.tools.find? (·.name == name)

inductive Interruption where
  | Cancelled
  | Panic (text : String)
  deriving DecidableEq, Repr

def Interruption.stop : Interruption → Stop
  | Cancelled => .Cancelled
  | Panic text => .Fault (.Panic text)

/-- What the surroundings of an instance answer, each answer by the moment it is asked for.  An
interruption drops the work at an await: the token of the instance is triggered, or a panic unwinds.
`part` is what an interrupted boundary has come to of the queue, and `detailTaken` whether the library
takes the detail of a failure. -/
structure Env where
  ports : Ports MailItem
  interrupt : Nat → Option Interruption
  triggered : Nat → Bool
  entryId : Nat → Except String EntryId
  turnId : Nat → Except String TurnId
  noTurn : TurnId → String
  turnState : AITurn → TurnState
  notice : Nat → String → Except String Unit
  request : Nat → Except String Unit
  openAnswer : Nat → Option PortError
  discardAnswer : Nat → Option PortError
  client : Nat → ModelClient → EntryId → Option (Except String Reply)
  blockId : Nat → Except String BlockId
  content : Nat → Except String Unit
  joined : Nat → Nat
  finished : Nat → Option (List InboxItem)
  part : Nat → List InboxItem → List InboxItem
  detailTaken : String → Bool

/-- Surroundings in which nothing fails: an identity is the moment it is asked for, and the clients
answer as they are given. -/
def Env.calm (client : Nat → ModelClient → EntryId → Option (Except String Reply)) : Env where
  ports := ⟨fun _ => none, fun _ => none, fun _ mail => .ok (.RuntimeNotice mail.id)⟩
  interrupt _ := none
  triggered _ := false
  entryId moment := .ok moment
  turnId moment := .ok moment
  noTurn _ := "no such turn"
  turnState _ := ⟨[], [], none⟩
  notice _ _ := .ok ()
  request _ := .ok ()
  openAnswer _ := none
  discardAnswer _ := none
  client := client
  blockId moment := .ok moment
  content _ := .ok ()
  joined _ := 0
  finished _ := none
  part _ items := items
  detailTaken detail := detail ≠ ""

/-- The start of a pass of a generator: the rounds before and after the draining at its start, whether
the last generation was scheduled, and what the pass is. -/
structure PassStart where
  before : Nat
  rounds : Nat
  scheduled : Bool
  requestStored : Bool
  position : Nat
  isLast : Bool
  deriving DecidableEq, Repr

/-- What the world sees of an instance, in the order in which it happens. -/
inductive Effect where
  | Opened (entry : EntryId)
  | Called (client : ModelClient)
  | Discarded (entry : EntryId)
  | DiscardFailed (entry : EntryId)
  | Completed (entry : EntryId)
  | Stepped (response : ModelResponse)
  | ToolStarted (call : BlockId)
  | RequestStored
  | PassEntered (remaining : Nat)
  | PassStarted (start : PassStart)
  | Accepted
  | Refused (refusals : Nat)
  | CriticCalled (rounds position : Nat) (isLast : Bool)
  | CriticAsked (client : ModelClient) (moment : Nat)
  | Validated (response : ModelResponse)
  | Rejected (response : ModelResponse)
  deriving DecidableEq, Repr

structure Worker (C : Type) where
  session : Session C
  host : Host C
  hasInbox : Bool
  agent : AgentId
  agents : List AgentId
  author : Option Author
  shaped : Bool
  tools : ToolSet
  modelTimeout : Duration
  toolTimeout : Duration
  queue : Queue
  reading : Bool
  steps : Steps
  counters : Counters
  moment : Nat
  log : List Effect

/-- What a worker does: it ends with a value, or stops. -/
abbrev Doing (C α : Type) := Act (Worker C) Stop α

structure Drained where
  stored : Nat
  requestStored : Bool
  deriving DecidableEq, Repr

def Drained.default : Drained := ⟨0, false⟩

inductive PassEnd where
  | Final (response : ModelResponse)
  | StepLimit (response : ModelResponse)
  deriving DecidableEq, Repr

namespace PassEnd

def intoResponse : PassEnd → ModelResponse
  | Final response | StepLimit response => response

def stepLimitReached : PassEnd → Bool
  | Final _ => false
  | StepLimit _ => true

end PassEnd

def warningWindow : Nat := 10

def warningText : Nat → Option String
  | 0 => none
  | 1 => some "You have one step left. Give your final answer now and ask for no tool call."
  | left =>
      if left ≤ warningWindow then
        some ("You have " ++ toString left ++ " steps left to finish. Finish your work and give " ++
          "your final answer before the steps run out.")
      else none

def exempt (response : ModelResponse) : Bool :=
  response.runtimeCalls.isEmpty &&
    (response.ending = .Refusal || response.ending = .Filtering ||
      response.ending = .OutputExhaustion)

def atBoundary (state : TurnState) : Bool :=
  state.outstandingRuntimeCalls.isEmpty && state.pendingProviderExecutions.isEmpty &&
    state.lastEnding ≠ some .ProviderContinuation

def isFinal (response : ModelResponse) (state : TurnState) : Bool :=
  response.runtimeCalls.isEmpty && atBoundary state

def checkThinking (client : ModelClient) (reply : Reply) : Except CallFailure Unit :=
  if client.shouldHaveThought && !reply.thinking then .error .NoThinking else .ok ()

def checkStructure (reply : Reply) : Except CallFailure Unit :=
  if reply.structured then .ok () else .error .NoStructuredReply

def isRequest : InboxItem → Bool
  | .Mail _ => true
  | .Entry entry => match entry.entry with
      | .HumanMessage _ => true
      | _ => false

namespace Worker

section Calls

variable {C α : Type} (env : Env)

def worker : Doing C (Worker C) := Act.get

def emit (effects : List Effect) : Doing C Unit :=
  Act.modify fun worker => { worker with log := worker.log ++ effects }

/-- What the surroundings answer at this moment. -/
def ask (answer : Nat → α) : Doing C α := fun worker =>
  (.done (answer worker.moment), { worker with moment := worker.moment + 1 })

def fault (fault : Fault) : Doing C α := Act.stop (.Fault fault)

/-- `.map_err(Fault::value)?`. -/
def value : Except String α → Doing C α := Act.ofExcept fun text => .Fault (.Value text)

/-- An await, which an interruption may end. -/
def await : Doing C Unit := do
  match ← ask env.interrupt with
  | none => return ()
  | some interruption => Act.stop interruption.stop

def entryId : Doing C EntryId := do value (← ask env.entryId)

def turnId : Doing C TurnId := do value (← ask env.turnId)

end Calls

section Objects

variable {C : Type} [Conversation C] (env : Env)

def setSession (session : Session C) : Doing C Unit :=
  Act.modify fun worker => { worker with session }

/-- The copy takes an addition before the thread access answers. -/
def setCopy (conversation : C) (host : Host C) : Doing C Unit :=
  Act.modify fun worker => { worker with session := { worker.session with conversation }, host }

def sessionResult : Except SessionError Unit → Doing C Unit :=
  Act.ofExcept fun error => .Fault (.Session error)

def openResponse (entry : EntryId) : Doing C Unit := do
  await env
  match ← ask env.openAnswer with
  | some error => fault (.Session (.Port error))
  | none => do
      Act.modify fun worker => { worker with session := worker.session.openResponse entry }
      emit [.Opened entry]

def discardResponse (entry : EntryId) : Doing C Unit := do
  Act.modify fun worker => { worker with session := worker.session.discardResponse entry }
  emit [.Discarded entry]
  await env
  match ← ask env.discardAnswer with
  | some error => do
      emit [.DiscardFailed entry]
      fault (.Port error)
  | none => return ()

/-- How a completion of a response ends its object. -/
def completion (worker : Worker C) (entry : EntryId) : Except SessionError Unit → List Effect
  | .ok () => [.Completed entry]
  | .error (.Port _) => []
  | .error _ => if entry ∈ worker.session.responses then [.Discarded entry] else []

def completeResponse (turn : AiTurnRef) (response : ModelResponse) : Doing C Unit := do
  let before ← worker
  let (outcome, session, host) :=
    before.session.completeResponse env.ports before.host turn response
  setCopy session.conversation host
  await env
  setSession session
  emit (before.completion response.id outcome)
  sessionResult outcome

def openResult (entry : EntryId) : Doing C Unit := do
  await env
  match ← ask env.openAnswer with
  | some error => fault (.Session (.Port error))
  | none => Act.modify fun worker => { worker with session := worker.session.openResult entry }

def completeResult (turn : AiTurnRef) (results : RuntimeToolResults) : Doing C Unit := do
  let before ← worker
  let (outcome, session, host) := before.session.completeResult env.ports before.host turn results
  setCopy session.conversation host
  await env
  setSession session
  sessionResult outcome

def closeTurn (turn : AiTurnRef) (reason : ClosureReason) : Doing C Unit := do
  let entry ← entryId env
  let before ← worker
  let (outcome, session, host) :=
    before.session.closeTurn env.ports before.host turn ⟨entry, reason⟩
  setCopy session.conversation host
  await env
  sessionResult outcome

def turnRef (turn : TurnId) : Doing C AiTurnRef := do
  let before ← worker
  match before.author with
  | none => fault (.Value "the worker has no author name")
  | some author => return ⟨turn, before.agent, author⟩

def aiTurn (turn : TurnId) : Doing C AITurn := do
  let before ← worker
  match turnOf before.session.conversation turn with
  | none => fault (.Value (env.noTurn turn))
  | some (.InputTurn _) => fault (.Value "the turn of the pass is not an AI turn")
  | some (.AITurn ai) => return ai

def turnState (turn : TurnId) : Doing C TurnState := do
  let ai ← aiTurn env turn
  return env.turnState ai

end Objects

section Step

variable {C : Type} [Conversation C] (env : Env)

/-- `ends`: the response would be a final response once added to the turn of the step. -/
def ends (conversation : C) (turn : AiTurnRef) (response : ModelResponse) : Bool :=
  if !response.runtimeCalls.isEmpty then false
  else
    let current := ((turnOf conversation turn.id).bind Turn.asAi).getD
      (.open turn.id turn.agent turn.author)
    match Conversation.pushTurnEntry conversation current (.ModelResponse response) with
    | .ok turn => atBoundary (env.turnState turn)
    | .error _ => false

/-- What an attempt makes of the answer of its client; no answer is a timeout. -/
def checked (worker : Worker C) (turn : AiTurnRef) (covered : Bool) (client : ModelClient) :
    Option (Except String Reply) → Except CallFailure ModelResponse
  | none => .error (.Timeout worker.modelTimeout)
  | some (.error error) => .error (.Client error)
  | some (.ok reply) => do
      let response := reply.response
      if covered && !exempt response then checkThinking client reply
      if worker.shaped && !exempt response && ends env worker.session.conversation turn response then
        checkStructure reply
      return response

/-- An attempt: the response that was opened for it is discarded when it fails. -/
def attempt (turn : AiTurnRef) (covered : Bool) (client : ModelClient) :
    Doing C (Except CallFailure ModelResponse) := do
  let entry ← entryId env
  value (← ask env.request)
  openResponse env entry
  emit [.Called client]
  await env
  let called ← ask fun moment => env.client moment client entry
  match checked env (← worker) turn covered client called with
  | .ok response => return .ok response
  | .error failure => do
      discardResponse env entry
      return .error failure

/-- The warning is shown to the model as a notice in the open turn of the projected history. -/
def notice (turn : Option TurnId) (warning : Option String) : Doing C Unit :=
  match warning, turn with
  | some text, some _ => do
      let _ ← entryId env
      value (← ask fun moment => env.notice moment text)
  | _, _ => return ()

/-- `step`: the response, with the slot and the turn as they are then. -/
def step (slot : Slot) (turn : Option TurnId) (warning : Option String) :
    Doing C (ModelResponse × Slot × TurnId) := do
  let id ← turn.elim (turnId env) pure
  notice env turn warning
  let target ← turnRef id
  let (response, slot) ← drive slot (attempt env target !slot.isSettled)
  completeResponse env target response
  Act.modify fun worker => { worker with steps := worker.steps.count }
  emit [.Stepped response]
  return (response, slot, id)

end Step

section Tools

def sendMail : ToolName := "send_mail"

/-- The text of a result for a tool that the node does not hold. -/
def notHeldText (name : ToolName) : String := "the node holds no tool named " ++ name

def timeoutText (name : ToolName) (timeout : Duration) : String :=
  "the call to the tool " ++ name ++ " exceeded its timeout of " ++ timeout.text ++
    if name = sendMail then "; it is not known whether the mail was sent" else ""

/-- A call that is answered with no tool. -/
structure Immediate where
  entry : EntryId
  call : BlockId
  name : ToolName
  content : ToolContent

/-- A call that runs, with what it comes to. -/
structure Finished where
  entry : EntryId
  call : BlockId
  name : ToolName
  timeout : Duration
  ended : ToolEnd

variable {C : Type} [Conversation C] (env : Env)

def openResults : List RuntimeToolCall → Doing C (List (RuntimeToolCall × EntryId))
  | [] => return []
  | call :: rest => do
      let entry ← entryId env
      openResult env entry
      return (call, entry) :: (← openResults rest)

/-- `start_call` of each call: the answers that are there at once, and the calls that run. -/
def startCalls : List (RuntimeToolCall × EntryId) → Doing C (List Immediate × List Finished)
  | [] => return ([], [])
  | (call, entry) :: rest => do
      match (← worker).tools.find call.name with
      | none => do
          value (← ask env.content)
          let (immediate, running) ← startCalls rest
          return (⟨entry, call.id, call.name, .errorText (notHeldText call.name)⟩ :: immediate,
            running)
      | some tool => do
          let timeout := (← worker).toolTimeout
          let ended ← ask fun moment => tool.code moment call.arguments
          emit [.ToolStarted call.id]
          let (immediate, running) ← startCalls rest
          return (immediate, ⟨entry, call.id, call.name, timeout, ended⟩ :: running)

def blockId : Doing C BlockId := do value (← ask env.blockId)

def blockIds : Nat → Doing C (List BlockId)
  | 0 => return []
  | more + 1 => do
      let id ← blockId env
      return id :: (← blockIds more)

def completeCall (target : AiTurnRef) (entry : EntryId) (call : BlockId) (name : ToolName)
    (content : ToolContent) : Doing C Unit := do
  let ids ← blockIds env content.content.length
  let result := content.intoResult (← blockId env) call name ids
  value (← ask env.content)
  if ids.length < content.content.length then
    fault (.Value "a tool result needed more block identities than it holds blocks")
  value (← ask env.content)
  completeResult env target ⟨entry, [result]⟩

def completeCalls (target : AiTurnRef) : List Immediate → Doing C Unit
  | [] => return ()
  | answer :: rest => do
      completeCall env target answer.entry answer.call answer.name answer.content
      completeCalls target rest

/-- A call that has ended is not looked at in an instance that is cancelled. -/
def unlessTriggered : Doing C Unit := do
  if ← ask env.triggered then Act.stop .Cancelled

/-- What becomes of a call that has ended. -/
def joined (target : AiTurnRef) (finished : Finished) : Doing C Unit := do
  match finished.ended with
  | .Panicked text => fault (.Panic text)
  | .Faulted cause => do
      unlessTriggered env
      fault (.Tool cause)
  | .TimedOut => do
      unlessTriggered env
      value (← ask env.content)
      completeCall env target finished.entry finished.call finished.name
        (.errorText (timeoutText finished.name finished.timeout))
  | .Answered content => do
      unlessTriggered env
      completeCall env target finished.entry finished.call finished.name content

/-- The calls that run are joined in the order in which they end. -/
def joinNext (target : AiTurnRef) : Nat → List Finished → Doing C Unit
  | 0, _ => return ()
  | more + 1, running => do
      await env
      let place := (← ask env.joined) % running.length
      match running[place]? with
      | none => return ()
      | some finished => do
          joined env target finished
          joinNext target more (running.eraseIdx place)

def toolRound (turn : TurnId) (response : ModelResponse) : Doing C Unit := do
  let target ← turnRef turn
  let opened ← openResults env response.runtimeCalls
  let (immediate, running) ← startCalls env opened
  completeCalls env target immediate
  joinNext env target running.length running

end Tools

section Drain

variable {C : Type} [Conversation C] (env : Env)

/-- `refresh_read`: the items of a read that is finished are pushed, and the next read begins. -/
def refreshRead : Doing C Unit := do
  let before ← worker
  if before.reading then
    match ← ask env.finished with
    | none => return ()
    | some items => Act.modify fun worker => { worker with queue := worker.queue.pushAll items }
  else Act.modify fun worker => { worker with reading := true }

/-- `store_at_boundary`, on the queue of the worker; an interruption leaves the part it has come to,
and the rest of the queue, which was taken, is gone. -/
def storeAtBoundary (turn : TurnId) : Doing C Boundary := do
  let before ← worker
  let store (queue : Queue) :=
    Agentic.storeAtBoundary env.ports before.session before.host before.agent queue turn
  match ← ask env.interrupt with
  | some interruption => do
      let part ← ask fun moment => env.part moment before.queue
      let (_, session, host, _) := store part
      Act.modify fun worker => { worker with session, host, queue := [] }
      Act.stop interruption.stop
  | none => do
      let (outcome, session, host, queue) := store before.queue
      Act.modify fun worker => { worker with session, host, queue }
      Act.ofExcept (fun error => .Fault (.Boundary error)) outcome

def drain : Doing C Drained := do
  let before ← worker
  if !before.hasInbox then return .default
  refreshRead env
  let queued := (← worker).queue
  if queued.isEmpty then return .default
  let requests := (queued.filter isRequest).map InboxItem.id
  let boundary ← storeAtBoundary env (← turnId env)
  let requestStored := boundary.stored.any (requests.contains ·)
  if requestStored then
    Act.modify fun worker => { worker with counters := .zero }
    emit [.RequestStored]
  return ⟨boundary.stored.length, requestStored⟩

end Drain

section Pass

variable {C : Type} [Conversation C] (env : Env)

/-- `restored`: the end of the last AI turn of the thread, when it is one of the agent. -/
def restored (worker : Worker C) : Option PassEnd := do
  let last ← (turns worker.session.conversation).getLast?.bind Turn.asAi
  if last.agent ≠ worker.agent then none
  else
    let response ← last.entries.reverse.findSome? fun
      | .ModelResponse response => some response
      | _ => none
    match last.closure with
    | some (.BudgetExhausted _) => some (.StepLimit response)
    | _ => if isFinal response (env.turnState last) then some (.Final response) else none

/-- The loop of `pass`, with the turn that is open and whether the next step is warned. -/
def passFrom : Nat → Slot → Option TurnId → Bool → Doing C (PassEnd × Slot)
  | 0, _, _, _ => Act.spent
  | bound + 1, slot, turn, warn => do
      let before ← worker
      let warning := if warn then warningText before.steps.remaining else none
      let (response, slot, opened) ← step env slot turn warning
      let target ← turnRef opened
      let state ← turnState env opened
      if isFinal response state then
        closeTurn env target .Completed
        return (.Final response, slot)
      else if (← worker).steps.remaining = 0 then
        closeTurn env target (.BudgetExhausted (some "the step limit was reached"))
        return (.StepLimit response, slot)
      else if response.runtimeCalls.isEmpty then passFrom bound slot (some opened) false
      else
        toolRound env opened response
        if atBoundary (← turnState env opened) then
          let _ ← drain env
        passFrom bound slot (some opened) true

/-- `pass`: the loop takes a step each time, so it goes round no more often than steps remain. -/
def pass (slot : Slot) : Doing C (PassEnd × Slot) := do
  let remaining := (← worker).steps.remaining
  emit [.PassEntered remaining]
  passFrom env (remaining + 1) slot none false

end Pass

end Worker

end LlmGraph.Agentic
