/- digest: The generator-critic: passes of the generator, the programmatic check and the critic that
   judge what it generates, and the counters that decide when it is over. -/

import LlmGraph.Agentic.Worker

set_option autoImplicit false
set_option relaxedAutoImplicit false

namespace LlmGraph.Agentic

open Lib (Act)

inductive StepLimitEnding where
  | WithoutCriticCall
  | WithCriticCall
  deriving DecidableEq, Repr

inductive RoundLimitEnding where
  | FinalGeneration
  | KeepRejectedGeneration
  | Fail
  deriving DecidableEq, Repr

inductive Judgement where
  | Validated
  | Rejected
  | NotJudged
  deriving DecidableEq, Repr

inductive ProgrammaticVerdict where
  | Accept
  | Refuse (reason : String)
  deriving DecidableEq, Repr

inductive CriticRequestSource where
  | Fixed (text : String)
  | Port
  deriving DecidableEq, Repr

structure GcSpec where
  generator : Ladder
  critic : Ladder
  roundLimit : RoundLimit
  criticRequest : CriticRequestSource
  stepEnding : StepLimitEnding
  roundEnding : RoundLimitEnding
  programmatic : Option ProgrammaticRefusalLimit

def CRITIC_LABEL : String := "critic"

def PROGRAMMATIC_CRITIC_LABEL : String := "programmatic_critic"

structure Seat where
  label : String
  agent : AgentId
  author : Author
  system : Option String

abbrev Seats := List Seat

def Seats.get (seats : Seats) (label : String) : Except String Seat :=
  match seats.find? (·.label == label) with
  | some seat => .ok seat
  | none => .error ("the node has no agent " ++ label)

structure Answer where
  validated : Bool
  message : String
  deriving DecidableEq, Repr

/-- The structured value of an answer of the critic. -/
structure Wire where
  isValidated : Bool
  message : Option String

/-- A response of the critic, as far as its answer depends on it: the structured block may be missing,
or not be such a value. -/
structure CriticReply where
  ending : ResponseEnding
  thinking : Bool
  structured : Option (Except String Wire)

structure GeneratorCriticOutcome where
  response : ModelResponse
  judgement : Judgement
  iterations : Nat
  stepLimitReached : Bool
  deriving DecidableEq, Repr

/-- What the surroundings of a generator-critic answer besides; `text` is what the message library says
of a text. -/
structure CriticEnv where
  request : Nat → ModelResponse → Except PortError String
  text : String → Except String Unit
  blockId : Nat → Except String Unit
  critic : Nat → ModelClient → Option (Except String CriticReply)
  check : Nat → ModelResponse → Nat → Except PortError ProgrammaticVerdict
  outcome : Nat → GeneratorCriticOutcome → Except PortError Unit
  save : Nat → Except PortError Unit

/-- `char::is_whitespace`. -/
def isWhitespace (char : Char) : Bool :=
  let code := char.toNat
  (9 ≤ code && code ≤ 13) || code = 32 || code = 0x85 || code = 0xA0 || code = 0x1680 ||
    (0x2000 ≤ code && code ≤ 0x200A) || code = 0x2028 || code = 0x2029 || code = 0x202F ||
    code = 0x205F || code = 0x3000

/-- `trim().is_empty()`. -/
def isBlank (text : String) : Bool := text.toList.all isWhitespace

def unwrapAnswer (text : String → Except String Unit) (blockId : Except String Unit)
    (reply : CriticReply) : Except String Answer := do
  if reply.ending = .Refusal || reply.ending = .Filtering || reply.ending = .OutputExhaustion then
    .error "the response ends with a refusal, a filter or an exhaustion"
  match reply.structured with
  | none => .error "the response holds no structured answer"
  | some structured => do
      let wire ← structured
      if wire.isValidated then return ⟨true, wire.message.getD ""⟩
      match wire.message with
      | none => .error "the critic does not validate and gives no message"
      | some message => do
          blockId
          (text message).mapError fun _ =>
            "the critic does not validate and gives a blank message"
          return ⟨false, message⟩

structure Finish where
  response : ModelResponse
  judgement : Judgement
  stepLimitReached : Bool
  deriving DecidableEq, Repr

inductive Next where
  | Pass
  | End (finish : Finish)
  deriving DecidableEq, Repr

structure Loop where
  iterations : Nat
  drainFirst : Bool
  lastScheduled : Bool
  isLast : Bool
  position : Nat
  keepPosition : Option Nat
  deriving DecidableEq, Repr

def Loop.start (rounds : Nat) : Loop := ⟨0, false, false, false, rounds, none⟩

namespace Worker

section Critic

variable {C : Type} [Conversation C] (env : Env) (critics : CriticEnv)

/-- A port that is asked, which an interruption may forestall. -/
def port {α : Type} (answer : Nat → Except PortError α) : Doing C α := do
  await env
  Act.ofExcept (fun error => .Fault (.Port error)) (← ask answer)

/-- What an attempt makes of the answer of the critic; no answer is a timeout. -/
def criticChecked (worker : Worker C) (client : ModelClient) (blockId : Except String Unit) :
    Option (Except String CriticReply) → Except CallFailure Answer
  | none => .error (.Timeout worker.modelTimeout)
  | some (.error error) => .error (.Client error)
  | some (.ok reply) =>
      if client.shouldHaveThought && !reply.thinking then .error .NoThinking
      else (unwrapAnswer critics.text blockId reply).mapError .UnusableAnswer

def criticAttempt (client : ModelClient) : Doing C (Except CallFailure Answer) := do
  value (← ask env.content)
  let _ ← turnId env
  let _ ← entryId env
  value (← ask env.request)
  await env
  let moment := (← worker).moment
  let called ← ask fun moment => critics.critic moment client
  emit [.CriticAsked client moment]
  let blockId ← ask critics.blockId
  return criticChecked critics (← worker) client blockId called

def callCritic (seat : Seat) (list : FallbackList) (state : Loop) : Doing C Answer := do
  match seat.system with
  | none => fault (.Value "the critic has no system prompt")
  | some _ => do
      value (← ask env.content)
      emit [.CriticCalled (← worker).counters.rounds state.position state.isLast]
      let (answer, _) ← drive (.new list) (criticAttempt env critics)
      return answer

def storeMessage (agent : AgentId) (author : Author) : Doing C Unit := do
  let turn ← turnId env
  value (← ask env.content)
  let entry ← entryId env
  value (← ask env.content)
  completeResponse env ⟨turn, agent, author⟩ ⟨entry, [], .Finished⟩
  closeTurn env ⟨turn, agent, author⟩ .Completed

end Critic

section Judge

variable {C : Type} [Conversation C] (env : Env) (critics : CriticEnv) (spec : GcSpec)
  (seats : Seats)

def criticRequest (response : ModelResponse) : Doing C String :=
  match spec.criticRequest with
  | .Fixed text => return text
  | .Port => port env fun moment => critics.request moment response

/-- `ask`: the answer of the critic, which the world sees. -/
def askCritic (response : ModelResponse) (state : Loop) : Doing C Answer := do
  let request ← criticRequest env critics spec response
  value (critics.text request)
  let seat ← value (seats.get CRITIC_LABEL)
  let answer ← callCritic env critics seat (spec.critic.entry state.position) state
  emit [if answer.validated then .Validated response else .Rejected response]
  return answer

def programmatic (response : ModelResponse) (state : Loop) : Doing C (Bool × Loop) := do
  match spec.programmatic with
  | none => return (true, state)
  | some refusalLimit => do
      let before ← worker
      match ← port env fun moment => critics.check moment response before.counters.refusals with
      | .Accept => do
          Act.modify fun worker =>
            { worker with counters := { worker.counters with refusals := 0 } }
          emit [.Accepted]
          return (true, state)
      | .Refuse reason => do
          if isBlank reason then fault .BlankExplicitReason
          let seat ← value (seats.get PROGRAMMATIC_CRITIC_LABEL)
          storeMessage env seat.agent seat.author
          Act.modify fun worker =>
            { worker with
              counters := { worker.counters with
                refusals := saturatingSucc worker.counters.refusals } }
          let refused ← worker
          emit [.Refused refused.counters.refusals]
          if refused.counters.refusals ≥ refusalLimit.get || refused.steps.remaining = 0 then
            fault (.ProgrammaticRefusal reason)
          return (false, { state with keepPosition := some state.position, drainFirst := true })

def validated (state : Loop) (finish : Next) : Doing C (Next × Loop) := do
  let before ← worker
  if before.hasInbox && before.steps.remaining > 0 then
    let drained ← drain env
    if drained.stored > 0 then
      return (.Pass,
        { state with drainFirst := false, lastScheduled := false, keepPosition := none })
  return (finish, state)

def rejected (answer : Answer) (state : Loop) (finish : Next) : Doing C (Next × Loop) := do
  Act.modify fun worker =>
    { worker with
      counters := { worker.counters with rounds := saturatingSucc worker.counters.rounds } }
  let counted ← worker
  let atLimit : Bool := counted.counters.rounds ≥ spec.roundLimit.get
  if atLimit && spec.roundEnding = .Fail then fault (.CriticAtRoundLimit answer.message)
  let seat ← value (seats.get CRITIC_LABEL)
  storeMessage env seat.agent seat.author
  let continues : Bool := (← worker).steps.remaining > 0
  if atLimit then
    if spec.roundEnding = .FinalGeneration && continues then
      return (.Pass, { state with lastScheduled := true, drainFirst := true })
    return (finish, state)
  if !continues then return (finish, state)
  return (.Pass, { state with lastScheduled := false, drainFirst := true })

def judge (ended : PassEnd) (state : Loop) : Doing C (Next × Loop) := do
  let reached := ended.stepLimitReached
  let response := ended.intoResponse
  let finish (judgement : Judgement) : Next := .End ⟨response, judgement, reached⟩
  if reached then
    if state.isLast || spec.stepEnding = .WithoutCriticCall then
      return (finish .NotJudged, state)
    let answer ← askCritic env critics spec seats response state
    if answer.validated then return (finish .Validated, state)
    else fault (.CriticAtStepLimit answer.message)
  else
    let (accepted, state) ← programmatic env critics spec seats response state
    if !accepted then return (.Pass, state)
    if state.isLast then return (finish .NotJudged, state)
    let answer ← askCritic env critics spec seats response state
    if answer.validated then validated env state (finish .Validated)
    else rejected env spec seats answer state (finish .Rejected)

def drainIfFirst (state : Loop) : Doing C Drained :=
  if state.drainFirst then drain env else return .default

/-- The start of a pass: the draining before it, and what it makes of the loop. -/
def beginPass (state : Loop) : Doing C Loop := do
  let before ← worker
  let drained ← drainIfFirst env state
  let state := { state with drainFirst := false }
  let ready :=
    if drained.requestStored then { state with lastScheduled := false, keepPosition := none }
    else state
  let rounds := (← worker).counters.rounds
  let position := ready.keepPosition.getD rounds
  emit [.PassStarted
    { before := before.counters.rounds
      rounds := rounds
      scheduled := state.lastScheduled
      requestStored := drained.requestStored
      position := position
      isLast := ready.lastScheduled }]
  return { ready with
    position := position
    isLast := ready.lastScheduled
    keepPosition := none
    iterations := ready.iterations + 1 }

/-- The pass that is judged next: the one that the thread already holds, or a new one. -/
def generate (ended : Option PassEnd) (state : Loop) : Doing C (PassEnd × Loop) :=
  match ended with
  | some ended => return (ended, state)
  | none => do
      let state ← beginPass env state
      let (ended, _) ← pass env (.new (spec.generator.entry state.position))
      return (ended, state)

/-- The loop of `execute`. -/
def executeFrom : Nat → Option PassEnd → Loop → Doing C (Finish × Loop)
  | 0, _, _ => Act.spent
  | bound + 1, ended, state => do
      let (ended, state) ← generate env spec ended state
      let (next, state) ← judge env critics spec seats ended state
      match next with
      | .Pass => executeFrom bound none state
      | .End finish => return (finish, state)

/-- `execute`: each pass takes a step, so the loop goes round no more often than steps remain, and once
for the pass that the thread already holds. -/
def execute : Doing C GeneratorCriticOutcome := do
  let before ← worker
  let (finish, state) ← executeFrom env critics spec seats (before.steps.remaining + 2)
    (restored env before) (.start before.counters.rounds)
  let outcome : GeneratorCriticOutcome :=
    ⟨finish.response, finish.judgement, state.iterations, finish.stepLimitReached⟩
  port env fun moment => critics.outcome moment outcome
  port env critics.save
  return outcome

end Judge

end Worker

end LlmGraph.Agentic
