/- digest: The ReAct loop: the checks of its tools at build, the edge after the model call, and the
   model call's updates. -/

import LlmGraph.React.RoundLimit
import LlmGraph.React.ToolNode

set_option autoImplicit false
set_option relaxedAutoImplicit false

namespace LlmGraph.React

open Superstep (State Config Value GraphError Key NodeId Update Limit Target)

variable {C : Type} [Messages C]

/-- Where the call of an agent stands among its turns. -/
inductive Position where
  | Writing (rank : Nat)
  | Answered (rank : Nat)
  deriving DecidableEq, Repr

namespace Position

def rank : Position → Nat
  | Writing rank | Answered rank => rank

/-- The rank, negated when answered. -/
def value : Position → Int
  | Writing rank => rank
  | Answered rank => -rank

def ofInt (value : Int) : Position :=
  if value < 0 then Answered value.natAbs else Writing value.natAbs

end Position

/-- The call of an agent: the keys of its own state, and the ids of its turns, by the trigger and
the rank. -/
structure AgentCall where
  opening : Key
  position : Key
  thread : Option Key
  turns : Option Key
  ids : Option InputId → Nat → TurnId

namespace AgentCall

variable (call : AgentCall)

/-- The last user input of the opening. -/
def trigger (state : State C) : Except (GraphError C) (Option InputId) :=
  match state.conversation call.opening with
  | .error error => .error error
  | .ok opening => .ok ((entries opening).reverse.findSome? fun
      | .UserInput input => some input.id
      | .Turn _ => none)

def turnId (state : State C) (rank : Nat) : Except (GraphError C) TurnId :=
  match call.trigger state with
  | .error error => .error error
  | .ok trigger => .ok (call.ids trigger rank)

def positionOf (state : State C) : Except (GraphError C) Position :=
  match state.int call.position with
  | .error error => .error error
  | .ok value => .ok (.ofInt value)

def moveTo (position : Position) : Update C := .set call.position (.int position.value)

def addTurn (id : TurnId) : Option (Update C) :=
  call.turns.map fun key => .append key (.str id)

end AgentCall

/-- Where the reply of a model call goes: a turn that awaits a step, or a new turn. -/
inductive ReplyTarget where
  | Step (turn : Turn)
  | Open (id : TurnId) (moved : Option Position)
  deriving DecidableEq, Repr

/-- The ReAct loop: the model call with its declared tools, the tool nodes, and where it ends. -/
structure ReactLoop where
  llm : NodeId
  toolNodes : List (NodeId × List ToolName)
  after : Target
  key : Key
  author : Author
  tools : List ToolName
  enabled : Option Key
  toolConcurrency : Option Limit
  roundLimit : Option RoundLimit
  call : AgentCall

/-- A refusal of the loop at build. -/
inductive BuildRefusal where
  | DuplicateToolName (node : NodeId) (name : ToolName)
  | ToolNotDeclared (name : ToolName)
  | ToolNotCovered (name : ToolName)
  | ToolCoveredTwice (name : ToolName)
  deriving DecidableEq, Repr

namespace ReactLoop

variable (loop : ReactLoop)

/-- The names that the tool nodes run, in order. -/
def covered : List ToolName := loop.toolNodes.flatMap Prod.snd

/-- The tool nodes, in registration order. -/
def nodes : List ToolNode :=
  loop.toolNodes.map fun (_, tools) => ⟨loop.key, loop.author, tools, loop.enabled⟩

def firstDuplicate : List ToolName → List ToolName → Option ToolName
  | _, [] => none
  | seen, name :: rest =>
      if seen.contains name then some name else firstDuplicate (name :: seen) rest

/-- Two declared tools with one name make a request that no client accepts. -/
def checkNames : Except BuildRefusal Unit :=
  match firstDuplicate [] loop.tools with
  | some name => .error (.DuplicateToolName loop.llm name)
  | none => .ok ()

/-- Each tool of the tool nodes is declared, and each declared tool is run by one of them. -/
def checkPartition : Except BuildRefusal Unit :=
  match loop.covered.find? fun name => !loop.tools.contains name with
  | some name => .error (.ToolNotDeclared name)
  | none =>
      loop.tools.forM fun name =>
        match loop.covered.count name with
        | 0 => .error (.ToolNotCovered name)
        | 1 => .ok ()
        | _ => .error (.ToolCoveredTwice name)

def check : Except BuildRefusal Unit :=
  match loop.checkNames with
  | .error refusal => .error refusal
  | .ok () => loop.checkPartition

/-- Where the reply goes: in memory, on in the author's last turn while it awaits a step; else on in
the turn of the call's rank while that one does, or into a new turn. -/
def target (state : State C) (conversation : C) : Except (GraphError C) ReplyTarget :=
  let going := (lastTurnByAuthor conversation loop.author).filter fun turn =>
    loop.call.thread.isNone && Messages.state C turn == .AwaitingStep
  match going with
  | some turn => .ok (.Step turn)
  | none =>
      match loop.call.positionOf state with
      | .error error => .error error
      | .ok position =>
          match loop.call.turnId state position.rank with
          | .error error => .error error
          | .ok id =>
              match turnOf conversation id with
              | none => .ok (.Open id none)
              | some turn =>
                  if Messages.state C turn = .AwaitingStep then .ok (.Step turn)
                  else
                    match loop.call.turnId state (position.rank + 1) with
                    | .error error => .error error
                    | .ok next => .ok (.Open next (some (.Writing (position.rank + 1))))

/-- The updates of the model call, on the reply of its client. -/
def reply (state : State C) (step : Step) : Except (GraphError C) (List (Update C)) :=
  match state.conversation loop.key with
  | .error error => .error error
  | .ok conversation =>
      match loop.target state conversation with
      | .error error => .error error
      | .ok (.Step turn) => .ok [.pushStep loop.key turn.id step]
      | .ok (.Open id moved) =>
          .ok (.pushTurn loop.key (Turn.new id (some loop.author) step) ::
            ((loop.call.addTurn id).toList ++ moved.toList.map loop.call.moveTo))

/-- Where the edge after the model call goes. -/
inductive Route where
  | Tools
  | Limit (node : NodeId)
  | After
  deriving DecidableEq, Repr

/-- `llm_edge`: to the tool nodes while the reply calls tools, to the limit node past the last allowed
round, else where the loop ends. -/
def llmEdge (config : Config C) (state : State C) : Except (GraphError C) Route :=
  match state.conversation loop.key with
  | .error error => .error error
  | .ok conversation =>
      match lastTurnState conversation loop.author with
      | some (.AwaitingToolResults _) =>
          let uncovered : Except (GraphError C) Route :=
            match pendingCalls state loop.key loop.author with
            | .error error => .error error
            | .ok calls =>
                match calls.find? fun call => !loop.covered.contains call.name with
                | some call =>
                    .error (.Other
                      s!"pending tool call {call.name} names a tool no tool node runs")
                | none => .ok .Tools
          match loop.roundLimit with
          | none => uncovered
          | some limit =>
              match limit.maxRounds.resolve config with
              | .error error => .error error
              | .ok max =>
                  if max ≤ completedRounds conversation loop.author then
                    (limit.reached loop.llm conversation loop.author max).map .Limit
                  else uncovered
      | _ => .ok .After

/-- The targets that a route stands for. -/
def targetsOf : Route → List Target
  | .Tools => loop.toolNodes.map fun (id, _) => .Node id
  | .Limit node => [.Node node]
  | .After => [loop.after]

/-- The node of the loop's limit, when it has one. -/
def limitNode : Option LimitNode :=
  loop.roundLimit.bind fun limit =>
    match limit.onLimit with
    | .Error => none
    | .Continue _ flag => some ⟨loop.key, loop.author, limit.maxRounds, flag, false⟩
    | .End _ flag => some ⟨loop.key, loop.author, limit.maxRounds, flag, true⟩

end ReactLoop

end LlmGraph.React
