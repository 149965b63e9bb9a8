/- digest: The generator-critic: the turns of its call by kind, the routing that reads them, and the
   nodes that check, judge and finish. -/

import LlmGraph.Agentic.GeneratorCritic
import LlmGraph.React.Loop

set_option autoImplicit false
set_option relaxedAutoImplicit false

namespace LlmGraph.React

open Agentic (isBlank)
open Superstep (State Config Value GraphError Key NodeId Update Limit)

variable {C : Type} [Messages C]

/-- A bound that may be zero: a number, or an int configuration key read at run time. -/
inductive Count where
  | fixed (value : Nat)
  | config (key : Key)
  deriving DecidableEq, Repr

def Count.resolve (config : Config C) : Count → Except (GraphError C) Nat
  | fixed value => .ok value
  | .config key =>
      match config.int key with
      | .error error => .error error
      | .ok value =>
          if 0 ≤ value then .ok value.toNat
          else .error (.Other s!"count key {key} holds {value}, not a count of zero or more")

/-- The counts and limits that an agent reads from its configuration, refused on entry. -/
structure Bounds where
  counts : List Count
  limits : List Limit

def Bounds.check (bounds : Bounds) (config : Config C) : Except (GraphError C) Unit :=
  match bounds.counts.forM fun count => (count.resolve config).map fun _ => () with
  | .error error => .error error
  | .ok () => bounds.limits.forM fun limit => (limit.resolve config).map fun _ => ()

/-- What a turn of the call is: a turn of the generator, or a message of the critic that rejects an
answer, is asked by the rule check or accepts an answer. -/
inductive TurnKind where
  | Generation
  | Critique
  | Revision
  | Acceptance
  deriving DecidableEq, Repr

namespace TurnKind

def ruleCheck : String := "rule_check"

def accepted : String := "accepted"

/-- The stop reason of a message of the critic of this kind. -/
def stopReason : TurnKind → StopReason
  | Generation | Critique => .EndTurn
  | Revision => .Other ruleCheck
  | Acceptance => .Other accepted

end TurnKind

/-- The structured blocks of a step, each by its JSON text. -/
def Step.structured (step : Step) : List String :=
  step.content.filterMap fun
    | .Structured value => some value
    | _ => none

def Step.text (step : Step) : List String :=
  step.content.filterMap fun
    | .Text text => some text
    | _ => none

/-- The text of an answer: that of its structured block, else its text blocks joined. -/
def answerText (step : Step) : String :=
  match step.structured.head? with
  | some value => value
  | none => String.join step.text

/-- The turns of one call, in order, each with its kind. -/
abbrev CallTurns := List (Turn × TurnKind)

namespace CallTurns

variable (turns : CallTurns)

def kinds : List TurnKind := turns.map Prod.snd

def count (kind : TurnKind) : Nat := (turns.filter fun turn => turn.2 == kind).length

/-- The critiques of the call: revisions are not counted. -/
def critiques : Nat := count turns .Critique

/-- The generations of the call, revisions included. -/
def generations : Nat := count turns .Generation

/-- The revisions since the last critique of the call. -/
def revisionsInARow : Nat :=
  ((turns.reverse.takeWhile fun turn => turn.2 != .Critique).filter
    fun turn => turn.2 == .Revision).length

def generationTurns : List Turn := (turns.filter fun turn => turn.2 == .Generation).map Prod.fst

def lastGeneration : Option Turn :=
  (turns.reverse.find? fun turn => turn.2 == .Generation).map Prod.fst

end CallTurns

/-- A generator-critic as its nodes find it. -/
structure Duo where
  call : AgentCall
  conversation : Key
  turns : Key
  generator : Author
  critic : Author
  budget : Count
  finalGeneration : Bool
  revisionLimit : Count
  limitEnds : Bool

/-- Where a call stands for its context. -/
structure SeatCount where
  generation : Nat
  budget : Nat
  critiques : Nat
  finalGeneration : Bool
  deriving DecidableEq, Repr

namespace Duo

variable (duo : Duo)

/-- A turn of the generator is a generation; a turn of the critic is told by the stop reason of its
final step; any other turn is not one of the call's. -/
def kind (turn : Turn) : Option TurnKind :=
  match turn.author with
  | none => none
  | some author =>
      if author = duo.generator then some .Generation
      else if author ≠ duo.critic then none
      else
        match (finalStep turn).map Step.stopReason with
        | some .EndTurn => some .Critique
        | some (.Other reason) =>
            if reason = TurnKind.ruleCheck then some .Revision
            else if reason = TurnKind.accepted then some .Acceptance
            else none
        | _ => none

/-- The turn of the call that a listed value names. -/
def listed (conversation : C) : Value C → Option (Turn × TurnKind)
  | .str id =>
      match turnOf conversation id with
      | none => none
      | some turn => (duo.kind turn).map fun kind => (turn, kind)
  | _ => none

/-- The turns of the call, as its private key lists them, in the conversation. -/
def callTurns (state : State C) : Except (GraphError C) CallTurns :=
  match state.conversation duo.conversation with
  | .error error => .error error
  | .ok conversation =>
      match state.list duo.turns with
      | .error error => .error error
      | .ok items => .ok (items.filterMap (duo.listed conversation))

/-- Whether a turn is a generation that the round limit cut. -/
def cut (turn : Turn) : Bool :=
  duo.limitEnds && turn.author == some duo.generator && cutByLimit turn

/-- Whether a generation is an empty answer: no final step, one with no structured block and no
text that is not blank, or one that the round limit cut. -/
def empty (turn : Turn) : Bool :=
  duo.cut turn || (finalStep turn).all fun step =>
    step.structured.isEmpty && step.text.all isBlank

def count (config : Config C) (turns : CallTurns) (generation : Nat) :
    Except (GraphError C) SeatCount :=
  match duo.budget.resolve config with
  | .error error => .error error
  | .ok budget => .ok ⟨generation, budget, turns.critiques, duo.finalGeneration⟩

end Duo

/-- The rank and the id of the next turn that the call opens: the turn of the call's rank when the
conversation does not hold it yet, else the turn of the next rank. -/
def AgentCall.nextTurn (call : AgentCall) (state : State C) (conversation : C) :
    Except (GraphError C) (Nat × TurnId) :=
  match call.positionOf state with
  | .error error => .error error
  | .ok position =>
      match call.turnId state position.rank with
      | .error error => .error error
      | .ok id =>
          match turnOf conversation id with
          | none => .ok (position.rank, id)
          | some _ => (call.turnId state (position.rank + 1)).map (position.rank + 1, ·)

/-- `record`: a message of the critic as the next turn of the call. -/
def Duo.record (duo : Duo) (state : State C) (kind : TurnKind) (text : String) :
    Except (GraphError C) (List (Update C)) :=
  match state.conversation duo.conversation with
  | .error error => .error error
  | .ok conversation =>
      match duo.call.nextTurn state conversation with
      | .error error => .error error
      | .ok (rank, id) =>
          match Messages.newStep C [.Text text] kind.stopReason with
          | .error error => .error (.Message error)
          | .ok step =>
              .ok [.pushTurn duo.conversation (Turn.new id (some duo.critic) step),
                .append duo.turns (.str id), duo.call.moveTo (.Writing rank)]

/-- Where the routing leads. -/
inductive Router.Next where
  | Generate
  | Check
  | Critique
  | Finish
  deriving DecidableEq, Repr

/-- Where the run goes, read from the turns of the call. -/
structure Router where
  duo : Duo
  bounds : Bounds

namespace Router

variable (router : Router)

/-- A generation that passed the check: to the critic while the critiques are below the budget. -/
def afterPass (turns : CallTurns) (config : Config C) : Except (GraphError C) Next :=
  match router.duo.budget.resolve config with
  | .error error => .error error
  | .ok budget => .ok (if turns.critiques < budget then .Critique else .Finish)

/-- After a critique: the generator answers again while the critiques are below the budget, and once
more at the budget with a final generation. -/
def afterRejection (turns : CallTurns) (config : Config C) : Except (GraphError C) Next :=
  match router.duo.budget.resolve config with
  | .error error => .error error
  | .ok budget =>
      .ok (if turns.critiques < budget ||
          (router.duo.finalGeneration && turns.critiques == budget) then .Generate
        else .Finish)

/-- A revision found on entry is routed as the check routed it; one past the limit read now is not one
the check would record, and the generation before it goes on as if it had passed. -/
def revisionFound (turns : CallTurns) (config : Config C) : Except (GraphError C) Next :=
  match router.duo.revisionLimit.resolve config with
  | .error error => .error error
  | .ok limit =>
      if turns.revisionsInARow - 1 < limit then .ok .Generate
      else router.afterPass turns config

/-- On entry: the check of the bounds, then the last turn of the call. -/
def entry (state : State C) (config : Config C) : Except (GraphError C) Next :=
  match router.bounds.check config with
  | .error error => .error error
  | .ok () =>
      match router.duo.callTurns state with
      | .error error => .error error
      | .ok turns =>
          match turns.getLast?.map Prod.snd with
          | none => .ok .Generate
          | some .Generation => .ok .Check
          | some .Critique => router.afterRejection turns config
          | some .Revision => router.revisionFound turns config
          | some .Acceptance => .ok .Finish

/-- After the check, on what it recorded. -/
def afterCheck (state : State C) (config : Config C) : Except (GraphError C) Next :=
  match router.duo.callTurns state with
  | .error error => .error error
  | .ok turns =>
      match turns.getLast?.map Prod.snd with
      | some .Revision => .ok .Generate
      | some .Critique => router.afterRejection turns config
      | some .Generation => router.afterPass turns config
      | some .Acceptance | none => .ok .Finish

def afterCritique (state : State C) (config : Config C) : Except (GraphError C) Next :=
  match router.duo.callTurns state with
  | .error error => .error error
  | .ok turns =>
      match turns.getLast?.map Prod.snd with
      | some .Critique => router.afterRejection turns config
      | _ => .ok .Finish

end Router

/-- What the rule check gives for a generation: a pass, or a revision with the text that the generator
reads. -/
inductive Ruling where
  | Pass
  | Revise (text : String)
  deriving DecidableEq, Repr

/-- What the rule check and the critique of an empty answer are given. -/
structure CheckFacts (C : Type) where
  conversation : C
  count : SeatCount
  answer : Step

/-- What the caller gave the check, as one run of it finds it: the rule check, when set, and the
critique of an empty answer. -/
structure Checking (C : Type) [Messages C] where
  ruleCheck : Option (CheckFacts C → Except (GraphError C) Ruling)
  emptyAnswerCritique : CheckFacts C → Except (GraphError C) String

def emptyAnswerCritique : String := "The answer was empty. Write a complete answer."

/-- A text, or another where the first is refused. -/
def newTextOr (C : Type) [Messages C] (text fallback : String) : Except (GraphError C) String :=
  match Messages.newText C text with
  | .ok text => .ok text
  | .error _ =>
      match Messages.newText C fallback with
      | .ok text => .ok text
      | .error error => .error (.Message error)

/-- The check judges the last generation of the call before the critic. -/
def Duo.check (duo : Duo) (given : Checking C) (config : Config C) (state : State C) :
    Except (GraphError C) (List (Update C)) :=
  match duo.callTurns state with
  | .error error => .error error
  | .ok turns =>
      match turns.lastGeneration with
      | none => .ok []
      | some judged =>
          match finalStep judged with
          | none => .ok []
          | some answer =>
              match duo.count config turns turns.generations, state.conversation duo.conversation with
              | .error error, _ => .error error
              | _, .error error => .error error
              | .ok count, .ok conversation =>
                  if duo.empty judged then
                    if count.budget ≤ count.critiques then .ok []
                    else
                      match given.emptyAnswerCritique ⟨conversation, count, answer⟩ with
                      | .error error => .error error
                      | .ok text =>
                          match newTextOr C text emptyAnswerCritique with
                          | .error error => .error error
                          | .ok text => duo.record state .Critique text
                  else
                    match given.ruleCheck with
                    | none => .ok []
                    | some ruleCheck =>
                        match ruleCheck ⟨conversation, count, answer⟩ with
                        | .error error => .error error
                        | .ok .Pass => .ok []
                        | .ok (.Revise text) =>
                            match duo.revisionLimit.resolve config with
                            | .error error => .error error
                            | .ok limit =>
                                if turns.revisionsInARow < limit then
                                  duo.record state .Revision text
                                else .ok []

/-- The critic's judgment of one answer. -/
structure Verdict where
  isValid : Bool
  message : String
  deriving DecidableEq, Repr

/-- What reading the critic's step gives, short of a reader's error. -/
inductive Reading where
  | Verdict (verdict : Verdict)
  | Unreadable (reason : String)
  deriving DecidableEq, Repr

def noBlock : String := "the step carries no structured block"

def blankRejection : String := "a rejecting verdict carries a blank message"

/-- How the critic's verdict is read: as the default verdict, whose JSON is parsed, or by a reader of
the caller's. -/
inductive VerdictForm (C : Type) [Messages C] where
  | Default (parse : String → Except String Verdict)
  | Reader (reader : String → Except (GraphError C) Verdict)

namespace VerdictForm

/-- The verdict of a structured block, or why it is unreadable. -/
def verdict (value : String) : VerdictForm C → Except (GraphError C) Reading
  | Default parse =>
      match parse value with
      | .ok verdict => .ok (.Verdict verdict)
      | .error reason => .ok (.Unreadable reason)
  | Reader reader => (reader value).map .Verdict

def read (form : VerdictForm C) (step : Step) : Except (GraphError C) Reading :=
  match step.structured.head? with
  | none => .ok (.Unreadable noBlock)
  | some value =>
      match form.verdict value with
      | .ok (.Verdict verdict) =>
          if !verdict.isValid && isBlank verdict.message then .ok (.Unreadable blankRejection)
          else .ok (.Verdict verdict)
      | other => other

end VerdictForm

def acceptedText : String := "Accepted."

/-- What a call of the critic is given: the attempt, from 1, and why the reply before it was
unreadable. -/
structure CriticFacts (C : Type) where
  conversation : C
  count : SeatCount
  answer : String
  attempt : Nat
  unreadable : String

/-- The calls of the critic: asked again while its verdict cannot be read and attempts are left. -/
def askCritic (form : VerdictForm C) (ask : Nat → String → Except (GraphError C) Step) :
    Nat → Nat → String → Except (GraphError C) Verdict
  | 0, _, unreadable => .error (.Other s!"structured output could not be read: {unreadable}")
  | left + 1, attempt, unreadable =>
      match ask attempt unreadable with
      | .error error => .error error
      | .ok step =>
          match form.read step with
          | .error error => .error error
          | .ok (.Verdict verdict) => .ok verdict
          | .ok (.Unreadable reason) => askCritic form ask left (attempt + 1) reason

/-- The critic's seat: how its verdict is read, and how often it is asked again. -/
structure Critic (C : Type) [Messages C] where
  form : VerdictForm C
  retries : Count

/-- The critic judges the last generation of the call; an acceptance or a critique is recorded. -/
def Duo.critique (duo : Duo) (critic : Critic C) (ask : CriticFacts C → Except (GraphError C) Step)
    (config : Config C) (state : State C) : Except (GraphError C) (List (Update C)) :=
  match duo.callTurns state with
  | .error error => .error error
  | .ok turns =>
      match turns.lastGeneration with
      | none => .ok []
      | some judged =>
          let answer := ((finalStep judged).map answerText).getD ""
          match duo.count config turns turns.generations, state.conversation duo.conversation,
              critic.retries.resolve config with
          | .error error, _, _ => .error error
          | _, .error error, _ => .error error
          | _, _, .error error => .error error
          | .ok count, .ok conversation, .ok retries =>
              let attempts := min (retries + 1) (2 ^ 64 - 1)
              match askCritic critic.form
                  (fun attempt unreadable => ask ⟨conversation, count, answer, attempt, unreadable⟩)
                  attempts 1 "" with
              | .error error => .error error
              | .ok verdict =>
                  if verdict.isValid then
                    match newTextOr C verdict.message acceptedText with
                    | .error error => .error error
                    | .ok text => duo.record state .Acceptance text
                  else
                    match Messages.newText C verdict.message with
                    | .error error => .error (.Message error)
                    | .ok text => duo.record state .Critique text

/-- Whether a limit was reached in a turn; one that fails the run instead never was. -/
def RoundLimit.reachedInTurn (limit : RoundLimit) (turn : Turn) (config : Config C) :
    Except (GraphError C) Bool :=
  match limit.onLimit with
  | .Error => .ok false
  | .Continue _ _ | .End _ _ =>
      match limit.maxRounds.resolve config with
      | .error error => .error error
      | .ok max => .ok (reachedIn turn max)

/-- A count as an integer of 64 bits holds it. -/
def heldInt (count : Nat) : Int :=
  if count ≤ 9223372036854775807 then count else 9223372036854775807

/-- The node that writes the outputs. -/
structure FinishNode where
  duo : Duo
  answer : Key
  validated : Key
  generations : Key
  flag : Option (Key × RoundLimit)

namespace FinishNode

variable (node : FinishNode)

/-- The answer: the last generation's, as the critic sees it, empty when the round limit cut it. -/
def answerOf (turns : CallTurns) : String :=
  match turns.lastGeneration with
  | some turn => if node.duo.cut turn then "" else ((finalStep turn).map answerText).getD ""
  | none => ""

/-- The round limit's flag: set when the limit was reached in a generation of the call. -/
def flagOf (turns : CallTurns) (config : Config C) (state : State C) :
    Except (GraphError C) (List (Update C)) :=
  match node.flag with
  | none => .ok []
  | some (flag, limit) =>
      match state.bool flag with
      | .error error => .error error
      | .ok before =>
          match turns.generationTurns.foldlM
              (fun reached turn => if reached then .ok true else limit.reachedInTurn turn config)
              before with
          | .error error => .error error
          | .ok reached => .ok (if reached then [.set flag (.bool true)] else [])

def run (config : Config C) (state : State C) : Except (GraphError C) (List (Update C)) :=
  match node.duo.callTurns state with
  | .error error => .error error
  | .ok turns =>
      match node.flagOf turns config state with
      | .error error => .error error
      | .ok flag =>
          .ok ([.set node.answer (.str (node.answerOf turns)),
            .set node.validated (.bool (turns.getLast?.map Prod.snd == some .Acceptance)),
            .set node.generations (.int (heldInt turns.generations))] ++ flag)

/-- `finish_edge`: whether the run ends `validated`, else `exhausted`. -/
def edge (state : State C) : Except (GraphError C) Bool := state.bool node.validated

end FinishNode

/-- The turns of the generator and of the critic since the last user input of an opening. -/
def Duo.sinceTrigger (duo : Duo) (opening : C) : List (Value C) :=
  let since := ((entries opening).reverse.takeWhile fun
    | .Turn _ => true
    | .UserInput _ => false).reverse
  since.filterMap fun
    | .Turn turn => if (duo.kind turn).isSome then some (.str turn.id) else none
    | .UserInput _ => none

/-- The `route` node in memory: the conversation starts as the opening, with the turns of the call
that it holds. -/
def Duo.route (duo : Duo) (state : State C) : Except (GraphError C) (List (Update C)) :=
  match state.conversation duo.call.opening with
  | .error error => .error error
  | .ok opening =>
      .ok [.set duo.conversation (.conversation opening),
        .set duo.turns (.list (duo.sinceTrigger opening)), duo.call.moveTo (.Writing 1)]

/-- The generator-critic: its two seats and its bounds. -/
structure GeneratorCritic (C : Type) [Messages C] where
  generator : Author
  tools : List ToolName
  toolNodes : List (NodeId × List ToolName)
  enabled : Option Key
  toolConcurrency : Option Limit
  roundLimit : Option RoundLimit
  critic : Author
  form : VerdictForm C
  verdictRetries : Count
  maxCritiques : Count
  finalGeneration : Bool
  revisionLimit : Count
  durable : Bool
  ids : Option InputId → Nat → TurnId

/-- A refusal of the generator-critic at build. -/
inductive DuoRefusal where
  | SameAuthor (author : Author)
  | KeyCollision (key : Key)
  | FlagKeyMismatch (key : Key)
  | Loop (refusal : BuildRefusal)
  deriving DecidableEq, Repr

/-- The split of the tools between tool nodes: as given, or one node that runs them all. -/
def splitTools (toolNodes : List (NodeId × List ToolName)) (tools : List ToolName) (id : NodeId) :
    List (NodeId × List ToolName) :=
  if toolNodes.isEmpty && !tools.isEmpty then [(id, tools)] else toolNodes

def roundLimitFlag (limit : RoundLimit) : Option Key :=
  match limit.onLimit with
  | .Error => none
  | .Continue _ flag | .End _ flag => some flag

namespace GeneratorCritic

variable (graph : GeneratorCritic C)

def call : AgentCall where
  opening := "opening"
  position := "turn_rank"
  thread := if graph.durable then some "thread" else none
  turns := some "call_turns"
  ids := graph.ids

/-- The loop of the generator, which ends at the check. -/
def loop : ReactLoop where
  llm := "generate"
  toolNodes := splitTools graph.toolNodes graph.tools "tools"
  after := .Node "check"
  key := "conversation"
  author := graph.generator
  tools := graph.tools
  enabled := graph.enabled
  toolConcurrency := graph.toolConcurrency
  roundLimit := graph.roundLimit
  call := graph.call

def duo : Duo where
  call := graph.call
  conversation := "conversation"
  turns := "call_turns"
  generator := graph.generator
  critic := graph.critic
  budget := graph.maxCritiques
  finalGeneration := graph.finalGeneration
  revisionLimit := graph.revisionLimit
  limitEnds := graph.roundLimit.any fun limit =>
    match limit.onLimit with
    | .End _ _ => true
    | _ => false

def router : Router where
  duo := graph.duo
  bounds :=
    ⟨[graph.maxCritiques, graph.revisionLimit, graph.verdictRetries],
      graph.toolConcurrency.toList ++ (graph.roundLimit.map RoundLimit.maxRounds).toList⟩

def criticSeat : Critic C := ⟨graph.form, graph.verdictRetries⟩

def finish : FinishNode where
  duo := graph.duo
  answer := "answer"
  validated := "is_validated"
  generations := "nb_generations"
  flag := graph.roundLimit.bind fun limit => (roundLimitFlag limit).map fun flag => (flag, limit)

/-- The refusals of a round limit's flag: the names that no flag may take, and the keys of the graph
that do not hold a bool. -/
def checkFlag : Except DuoRefusal Unit :=
  match graph.roundLimit.bind roundLimitFlag with
  | none => .ok ()
  | some flag =>
      if flag ∈ ["is_validated", "opening", "thread", "conversation"] then .error (.KeyCollision flag)
      else if flag ∈ ["answer", "nb_generations", "turn_rank", "call_turns"] then
        .error (.FlagKeyMismatch flag)
      else .ok ()

def check : Except DuoRefusal Unit :=
  if graph.generator = graph.critic then .error (.SameAuthor graph.generator)
  else
    match graph.checkFlag with
    | .error refusal => .error refusal
    | .ok () =>
        match graph.loop.check with
        | .error refusal => .error (.Loop refusal)
        | .ok () => .ok ()

end GeneratorCritic

end LlmGraph.React
