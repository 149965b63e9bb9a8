/- digest: The run loop: a superstep from where the run stands to what it leads to, the checkpoint of
   every exit, and whole runs from the entry or from a cursor. -/

import Mathlib.Logic.Relation
import LlmGraph.Superstep.Drive

set_option autoImplicit false
set_option relaxedAutoImplicit false

namespace LlmGraph.Superstep

variable {C : Type} [Conversation C]

/-- Where a run stands, to resume it. -/
structure Checkpoint (C : Type) [Conversation C] where
  state : State C
  cursor : Cursor
  pending : PendingWrites C

/-- How a run ends: `Outcome`, or `RunFailure` with its error. -/
inductive Outcome (C : Type) [Conversation C] where
  | Finished (state : State C) (ending : EndLabel)
  | Paused (checkpoint : Checkpoint C)
  | Cancelled (checkpoint : Checkpoint C)
  | Failed (error : GraphError C) (checkpoint : Checkpoint C)

/-- The loop variables of a run, with its recorder. -/
structure Standing (C : Type) [Conversation C] where
  state : State C
  active : List NodeId
  deferred : List NodeId
  store : PendingWrites C

/-- What is not the run's own in a superstep: the events while it runs, the commands left in the
channel when it is done, and the moment at which its edges are evaluated. -/
structure Schedule (C : Type) [Conversation C] where
  now : Nat
  events : List (Event C)
  drained : List (Command C)

inductive StepEnd (C : Type) [Conversation C] where
  | ends (outcome : Outcome C)
  | goes (next : Standing C)

/-- A superstep that has come to its end: how it was driven, the results and what was settled
where it came that far, and what the run does next. -/
structure Stepped (C : Type) [Conversation C] where
  driven : Driving C
  results : Option (Results C)
  settled : Option (Settled C)
  ending : StepEnd C

/-- `drain_after_step`: the commands left in the channel, up to a cancel. -/
def drainAfterStep : Driving C → List (Command C) → Driving C × Bool
  | driving, [] => (driving, false)
  | driving, .cancel :: _ => (driving, true)
  | driving, command :: rest => drainAfterStep (driving.take command) rest

def inputUpdates (held : List (Key × Conversation.UserInput C)) : List (Update C) :=
  held.map fun (key, input) => .input key input

/-- The state with the held inputs, when it takes them; unchanged otherwise. -/
def withInputs (state : State C) (inputs : List (Update C)) : State C :=
  if inputs.isEmpty then state
  else match state.applyBatch inputs with
    | .ok next => next
    | .error _ => state

section Exits

variable [DecidableEq C] (graph : Graph C) (ctx : Context) (store : PendingWrites C)
  (state : State C)

/-- The checkpoint of a run standing at a cursor, with the pending entries of the run. -/
def checkpoint (cursor : Cursor) : Checkpoint C :=
  ⟨graph.leavePrivate state, graph.checkpointCursor cursor, ctx.pendingHere store⟩

def fail (active deferred : List NodeId) (error : GraphError C) : Outcome C :=
  .Failed error (checkpoint graph ctx store state ⟨active, deferred⟩)

def cancelled (inputs : List (Update C)) (active deferred : List NodeId) : Outcome C :=
  match state.applyBatch inputs with
  | .error error => fail graph ctx store state active deferred error
  | .ok state => .Cancelled (checkpoint graph ctx store state ⟨active, deferred⟩)

end Exits

section Loop

variable [DecidableEq C] (graph : Graph C) (config : Config C) (ctx : Context)

/-- What a settled superstep leads to: the end, a pause, or the next superstep. -/
def proceed (pause : Bool) (settled : Settled C) (store : PendingWrites C) : StepEnd C :=
  match settled.ending with
  | some label => .ends (.Finished (graph.leavePrivate settled.state) label)
  | none =>
      if pause then
        .ends (.Paused (checkpoint graph ctx store settled.state ⟨settled.active, settled.deferred⟩))
      else .goes ⟨settled.state, settled.active, settled.deferred, store⟩

/-- One round of the loop of `run_nested`. -/
def superstep (here : Standing C) (schedule : Schedule C) : Option (Stepped C) :=
  match driveSuperstep graph config here.state ctx here.active here.store schedule.events with
  | none => none
  | some (driven, .cancelled) =>
      some ⟨driven, none, none, .ends (cancelled graph ctx driven.store here.state
        (inputUpdates driven.held) here.active here.deferred)⟩
  | some (driven, .done results) =>
      match drainAfterStep driven schedule.drained with
      | (driven, true) =>
          some ⟨driven, none, none, .ends (cancelled graph ctx driven.store here.state
            (inputUpdates driven.held) here.active here.deferred)⟩
      | (driven, false) =>
          match settle graph schedule.now config here.state results (inputUpdates driven.held)
              here.active here.deferred ctx driven.store with
          | (.error error, store) =>
              some ⟨driven, some results, none, .ends (fail graph ctx store
                (withInputs here.state (inputUpdates driven.held)) here.active here.deferred error)⟩
          | (.ok settled, store) =>
              some ⟨driven, some results, some settled,
                proceed graph ctx driven.pause settled (ctx.dropPending store here.active)⟩

def StepEnd.next? : StepEnd C → Option (Standing C)
  | .ends _ => none
  | .goes next => some next

/-- Where the run stands after a superstep, when it goes on. -/
def after (here : Standing C) (schedule : Schedule C) : Option (Standing C) :=
  (superstep graph config ctx here schedule).bind fun stepped => stepped.ending.next?

/-- A superstep after which the run goes on. -/
def Goes (here next : Standing C) : Prop :=
  ∃ schedule stepped, superstep graph config ctx here schedule = some stepped ∧
    stepped.ending = .goes next

/-- The loop of `run_nested`, over a schedule for each superstep. -/
def runLoop : Standing C → List (Schedule C) → Option (Outcome C)
  | _, [] => none
  | here, schedule :: rest =>
      match superstep graph config ctx here schedule with
      | none => none
      | some stepped =>
          match stepped.ending with
          | .ends outcome => if rest.isEmpty then some outcome else none
          | .goes next => runLoop next rest

/-- The supersteps that a run takes, each with where the run stands before it. -/
def supersteps : Standing C → List (Schedule C) → List (Standing C × Schedule C)
  | _, [] => []
  | here, schedule :: rest =>
      (here, schedule) ::
        match superstep graph config ctx here schedule with
        | some ⟨_, _, _, .goes next⟩ => supersteps next rest
        | _ => []

/-- The head of `run_nested`: a cursor names nodes of the graph, and some. -/
def enter (store : PendingWrites C) (state : State C) (cursor : Option Cursor) :
    Except (Outcome C) (Standing C) :=
  let cursor := cursor.getD ⟨[graph.entry], []⟩
  if cursor.isEmpty then .error (fail graph ctx store state [] [] .EmptyCursor)
  else
    match graph.validateCursor cursor with
    | .error error => .error (fail graph ctx store state cursor.active cursor.deferred error)
    | .ok () => .ok ⟨graph.enterPrivate state, cursor.active, cursor.deferred, store⟩

/-- The context that a run works in, and its recorder: a graph with private keys records nothing
and reuses nothing. -/
def runContext (occurrence : OccurrenceKey) : Context := ⟨occurrence, !graph.hasPrivate⟩

def runStore (pending : PendingWrites C) : PendingWrites C :=
  if graph.hasPrivate then PendingWrites.empty else pending

/-- The head of `run`: the state and the configuration are the graph's. -/
def launch (occurrence : OccurrenceKey) (pending : PendingWrites C) (state : State C)
    (cursor : Option Cursor) : Except (Outcome C) (Standing C) :=
  let ctx := runContext graph occurrence
  let store := runStore graph pending
  match graph.checkSchemas state config with
  | .error error =>
      let cursor := cursor.getD ⟨[], []⟩
      .error (fail graph ctx store state cursor.active cursor.deferred error)
  | .ok () => enter graph ctx store state cursor

/-- `run` in a context of the given occurrence and pending writes. -/
def run (occurrence : OccurrenceKey) (pending : PendingWrites C) (state : State C)
    (cursor : Option Cursor) (plan : List (Schedule C)) : Option (Outcome C) :=
  match launch graph config occurrence pending state cursor with
  | .error outcome => if plan.isEmpty then some outcome else none
  | .ok here => runLoop graph config (runContext graph occurrence) here plan

end Loop

section Lemmas

variable [DecidableEq C] {graph : Graph C} {config : Config C} {ctx : Context}
  {here next : Standing C} {schedule : Schedule C} {stepped : Stepped C}

/-- Every way through a superstep: it is cancelled while it runs or right after it, what it did is
refused, or it is settled. -/
theorem superstep_cases (htaken : superstep graph config ctx here schedule = some stepped) :
    (stepped.results = none ∧ stepped.settled = none ∧
      stepped.ending = .ends (cancelled graph ctx stepped.driven.store here.state
        (inputUpdates stepped.driven.held) here.active here.deferred)) ∨
    (∃ results error store, stepped.results = some results ∧ stepped.settled = none ∧
      settle graph schedule.now config here.state results (inputUpdates stepped.driven.held)
        here.active here.deferred ctx stepped.driven.store = (.error error, store) ∧
      stepped.ending = .ends (fail graph ctx store
        (withInputs here.state (inputUpdates stepped.driven.held)) here.active here.deferred
        error)) ∨
    (∃ results settled store, stepped.results = some results ∧ stepped.settled = some settled ∧
      settle graph schedule.now config here.state results (inputUpdates stepped.driven.held)
        here.active here.deferred ctx stepped.driven.store = (.ok settled, store) ∧
      stepped.ending = proceed graph ctx stepped.driven.pause settled
        (ctx.dropPending store here.active)) := by
  unfold superstep at htaken
  split at htaken
  · cases htaken
  · cases htaken
    exact Or.inl ⟨rfl, rfl, rfl⟩
  · split at htaken
    · cases htaken
      exact Or.inl ⟨rfl, rfl, rfl⟩
    · split at htaken
      · rename_i hsettled
        cases htaken
        exact Or.inr (Or.inl ⟨_, _, _, rfl, rfl, hsettled, rfl⟩)
      · rename_i hsettled
        cases htaken
        exact Or.inr (Or.inr ⟨_, _, _, rfl, rfl, hsettled, rfl⟩)

theorem after_eq_some (hgoes : after graph config ctx here schedule = some next) :
    Goes graph config ctx here next := by
  obtain ⟨stepped, htaken, hfound⟩ := Option.bind_eq_some_iff.mp hgoes
  refine ⟨schedule, stepped, htaken, ?_⟩
  rcases hending : stepped.ending with outcome | other
  · rw [hending] at hfound
    cases hfound
  · rw [hending] at hfound
    cases hfound
    rfl

omit [DecidableEq C] in
/-- The commands left after a superstep leave its nodes as they are. -/
theorem drained_same (driving : Driving C) (commands : List (Command C)) :
    (drainAfterStep driving commands).1.tasks = driving.tasks ∧
      (drainAfterStep driving commands).1.store = driving.store ∧
      (drainAfterStep driving commands).1.notes = driving.notes := by
  induction commands generalizing driving with
  | nil => exact ⟨rfl, rfl, rfl⟩
  | cons command rest hstep =>
      rcases command with ⟨key, input⟩ | _ | _ | _
      · exact hstep _
      · exact hstep _
      · exact hstep _
      · exact ⟨rfl, rfl, rfl⟩

/-- A superstep was driven by its events and then drained. -/
theorem superstep_driven (htaken : superstep graph config ctx here schedule = some stepped) :
    ∃ driven result,
      driveSuperstep graph config here.state ctx here.active here.store schedule.events =
        some (driven, result) ∧
      (result = .cancelled ∧ stepped.driven = driven ∧ stepped.results = none ∨
        ∃ results, result = .done results ∧
          stepped.driven = (drainAfterStep driven schedule.drained).1 ∧
          ∀ held, stepped.results = some held → held = results) := by
  unfold superstep at htaken
  split at htaken
  · cases htaken
  · rename_i driven hdrove
    cases htaken
    exact ⟨driven, .cancelled, hdrove, Or.inl ⟨rfl, rfl, rfl⟩⟩
  · rename_i driven results hdrove
    refine ⟨driven, .done results, hdrove, Or.inr ⟨results, rfl, ?_⟩⟩
    split at htaken
    · rename_i hdrained
      cases htaken
      rw [hdrained]
      exact ⟨rfl, by simp⟩
    · rename_i hdrained
      split at htaken
      · cases htaken
        rw [hdrained]
        exact ⟨rfl, by simp⟩
      · cases htaken
        rw [hdrained]
        exact ⟨rfl, by simp⟩

end Lemmas

end LlmGraph.Superstep
