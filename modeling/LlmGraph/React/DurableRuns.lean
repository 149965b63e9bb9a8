/- digest: Runs of a durable agent over the store of its host, cut anywhere: what a node writes to the
   thread comes before its updates, so that each superstep is one of the agent in memory. -/

import LlmGraph.React.Durable

set_option autoImplicit false
set_option relaxedAutoImplicit false

namespace LlmGraph.React

open Lib (Act Ended)
open Lib.Act (Holds)
open Superstep (State Config Value GraphError Key NodeId Update Limit)

variable {C σ : Type} [Messages C]

namespace ReactLoop

/-- The state keys of the agent that its tools leave alone. -/
def kept (loop : ReactLoop) : List Key := loop.call.thread.toList ++ loop.own

/-- One superstep of a loop with the desk that its node writes at, where the model calls are those of some
clients: the node gives its updates once it has written, or the run ends with what the node has written. -/
inductive Written (loop : ReactLoop) (store : ThreadStore C σ) (clients : ModelCall → Prop)
    (config : Config C) : Standing C → Desk σ → Option (Standing C) → Desk σ → Prop
  | replies {state next : State C} {call : ModelCall} {updates : List (Update C)} {route : Route}
      {desk after : Desk σ} (hclient : clients call)
      (hwrote : loop.callModel store call state desk = (.done updates, after))
      (happlied : state.applyBatch updates = .ok next) (hgoes : loop.llmEdge config next = .ok route) :
      Written loop store clients config ⟨.llm, state⟩ desk (some ⟨route.spot, next⟩) after
  | unreplied {state : State C} {call : ModelCall} {ended : Ended (Halt C) (List (Update C))}
      {desk after : Desk σ} (hclient : clients call)
      (hwrote : loop.callModel store call state desk = (ended, after)) :
      Written loop store clients config ⟨.llm, state⟩ desk none after
  | answers {state next : State C} {c : C} {turn : Turn}
      {given : List (List (ToolResult × List (Update C)))} {desk after : Desk σ}
      (hconversation : state.conversation loop.key = .ok c)
      (hlast : lastTurnByAuthor c loop.author = some turn)
      (hgives : loop.Gives (turn.pending C) loop.kept given)
      (hwrote : loop.writeRound store state turn (resultsOf given) desk = (.done (), after))
      (happlied : (loop.batches turn.id given).foldlM State.applyBatch state = .ok next) :
      Written loop store clients config ⟨.tools, state⟩ desk (some ⟨.llm, next⟩) after
  | unanswered {state : State C} {c : C} {turn : Turn}
      {given : List (List (ToolResult × List (Update C)))} {ended : Ended (Halt C) Unit}
      {desk after : Desk σ} (hconversation : state.conversation loop.key = .ok c)
      (hlast : lastTurnByAuthor c loop.author = some turn)
      (hgives : loop.Gives (turn.pending C) loop.kept given)
      (hwrote : loop.writeRound store state turn (resultsOf given) desk = (ended, after)) :
      Written loop store clients config ⟨.tools, state⟩ desk none after
  | limits {state next : State C} {node : LimitNode} {updates : List (Update C)} {desk after : Desk σ}
      (hlimit : loop.limitNode = some node)
      (hwrote : node.refuse store loop.call.thread config state desk = (.done updates, after))
      (happlied : state.applyBatch updates = .ok next) :
      Written loop store clients config ⟨.limit, state⟩ desk
        (some ⟨if node.ends then .after else .llm, next⟩) after
  | unlimited {state : State C} {node : LimitNode} {ended : Ended (Halt C) (List (Update C))}
      {desk after : Desk σ} (hlimit : loop.limitNode = some node)
      (hwrote : node.refuse store loop.call.thread config state desk = (ended, after)) :
      Written loop store clients config ⟨.limit, state⟩ desk none after

theorem known_done {α : Type} {result : Except (GraphError C) α} {value : α} {desk after : Desk σ}
    (hdone : (known result : Act (Desk σ) (Halt C) α) desk = (.done value, after)) :
    result = .ok value := by
  cases result with
  | error error => cases hdone
  | ok found =>
    cases hdone
    rfl

variable {loop : ReactLoop} {store : ThreadStore C σ} {clients : ModelCall → Prop} {config : Config C}
  {state : State C}

/-- The updates of a model call are those of a reply. -/
theorem callModel_reply {call : ModelCall} {updates : List (Update C)} {desk after : Desk σ}
    (hdone : loop.callModel store call state desk = (.done updates, after)) :
    ∃ step, loop.reply state step = .ok updates := by
  unfold callModel at hdone
  obtain ⟨c, _, hconversation, hdone⟩ := Act.bind_done hdone
  obtain ⟨target, _, htarget, hdone⟩ := Act.bind_done hdone
  cases hthread : loop.call.thread with
  | none =>
    rw [hthread] at hdone
    obtain ⟨step, _, -, hdone⟩ := Act.bind_done hdone
    exact ⟨step, known_done hdone⟩
  | some key =>
    rw [hthread] at hdone
    obtain ⟨thread, _, -, hdone⟩ := Act.bind_done hdone
    obtain ⟨step, _, -, hdone⟩ := Act.bind_done hdone
    exact ⟨step, known_done hdone⟩

/-- The updates of a limit node are those of its run in memory. -/
theorem refuse_run {node : LimitNode} {tkey : Option Key} {updates : List (Update C)}
    {desk after : Desk σ} (hdone : node.refuse store tkey config state desk = (.done updates, after)) :
    node.run config state = .ok updates := by
  unfold LimitNode.refuse at hdone
  obtain ⟨max, _, hmax, hdone⟩ := Act.bind_done hdone
  obtain ⟨c, _, hconversation, hdone⟩ := Act.bind_done hdone
  cases hlast : lastTurnByAuthor c node.author with
  | none =>
    rw [hlast] at hdone
    cases hdone
    unfold LimitNode.run
    rw [known_done hmax, known_done hconversation]
    dsimp only
    rw [hlast]
  | some turn =>
    rw [hlast] at hdone
    obtain ⟨text, _, -, hdone⟩ := Act.bind_done hdone
    obtain ⟨calls, _, -, hdone⟩ := Act.bind_done hdone
    obtain ⟨closing, _, -, hdone⟩ := Act.bind_done hdone
    cases tkey with
    | none => exact known_done hdone
    | some key =>
      obtain ⟨id, _, -, hdone⟩ := Act.bind_done hdone
      obtain ⟨_, _, -, hdone⟩ := Act.bind_done hdone
      exact known_done hdone

theorem Gives.fewer {calls : List ToolCall} {keys fewer : List Key}
    {given : List (List (ToolResult × List (Update C)))} (hgives : loop.Gives calls keys given)
    (hfewer : ∀ key ∈ fewer, key ∈ keys) : loop.Gives calls fewer given where
  named := hgives.named
  spares := fun own hown answer hanswer update hupdate hkey =>
    hgives.spares own hown answer hanswer update hupdate (hfewer _ hkey)

/-- A superstep of a durable loop that goes on is one of the loop in memory. -/
theorem Written.superstep {here next : Standing C} {desk after : Desk σ}
    (hwritten : loop.Written store clients config here desk (some next) after) :
    loop.Superstep config here here.spot next := by
  cases hwritten with
  | replies hclient hwrote happlied hgoes =>
    obtain ⟨step, hreply⟩ := callModel_reply hwrote
    exact .replies hreply happlied hgoes
  | answers hconversation hlast hgives hwrote happlied =>
    exact .answers hconversation hlast (hgives.fewer fun _ hkey =>
      List.mem_append_right _ hkey) happlied
  | limits hlimit hwrote happlied => exact .limits hlimit (refuse_run hwrote) happlied

end ReactLoop

/-- Where a run of an agent is. -/
inductive Site (C : Type) where
  | start (state : State C)
  | on (standing : ReactLoop.Standing C)
  | answered (state : State C)
  | stopped

/-- One superstep of a run of an agent, from its entry to its answer. -/
inductive ReactAgent.Takes (agent : ReactAgent) (store : ThreadStore C σ) (clients : ModelCall → Prop)
    (config : Config C) : Site C → Desk σ → Site C → Desk σ → Prop
  | enters {state next : State C} {updates : List (Update C)} {spot : Spot} {desk after : Desk σ}
      (hwrote : agent.enter.run store agent.asking state desk = (.done updates, after))
      (happlied : state.applyBatch updates = .ok next)
      (hgoes : agent.enter.edge agent.bounds config next = .ok spot) :
      Takes agent store clients config (.start state) desk (.on ⟨spot, next⟩) after
  | unentered {state : State C} {ended : Ended (Halt C) (List (Update C))} {desk after : Desk σ}
      (hwrote : agent.enter.run store agent.asking state desk = (ended, after)) :
      Takes agent store clients config (.start state) desk .stopped after
  | goesOn {here next : ReactLoop.Standing C} {desk after : Desk σ}
      (hwritten : agent.loop.Written store clients config here desk (some next) after) :
      Takes agent store clients config (.on here) desk (.on next) after
  | fails {here : ReactLoop.Standing C} {desk after : Desk σ}
      (hwritten : agent.loop.Written store clients config here desk none after) :
      Takes agent store clients config (.on here) desk .stopped after
  | answers {state next : State C} {updates : List (Update C)} {desk : Desk σ}
      (hran : agent.answer.run config state = .ok updates)
      (happlied : state.applyBatch updates = .ok next) :
      Takes agent store clients config (.on ⟨.after, state⟩) desk (.answered next) desk

end LlmGraph.React
