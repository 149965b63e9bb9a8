/- digest: Runs of a ReAct loop, superstep after superstep: the turn that the agent is on, and what the
   model call, the tool nodes and the limit node make of it. -/

import LlmGraph.Lib.Folds
import LlmGraph.Lib.Traces
import LlmGraph.React.Loop
import LlmGraph.React.RoundAgrees

set_option autoImplicit false
set_option relaxedAutoImplicit false

namespace LlmGraph.React

open Lib (foldlM_cons_ok foldlM_single_ok foldlM_append_ok)
open Superstep (State Config Value GraphError Key NodeId Update Limit)

variable {C : Type} [Messages C]

/-- The nodes of a loop that run next, or the end of the loop. -/
inductive Spot where
  | llm
  | tools
  | limit
  | after
  deriving DecidableEq, Repr

namespace ReactLoop

/-- Where a route leads. -/
def Route.spot : Route → Spot
  | Tools => .tools
  | Limit _ => .limit
  | After => .after

/-- The state keys that the nodes of the loop go by: no tool of the caller's is meant to change
them. -/
def own (loop : ReactLoop) : List Key :=
  [loop.key, loop.call.opening, loop.call.position] ++ loop.call.turns.toList

/-- The keys of a loop are apart from each other and from the flag of its limit. -/
structure Wired (loop : ReactLoop) : Prop where
  apart : loop.own.Nodup
  flag : ∀ node, loop.limitNode = some node → node.flag ∉ loop.own

/-- Where a run of a loop is, with the state. -/
structure Standing (C : Type) where
  spot : Spot
  state : State C

/-- One superstep of a loop, told by where it begins: a reply of the model, the answers of the tool
nodes, or the limit node. -/
inductive Superstep (loop : ReactLoop) (config : Config C) : Standing C → Spot → Standing C → Prop
  | replies {state next : State C} {step : Step} {updates : List (Update C)} {route : Route}
      (hreply : loop.reply state step = .ok updates) (happlied : state.applyBatch updates = .ok next)
      (hgoes : loop.llmEdge config next = .ok route) :
      Superstep loop config ⟨.llm, state⟩ .llm ⟨route.spot, next⟩
  | answers {state next : State C} {c : C} {turn : Turn}
      {given : List (List (ToolResult × List (Update C)))}
      (hconversation : state.conversation loop.key = .ok c)
      (hlast : lastTurnByAuthor c loop.author = some turn)
      (hgives : loop.Gives (turn.pending C) loop.own given)
      (happlied : (loop.batches turn.id given).foldlM State.applyBatch state = .ok next) :
      Superstep loop config ⟨.tools, state⟩ .tools ⟨.llm, next⟩
  | limits {state next : State C} {node : LimitNode} {updates : List (Update C)}
      (hlimit : loop.limitNode = some node) (hran : node.run config state = .ok updates)
      (happlied : state.applyBatch updates = .ok next) :
      Superstep loop config ⟨.limit, state⟩ .limit ⟨if node.ends then .after else .llm, next⟩

/-- A run of a loop, with the places where its supersteps began. -/
abbrev Runs (loop : ReactLoop) (config : Config C) :
    Standing C → List Spot → Standing C → Prop := Lib.Trace (loop.Superstep config)

variable {loop : ReactLoop} {config : Config C} {state next : State C} {c : C} {turn : Turn}

/-- The turn of a durable agent is the one of the call's rank; in memory it is the last one. -/
def Writes (loop : ReactLoop) (state : State C) (id : TurnId) : Prop :=
  loop.call.thread = none ∨ ∃ position, loop.call.positionOf state = .ok position ∧
    loop.call.turnId state position.rank = .ok id

/-- The agent is on a turn: its last one, and the one that a reply goes on in. -/
structure OnTurn (loop : ReactLoop) (state : State C) (c : C) (turn : Turn) : Prop where
  conversation : state.conversation loop.key = .ok c
  last : lastTurnByAuthor c loop.author = some turn
  writes : loop.Writes state turn.id

theorem Wired.key_ne {key : Key} (hwired : loop.Wired)
    (hown : key ∈ [loop.call.opening, loop.call.position] ++ loop.call.turns.toList) :
    loop.key ≠ key := by
  have hapart : ([loop.key] ++ ([loop.call.opening, loop.call.position] ++
      loop.call.turns.toList)).Nodup := hwired.apart
  rintro rfl
  exact (List.nodup_append.mp hapart).2.2 _ List.mem_cons_self _ hown rfl

theorem trigger_same (hsame : Same loop.call.opening state next) :
    loop.call.trigger next = loop.call.trigger state := by
  unfold AgentCall.trigger
  rw [hsame.conversation]

theorem turnId_same (hsame : Same loop.call.opening state next) (rank : Nat) :
    loop.call.turnId next rank = loop.call.turnId state rank := by
  unfold AgentCall.turnId
  rw [trigger_same hsame]

theorem Writes.same {id : TurnId} (hwrites : loop.Writes state id)
    (hposition : Same loop.call.position state next)
    (hopening : Same loop.call.opening state next) : loop.Writes next id := by
  rcases hwrites with hmemory | ⟨position, hat, hid⟩
  · exact .inl hmemory
  · refine .inr ⟨position, ?_, (turnId_same hopening _).trans hid⟩
    unfold AgentCall.positionOf at hat ⊢
    rw [hposition.int]
    exact hat

/-- A turn of a conversation is found by its identity. -/
theorem turnOf_mem (hlawful : Messages.Lawful C) (hentry : Entry.Turn turn ∈ entries c) :
    turnOf c turn.id = some turn := by
  obtain ⟨front, back, hsplit⟩ := List.append_of_mem hentry
  have hdistinct := hlawful.distinct c
  unfold entryIds at hdistinct
  rw [hsplit, List.map_append, List.map_cons, List.nodup_append] at hdistinct
  refine List.findSome?_eq_some_iff.mpr
    ⟨front, .Turn turn, back, hsplit, if_pos rfl, fun entry hmem => ?_⟩
  cases entry with
  | UserInput input => rfl
  | Turn other =>
    refine if_neg fun heq => ?_
    have hother : other.id ∈ front.map Entry.id := List.mem_map_of_mem hmem
    exact hdistinct.2.2 other.id hother turn.id List.mem_cons_self heq

theorem OnTurn.mem (hon : loop.OnTurn state c turn) : Entry.Turn turn ∈ entries c := by
  obtain ⟨-, front, back, hentries, -⟩ := lastTurnByAuthor_iff.mp hon.last
  rw [hentries]
  exact List.mem_append_right _ List.mem_cons_self

/-- A reply goes on in the turn that the agent is on, while it awaits a step. -/
theorem OnTurn.target (hlawful : Messages.Lawful C) (hon : loop.OnTurn state c turn)
    (hawaits : turn.awaits = .AwaitingStep) : loop.target state c = .ok (.Step turn) := by
  have hstate : Messages.state C turn = .AwaitingStep := (hlawful.state turn).trans hawaits
  have hgoing : ((lastTurnByAuthor c loop.author).filter fun turn =>
      loop.call.thread.isNone && Messages.state C turn == .AwaitingStep) =
        if loop.call.thread.isNone then some turn else none := by
    rw [hon.last, Option.filter_some, hstate]
    cases loop.call.thread <;> rfl
  unfold ReactLoop.target
  rw [hgoing]
  cases hthread : loop.call.thread with
  | none => rfl
  | some thread =>
    rcases hon.writes with hmemory | ⟨position, hat, hid⟩
    · rw [hthread] at hmemory
      cases hmemory
    · dsimp only [Option.isNone_some]
      rw [if_neg Bool.false_ne_true, hat]
      dsimp only
      rw [hid]
      dsimp only
      rw [turnOf_mem hlawful hon.mem]
      exact if_pos hstate

/-- A turn that has changed in its place is the last one still. -/
private theorem last_changed {author : Author} {changed : Turn} {c' : C} {front back : List Entry}
    (hlawful : Messages.Lawful C) (hlast : lastTurnByAuthor c author = some turn)
    (hauthor : changed.author = turn.author) (hbefore : entries c = front ++ .Turn turn :: back)
    (hafter : entries c' = front ++ .Turn changed :: back) :
    lastTurnByAuthor c' author = some changed := by
  obtain ⟨hwrote, front', back', hentries, hnone⟩ := lastTurnByAuthor_iff.mp hlast
  obtain ⟨rfl, -, rfl⟩ := Lib.split_of_key (hlawful.distinct c) hbefore hentries rfl
  exact lastTurnByAuthor_iff.mpr ⟨hauthor.trans hwrote, front, back, hafter, hnone⟩

/-- A reply on a turn is a step more of it. -/
theorem OnTurn.reply (hlawful : Messages.Lawful C) (hwired : loop.Wired)
    (hon : loop.OnTurn state c turn) (hawaits : turn.awaits = .AwaitingStep) {step : Step}
    {updates : List (Update C)} (hreply : loop.reply state step = .ok updates)
    (happlied : state.applyBatch updates = .ok next) :
    (∃ c' front back, entries c = front ++ .Turn turn :: back ∧
        entries c' = front ++ .Turn (turn.addStep step) :: back ∧
        loop.OnTurn next c' (turn.addStep step)) ∧
      ∀ key, loop.key ≠ key → Same key state next := by
  unfold ReactLoop.reply at hreply
  rw [hon.conversation] at hreply
  dsimp only at hreply
  rw [hon.target hlawful hawaits] at hreply
  cases hreply
  have hone : state.applyOne (.pushStep loop.key turn.id step) = .ok next :=
    foldlM_single_ok.mp (applyBatch_all happlied)
  have hsame : ∀ key, loop.key ≠ key → Same key state next :=
    fun _ hne => applyOne_same hone hne
  obtain ⟨-, front, back, hentries, -⟩ := lastTurnByAuthor_iff.mp hon.last
  obtain ⟨c', hnext, hentries'⟩ := pushStep_ok hlawful hon.conversation hentries hone
  refine ⟨⟨c', front, back, hentries, hentries', hnext, ?_, ?_⟩, hsame⟩
  · exact last_changed hlawful hon.last rfl hentries hentries'
  · exact hon.writes.same (hsame _ (hwired.key_ne (by simp))) (hsame _ (hwired.key_ne (by simp)))

/-- Where a reply that opens a turn finds the identity of the turn. -/
theorem target_open {id : TurnId} {moved : Option Position}
    (hopens : loop.target state c = .ok (.Open id moved)) :
    ∃ position, loop.call.positionOf state = .ok position ∧
      (moved = none ∧ loop.call.turnId state position.rank = .ok id ∨
        moved = some (.Writing (position.rank + 1)) ∧
          loop.call.turnId state (position.rank + 1) = .ok id) := by
  unfold ReactLoop.target at hopens
  dsimp only at hopens
  split at hopens
  · cases hopens
  · split at hopens
    · cases hopens
    · rename_i position hposition
      refine ⟨position, hposition, ?_⟩
      split at hopens
      · cases hopens
      · rename_i first hfirst
        split at hopens
        · cases hopens
          exact .inl ⟨rfl, hfirst⟩
        · split at hopens
          · cases hopens
          · split at hopens
            · cases hopens
            · rename_i following hfollowing
              cases hopens
              exact .inr ⟨rfl, hfollowing⟩

section Opening

variable {id : TurnId} {moved : Option Position}

theorem Wired.turns_ne {key : Key} (hwired : loop.Wired)
    (hkey : key ∈ [loop.key, loop.call.opening, loop.call.position]) :
    loop.call.turns ≠ some key := by
  have hapart : ([loop.key, loop.call.opening, loop.call.position] ++
    loop.call.turns.toList).Nodup := hwired.apart
  intro hturns
  rw [hturns] at hapart
  exact (List.nodup_append.mp hapart).2.2 key hkey key (by simp) rfl

theorem Wired.position_ne (hwired : loop.Wired) :
    loop.call.position ≠ loop.key ∧ loop.call.position ≠ loop.call.opening := by
  have hapart : ([loop.key, loop.call.opening, loop.call.position] ++
    loop.call.turns.toList).Nodup := hwired.apart
  have hown := (List.nodup_append.mp hapart).1
  simp only [List.nodup_cons, List.mem_cons, List.not_mem_nil, or_false, not_or] at hown
  exact ⟨fun heq => hown.1.2 heq.symm, fun heq => hown.2.1 heq.symm⟩

/-- A turn that is added to the call's turns changes nothing but their list. -/
private theorem addTurn_same {key : Key}
    (hadd : (loop.call.addTurn (C := C) id).toList.foldlM State.applyOne state = .ok next)
    (hne : loop.call.turns ≠ some key) : Same key state next := by
  refine applyAll_same (fun update hupdate hkey => ?_) hadd
  obtain ⟨turns, hturns, rfl⟩ := Option.map_eq_some_iff.mp (Option.mem_toList.mp hupdate)
  exact hne (hturns.trans (congrArg some hkey))

private theorem addTurn_list {key : Key} {items : List (Value C)}
    (hadd : (loop.call.addTurn (C := C) id).toList.foldlM State.applyOne state = .ok next)
    (hturns : loop.call.turns = some key) (hlist : state.list key = .ok items) :
    next.list key = .ok (items ++ [.str id]) := by
  rw [AgentCall.addTurn, hturns] at hadd
  exact append_ok hlist (foldlM_single_ok.mp hadd)

/-- A call that moves changes nothing but where it stands. -/
private theorem moveTo_same {key : Key}
    (hmove : (moved.toList.map loop.call.moveTo).foldlM State.applyOne state = .ok next)
    (hne : loop.call.position ≠ key) : Same key state next := by
  refine applyAll_same (fun update hupdate hkey => ?_) hmove
  obtain ⟨moved, -, rfl⟩ := List.mem_map.mp hupdate
  exact hne hkey

theorem moveTo_position {rank : Nat}
    (hmove : state.applyOne (loop.call.moveTo (.Writing rank)) = .ok next) :
    loop.call.positionOf next = .ok (.Writing rank) := by
  unfold AgentCall.positionOf
  rw [setInt_ok hmove]
  rfl

/-- A reply that opens a turn puts the agent on it. -/
theorem reply_opens (hlawful : Messages.Lawful C) (hwired : loop.Wired)
    (hconversation : state.conversation loop.key = .ok c)
    (hopens : loop.target state c = .ok (.Open id moved)) {step : Step}
    {updates : List (Update C)} (hreply : loop.reply state step = .ok updates)
    (happlied : state.applyBatch updates = .ok next) :
    (∃ c', entries c' = entries c ++ [.Turn (Turn.new id (some loop.author) step)] ∧
        loop.OnTurn next c' (Turn.new id (some loop.author) step)) ∧
      (∀ key items, loop.call.turns = some key → state.list key = .ok items →
        next.list key = .ok (items ++ [.str id])) ∧
      ∀ key, key ∉ loop.own ∨ key = loop.call.opening → Same key state next := by
  obtain ⟨position, hposition, hmoved⟩ := target_open hopens
  unfold ReactLoop.reply at hreply
  rw [hconversation] at hreply
  dsimp only at hreply
  rw [hopens] at hreply
  cases hreply
  obtain ⟨pushed, hpush, hrest⟩ := foldlM_cons_ok.mp (applyBatch_all happlied)
  obtain ⟨added, hadd, hmove⟩ := foldlM_append_ok.mp hrest
  have hfirst : ∀ key, loop.key ≠ key → Same key state pushed :=
    fun _ hne => applyOne_same hpush hne
  have hopening : Same loop.call.opening state next :=
    ((hfirst _ (hwired.key_ne (by simp))).trans
      (addTurn_same hadd (hwired.turns_ne (by simp)))).trans (moveTo_same hmove hwired.position_ne.2)
  obtain ⟨c', hpushed, hentries⟩ := pushTurn_ok hlawful hconversation hpush
  have hkey : Same loop.key pushed next :=
    (addTurn_same hadd (hwired.turns_ne (by simp))).trans (moveTo_same hmove hwired.position_ne.1)
  refine ⟨⟨c', hentries, hkey.conversation.trans hpushed, ?_, .inr ?_⟩, ?_, ?_⟩
  · exact lastTurnByAuthor_iff.mpr ⟨rfl, entries c, [], hentries, fun _ hmem => by cases hmem⟩
  · rcases hmoved with ⟨rfl, hid⟩ | ⟨rfl, hid⟩
    · cases hmove
      have hsame : Same loop.call.position state next :=
        (hfirst _ (hwired.key_ne (by simp))).trans (addTurn_same hadd (hwired.turns_ne (by simp)))
      refine ⟨position, ?_, (turnId_same hopening _).trans hid⟩
      unfold AgentCall.positionOf at hposition ⊢
      rw [hsame.int]
      exact hposition
    · exact ⟨.Writing (position.rank + 1), moveTo_position (foldlM_single_ok.mp hmove),
        (turnId_same hopening _).trans hid⟩
  · intro key items hturns hlist
    have hpushed_list : pushed.list key = .ok items :=
      (hfirst key (hwired.key_ne (by simp [hturns]))).list.trans hlist
    have hlast : Same key added next := moveTo_same hmove fun heq =>
      hwired.turns_ne (by simp) (hturns.trans (congrArg some heq.symm))
    exact hlast.list.trans (addTurn_list hadd hturns hpushed_list)
  · rintro key (hkey | rfl)
    · simp only [own, List.cons_append, List.nil_append, List.mem_cons, Option.mem_toList,
        not_or] at hkey
      exact ((hfirst key (Ne.symm hkey.1)).trans (addTurn_same hadd hkey.2.2.2)).trans
        (moveTo_same hmove (Ne.symm hkey.2.2.1))
    · exact hopening

end Opening

section Rounds

variable {given : List (List (ToolResult × List (Update C)))}

/-- The answers of the tool nodes go to the turn that the agent is on, which then awaits a step. -/
theorem OnTurn.answers (hlawful : Messages.Lawful C) (hwired : loop.Wired)
    (hcheck : loop.check = .ok ()) (hon : loop.OnTurn state c turn)
    (hpending : turn.pending C ≠ []) (hcovered : ∀ call ∈ turn.pending C, call.name ∈ loop.covered)
    (hgives : loop.Gives (turn.pending C) loop.own given)
    (happlied : (loop.batches turn.id given).foldlM State.applyBatch state = .ok next) :
    (∃ c' front back, entries c = front ++ .Turn turn :: back ∧
        entries c' = front ++ .Turn (turn.withResults (resultsOf given)) :: back ∧
        loop.OnTurn next c' (turn.withResults (resultsOf given))) ∧
      (turn.withResults (resultsOf given)).awaits = .AwaitingStep ∧
      ∀ key ∈ loop.own, loop.key ≠ key → Same key state next := by
  have hspared : ∀ key ∈ loop.own, ∀ own ∈ given, ∀ answer ∈ own, Spares [key] answer.2 := by
    intro key hkey own hown answer hanswer update hupdate hmem
    have hnamed := hgives.spares own hown answer hanswer update hupdate
    rw [List.mem_singleton.mp hmem] at hnamed
    exact hnamed hkey
  have hsame : ∀ key ∈ loop.own, loop.key ≠ key → Same key state next :=
    fun key hkey hne => loop.batches_same hne (hspared key hkey) happlied
  obtain ⟨-, front, back, hentries, -⟩ := lastTurnByAuthor_iff.mp hon.last
  obtain ⟨c', hnext, hentries'⟩ := loop.batches_ok hlawful hon.conversation hentries
    (hspared loop.key (by simp [own])) happlied
  refine ⟨⟨c', front, back, hentries, hentries', hnext, ?_, ?_⟩, ?_, hsame⟩
  · exact last_changed hlawful hon.last (Turn.withResults_author _ _) hentries hentries'
  · rw [Turn.withResults_id]
    exact hon.writes.same (hsame _ (by simp [own]) (hwired.key_ne (by simp)))
      (hsame _ (by simp [own]) (hwired.key_ne (by simp)))
  · exact Turn.answered_awaits hlawful hon.mem hpending (hgives.perm hcheck hcovered)

/-- The turn as the limit node leaves it. -/
def limited (node : LimitNode) (max : Nat) (turn : Turn) (calls : List ToolCall) : Turn :=
  let answered := turn.withResults (calls.map (LimitNode.answer (refusal max)))
  if node.ends then answered.addStep (closingStep max) else answered

theorem limited_id (node : LimitNode) (max : Nat) (turn : Turn) (calls : List ToolCall) :
    (ReactLoop.limited node max turn calls).id = turn.id := by
  unfold ReactLoop.limited
  dsimp only
  split <;> exact Turn.withResults_id _ _

theorem limited_author (node : LimitNode) (max : Nat) (turn : Turn) (calls : List ToolCall) :
    (ReactLoop.limited node max turn calls).author = turn.author := by
  unfold ReactLoop.limited
  dsimp only
  split <;> exact Turn.withResults_author _ _

theorem limitNode_key {node : LimitNode} (hnode : loop.limitNode = some node) :
    node.key = loop.key ∧ node.author = loop.author := by
  unfold limitNode at hnode
  obtain ⟨limit, -, hlimit⟩ := Option.bind_eq_some_iff.mp hnode
  split at hlimit <;> cases hlimit <;> exact ⟨rfl, rfl⟩

/-- A limit node that runs has its limit resolved. -/
theorem run_resolves {node : LimitNode} {updates : List (Update C)}
    (hrun : node.run config state = .ok updates) : ∃ max, node.maxRounds.resolve config = .ok max := by
  unfold LimitNode.run at hrun
  split at hrun
  · cases hrun
  · exact ⟨_, ‹_›⟩

/-- The limit node answers the pending calls of the turn that the agent is on. -/
theorem OnTurn.limited (hlawful : Messages.Lawful C) (hwired : loop.Wired)
    (hon : loop.OnTurn state c turn) {node : LimitNode} (hnode : loop.limitNode = some node)
    {max : Nat} (hmax : node.maxRounds.resolve config = .ok max) {updates : List (Update C)}
    (hrun : node.run config state = .ok updates) (happlied : state.applyBatch updates = .ok next) :
    (∃ c' front back, entries c = front ++ .Turn turn :: back ∧
        entries c' = front ++ .Turn (ReactLoop.limited node max turn (turn.pending C)) :: back ∧
        loop.OnTurn next c' (ReactLoop.limited node max turn (turn.pending C))) ∧
      ∀ key ∈ loop.own, loop.key ≠ key → Same key state next := by
  have hkey := limitNode_key hnode
  have hflag := hwired.flag node hnode
  have hconversation : state.conversation node.key = .ok c := hkey.1.symm ▸ hon.conversation
  have hlast : lastTurnByAuthor c node.author = some turn := hkey.2.symm ▸ hon.last
  cases LimitNode.run_ok hlawful hmax hconversation hlast hrun
  obtain ⟨answered, hanswers, hrest⟩ := foldlM_append_ok.mp (applyBatch_all happlied)
  obtain ⟨flagged, hset, hcloses⟩ := foldlM_cons_ok.mp hrest
  have hsame : ∀ key ∈ loop.own, loop.key ≠ key → Same key state next := by
    intro key hown hne
    have hne' : node.key ≠ key := hkey.1.symm ▸ hne
    refine (Same.trans ?_ (applyOne_same hset ?_)).trans ?_
    · refine applyAll_same (fun update hupdate => ?_) hanswers
      obtain ⟨result, -, rfl⟩ := List.mem_map.mp hupdate
      exact hne'
    · exact fun heq : node.flag = key => hflag (heq ▸ hown)
    · refine applyAll_same (fun update hupdate => ?_) hcloses
      split at hupdate
      · rw [List.mem_singleton.mp hupdate]
        exact hne'
      · cases hupdate
  obtain ⟨-, front, back, hentries, -⟩ := lastTurnByAuthor_iff.mp hon.last
  obtain ⟨c₁, hmiddle, hentries₁⟩ := pushResults_ok hlawful hconversation hentries hanswers
  have hflagged : flagged.conversation node.key = .ok c₁ :=
    (applyOne_same hset fun heq => hflag (by
      rw [show node.flag = loop.key from heq.trans hkey.1]
      simp [own])).conversation.trans hmiddle
  have hclosed : ∃ c', next.conversation node.key = .ok c' ∧
      entries c' = front ++ .Turn (ReactLoop.limited node max turn (turn.pending C)) :: back := by
    unfold ReactLoop.limited
    dsimp only
    split at hcloses
    · rename_i hends
      rw [if_pos hends]
      have hstep := foldlM_single_ok.mp hcloses
      rw [← Turn.withResults_id turn ((turn.pending C).map (LimitNode.answer (refusal max)))] at hstep
      exact pushStep_ok hlawful hflagged hentries₁ hstep
    · rename_i hends
      rw [if_neg hends]
      cases hcloses
      exact ⟨c₁, hflagged, hentries₁⟩
  obtain ⟨c', hnext, hentries'⟩ := hclosed
  refine ⟨⟨c', front, back, hentries, hentries', hkey.1 ▸ hnext, ?_, ?_⟩, hsame⟩
  · exact last_changed hlawful hon.last (limited_author ..) hentries hentries'
  · rw [limited_id]
    exact hon.writes.same (hsame _ (by simp [own]) (hwired.key_ne (by simp)))
      (hsame _ (by simp [own]) (hwired.key_ne (by simp)))

end Rounds

section Edges

/-- Where the edge after the model call goes, on the turn that the agent is on: to the tools with its
calls while rounds are left, to the limit node once none is, and to the end of the loop with a turn
that asks for nothing. -/
inductive Leads (loop : ReactLoop) (config : Config C) (turn : Turn) : Route → Prop
  | tools {pending : List ToolCallId} (hawaits : turn.awaits = .AwaitingToolResults pending)
      (hcovered : ∀ call ∈ turn.pending C, call.name ∈ loop.covered)
      (hleft : ∀ limit, loop.roundLimit = some limit →
        ∃ max, limit.maxRounds.resolve config = .ok max ∧ turn.rounds.length < max) :
      Leads loop config turn .Tools
  | limit {pending : List ToolCallId} {limit : RoundLimit} {max : Nat} {node : LimitNode} {id : NodeId}
      (hawaits : turn.awaits = .AwaitingToolResults pending) (hlimited : loop.roundLimit = some limit)
      (hresolved : limit.maxRounds.resolve config = .ok max) (hspent : max ≤ turn.rounds.length)
      (hcloser : loop.limitNode = some node) (hbound : node.maxRounds = limit.maxRounds)
      (hagain : node.ends = false → reachedIn turn max = false) : Leads loop config turn (.Limit id)
  | after (hasks : ∀ pending, turn.awaits ≠ .AwaitingToolResults pending) :
      Leads loop config turn .After

private theorem limitNode_end {limit : RoundLimit} {node : NodeId} {flag : Key}
    (hlimit : loop.roundLimit = some limit) (hends : limit.onLimit = .End node flag) :
    loop.limitNode = some ⟨loop.key, loop.author, limit.maxRounds, flag, true⟩ := by
  rw [limitNode, hlimit, Option.bind_some, hends]

private theorem limitNode_continue {limit : RoundLimit} {node : NodeId} {flag : Key}
    (hlimit : loop.roundLimit = some limit) (hgoes : limit.onLimit = .Continue node flag) :
    loop.limitNode = some ⟨loop.key, loop.author, limit.maxRounds, flag, false⟩ := by
  rw [limitNode, hlimit, Option.bind_some, hgoes]

theorem OnTurn.leads (hlawful : Messages.Lawful C) (hon : loop.OnTurn state c turn) {route : Route}
    (hedge : loop.llmEdge config state = .ok route) : loop.Leads config turn route := by
  have hstate : lastTurnState c loop.author = some turn.awaits := by
    unfold lastTurnState
    rw [hon.last, Option.map_some, hlawful.state turn]
  have hpending : pendingCalls state loop.key loop.author = .ok (turn.pending C) := by
    unfold pendingCalls
    rw [hon.conversation]
    dsimp only
    rw [hon.last]
  unfold llmEdge at hedge
  rw [hon.conversation] at hedge
  dsimp only at hedge
  rw [hstate] at hedge
  split at hedge
  · rename_i pending hawaits
    have hawaits : turn.awaits = .AwaitingToolResults pending := Option.some.inj hawaits
    have hopen : openTurn c loop.author = some turn := by
      unfold openTurn
      rw [hon.last, Option.filter_some, hlawful.state turn, hawaits]
      rfl
    have hrounds : completedRounds c loop.author = turn.rounds.length := by
      rw [completedRounds, hopen]
      rfl
    rw [hpending] at hedge
    dsimp only at hedge
    have htools : (turn.pending C).find? (fun call => !loop.covered.contains call.name) = none →
        ∀ call ∈ turn.pending C, call.name ∈ loop.covered := by
      intro hfound call hcall
      simpa using List.find?_eq_none.mp hfound call hcall
    split at hedge
    · rename_i hnolimit
      split at hedge
      · cases hedge
      · rename_i hfound
        cases hedge
        refine .tools hawaits (htools hfound) fun limit hlimit => ?_
        rw [hnolimit] at hlimit
        cases hlimit
    · rename_i limit hlimit
      split at hedge
      · cases hedge
      · rename_i max hmax
        rw [hrounds] at hedge
        split at hedge
        · rename_i hspent
          cases hreached : limit.reached (C := C) loop.llm c loop.author max with
          | error error =>
            rw [hreached] at hedge
            cases hedge
          | ok id =>
            rw [hreached] at hedge
            cases hedge
            unfold RoundLimit.reached at hreached
            cases hon_limit : limit.onLimit with
            | Error =>
              rw [hon_limit] at hreached
              cases hreached
            | End node flag =>
              have hnode := limitNode_end hlimit hon_limit
              exact .limit hawaits hlimit hmax hspent hnode rfl fun hends => by cases hends
            | Continue node flag =>
              have hnode := limitNode_continue hlimit hon_limit
              rw [hon_limit] at hreached
              dsimp only at hreached
              split at hreached
              · cases hreached
              · rename_i hnot
                refine .limit hawaits hlimit hmax hspent hnode rfl fun _ => ?_
                rw [answeredByLimit, hopen] at hnot
                simpa using hnot
        · rename_i hleft
          split at hedge
          · cases hedge
          · rename_i hfound
            cases hedge
            refine .tools hawaits (htools hfound) fun other hother => ?_
            rw [hlimit] at hother
            cases hother
            exact ⟨max, hmax, by omega⟩
  · rename_i hnone
    cases hedge
    exact .after fun pending hawaits => hnone pending (congrArg some hawaits)

end Edges

end ReactLoop

section Along

variable {loop : ReactLoop} {config : Config C} {state next : State C} {c : C} {turn : Turn}

/-- A reply that awaits results calls some tools, and they are the pending ones. -/
theorem pending_reply (hlawful : Messages.Lawful C) (hentry : Entry.Turn turn ∈ entries c)
    {earlier : List TurnItem} {reply : Step} (hitems : turn.items = earlier ++ [.Step reply]) {pending : List ToolCallId}
    (hawaits : turn.awaits = .AwaitingToolResults pending) :
    turn.pending C = reply.toolCalls ∧ reply.toolCalls ≠ [] := by
  have hstop : reply.stopReason = .AwaitingToolResults ∧ pending = Turn.unanswered reply [] := by
    unfold Turn.awaits at hawaits
    rw [hitems, List.reverse_append] at hawaits
    simp only [List.reverse_singleton, List.singleton_append] at hawaits
    split at hawaits
    · rename_i hstop
      cases hawaits
      exact ⟨hstop, rfl⟩
    · cases hawaits
  have hreplied : turn.Replied reply [] := .fresh hitems hstop.1
  have hunique : (turn.toolCalls.map (·.id)).Nodup := by
    have hall := hlawful.unique c
    obtain ⟨front, back, hsplit⟩ := List.append_of_mem hentry
    unfold toolCalls at hall
    rw [hsplit, List.flatMap_append, List.flatMap_cons, List.map_append, List.map_append] at hall
    exact (List.nodup_append.mp (List.nodup_append.mp hall).2.1).1
  refine ⟨?_, hlawful.called c turn reply hentry (by rw [hitems]; simp) hstop.1⟩
  unfold Turn.pending
  rw [hlawful.state turn, hawaits]
  dsimp only
  rw [hstop.2, hreplied.pending hunique, Turn.stillOpen]
  simp

theorem finalStep_isSome {step : Step} (hmem : .Step step ∈ turn.items) :
    (finalStep turn).isSome = true := by
  unfold finalStep
  rw [List.findSome?_isSome_iff]
  exact ⟨_, List.mem_reverse.mpr hmem, rfl⟩

theorem awaits_step_ne {earlier : List TurnItem} {step : Step}
    (hitems : turn.items = earlier ++ [.Step step]) : turn.awaits ≠ .AwaitingStep := by
  unfold Turn.awaits
  rw [hitems, List.reverse_append]
  simp only [List.reverse_singleton, List.singleton_append]
  split <;> exact fun hawaits => by cases hawaits

/-- A step that ends a turn leaves it waiting for the results of its calls, or finished. -/
theorem awaits_addStep {earlier : List TurnItem} {step : Step}
    (hitems : turn.items = earlier ++ [.Step step])
    (hasks : ∀ pending, turn.awaits ≠ .AwaitingToolResults pending) :
    turn.awaits = .Finished step.stopReason := by
  unfold Turn.awaits at hasks ⊢
  rw [hitems, List.reverse_append] at hasks ⊢
  simp only [List.reverse_singleton, List.singleton_append] at hasks ⊢
  split at hasks
  · exact absurd rfl (hasks _)
  · rename_i hstop
    exact if_neg hstop

namespace ReactLoop

/-- What the turn that an agent is on awaits, by the place of the loop. -/
inductive Along (loop : ReactLoop) (C : Type) [Messages C] (turn : Turn) : Spot → Prop
  | step (hawaits : turn.awaits = .AwaitingStep) : Along loop C turn .llm
  | tools {earlier : List TurnItem} {reply : Step} {pending : List ToolCallId}
      (hitems : turn.items = earlier ++ [.Step reply])
      (hawaits : turn.awaits = .AwaitingToolResults pending)
      (hcovered : ∀ call ∈ turn.pending C, call.name ∈ loop.covered) : Along loop C turn .tools
  | limit {earlier : List TurnItem} {reply : Step} {pending : List ToolCallId}
      (hitems : turn.items = earlier ++ [.Step reply])
      (hawaits : turn.awaits = .AwaitingToolResults pending) : Along loop C turn .limit
  | after {reason : StopReason} (hfinished : turn.awaits = .Finished reason) : Along loop C turn .after

/-- The edge after the model call leads where the turn awaits it. -/
theorem OnTurn.along (hlawful : Messages.Lawful C) (hon : loop.OnTurn state c turn)
    {earlier : List TurnItem} {step : Step} (hitems : turn.items = earlier ++ [.Step step])
    {route : Route} (hedge : loop.llmEdge config state = .ok route) :
    loop.Along C turn route.spot := by
  cases hon.leads hlawful hedge with
  | tools hawaits hcovered hleft => exact .tools hitems hawaits hcovered
  | limit hawaits hlimited hresolved hspent hcloser hbound hagain => exact .limit hitems hawaits
  | after hasks => exact .after (awaits_addStep hitems hasks)

/-- What one superstep of a loop makes of the conversation: the turn that the agent is on has changed
in its place, and no key of the agent's own has but its conversation. -/
structure Moved (loop : ReactLoop) (here next : Standing C) (c : C) (turn changed : Turn) (c' : C) :
    Prop where
  place : ∃ front back, entries c = front ++ .Turn turn :: back ∧
    entries c' = front ++ .Turn changed :: back
  id : changed.id = turn.id
  author : changed.author = turn.author
  stepped : (finalStep changed).isSome = true
  on : loop.OnTurn next.state c' changed
  along : loop.Along C changed next.spot
  own : ∀ key ∈ loop.own, loop.key ≠ key → Same key here.state next.state

theorem Superstep.moved (hlawful : Messages.Lawful C) (hwired : loop.Wired)
    (hcheck : loop.check = .ok ()) {here next : Standing C} {spot : Spot}
    (hon : loop.OnTurn here.state c turn) (halong : loop.Along C turn here.spot)
    (hstep : loop.Superstep config here spot next) :
    ∃ c' changed, loop.Moved here next c turn changed c' := by
  cases hstep with
  | @replies state next step updates route hreply' happlied hgoes =>
    cases halong with
    | step hawaits' =>
      obtain ⟨⟨c', front, back, hentries, hentries', hon'⟩, hown⟩ :=
        hon.reply hlawful hwired hawaits' hreply' happlied
      have hstep : TurnItem.Step step ∈ (turn.addStep step).items :=
        List.mem_append_right _ List.mem_cons_self
      exact ⟨c', turn.addStep step, ⟨front, back, hentries, hentries'⟩, rfl, rfl,
        finalStep_isSome hstep, hon', hon'.along hlawful rfl hgoes, fun key _ hne => hown key hne⟩
  | @answers state next c' turn' given hconversation hlast hgives happlied =>
    cases halong with
    | @tools earlier reply pending hitems' hawaits' hcovered =>
      cases hconversation.symm.trans hon.conversation
      cases hlast.symm.trans hon.last
      obtain ⟨hpending, hcalls⟩ := pending_reply hlawful hon.mem hitems' hawaits'
      obtain ⟨⟨c', front, back, hentries, hentries', hon'⟩, hawaits, hown⟩ :=
        hon.answers hlawful hwired hcheck (hpending ▸ hcalls) hcovered hgives happlied
      have hsome := hgives.results_ne hcheck hcovered (hpending ▸ hcalls)
      have hreply : TurnItem.Step reply ∈ (turn.withResults (resultsOf given)).items := by
        rw [Turn.items_withResults_step hitems' hsome]
        exact List.mem_append_right _ List.mem_cons_self
      exact ⟨c', turn.withResults (resultsOf given), ⟨front, back, hentries, hentries'⟩,
        Turn.withResults_id _ _, Turn.withResults_author _ _, finalStep_isSome hreply, hon',
        .step hawaits, hown⟩
  | @limits state next node updates hcloser hran happlied =>
    cases halong with
    | @limit earlier reply pending hitems' hawaits' =>
      obtain ⟨max, hmax⟩ := run_resolves hran
      obtain ⟨hpending, hcalls⟩ := pending_reply hlawful hon.mem hitems' hawaits'
      obtain ⟨⟨c', front, back, hentries, hentries', hon'⟩, hown⟩ :=
        hon.limited hlawful hwired hcloser hmax hran happlied
      have hsome : (turn.pending C).map (LimitNode.answer (refusal max)) ≠ [] := by
        rw [hpending]
        exact fun hnil => hcalls (List.map_eq_nil_iff.mp hnil)
      have hitems := Turn.items_withResults_step hitems' hsome
      have hreply : TurnItem.Step reply ∈
          (turn.withResults ((turn.pending C).map (LimitNode.answer (refusal max)))).items := by
        rw [hitems]
        exact List.mem_append_right _ List.mem_cons_self
      unfold ReactLoop.limited at hon' hentries'
      dsimp only at hon' hentries' ⊢
      cases hends : node.ends with
      | true =>
        rw [hends, if_pos rfl] at hon' hentries'
        refine ⟨c', _, ⟨front, back, hentries, hentries'⟩, Turn.withResults_id _ _,
          Turn.withResults_author _ _, finalStep_isSome (List.mem_append_left _ hreply), hon', ?_, hown⟩
        refine .after (awaits_addStep rfl fun pending hawaits => ?_)
        unfold Turn.awaits Turn.addStep at hawaits
        rw [List.reverse_append] at hawaits
        cases hawaits
      | false =>
        rw [hends, if_neg Bool.false_ne_true] at hon' hentries'
        refine ⟨c', _, ⟨front, back, hentries, hentries'⟩, Turn.withResults_id _ _,
          Turn.withResults_author _ _, finalStep_isSome hreply, hon', .step ?_, hown⟩
        refine Turn.answered_awaits hlawful hon.mem (hpending ▸ hcalls) ?_
        rw [List.map_map]
        exact List.Perm.of_eq (List.map_congr_left fun call _ => rfl)

end ReactLoop

end Along

end LlmGraph.React
