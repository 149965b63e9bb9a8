/- digest: Runs of a generator-critic, superstep after superstep: the turns of the call as its routing
   reads them, and what the generator's loop, the check and the critic make of them. -/

import LlmGraph.React.CallKinds
import LlmGraph.React.LoopRuns

set_option autoImplicit false
set_option relaxedAutoImplicit false

namespace LlmGraph.React

open Lib (foldlM_cons_ok foldlM_single_ok)
open Superstep (State Config Value GraphError Key Update)

variable {C : Type} [Messages C]

section Lists

variable {duo : Duo} {state next : State C} {c c' : C} {turns : CallTurns} {turn changed : Turn}
  {front back : List Entry}

/-- The turns of a call are listed under their ids and stand in the conversation, each with a final
step. -/
structure Duo.Lists (duo : Duo) (state : State C) (c : C) (turns : CallTurns) : Prop where
  conversation : state.conversation duo.conversation = .ok c
  listed : ∃ ids, state.list duo.turns = .ok ids ∧ ids.filterMap (duo.listed c) = turns ∧
    ∀ id, Value.str id ∈ ids → (turnOf c id).isSome = true
  stepped : ∀ turn ∈ turns, (finalStep turn.1).isSome = true

theorem Duo.Lists.callTurns (hlists : duo.Lists state c turns) : duo.callTurns state = .ok turns := by
  obtain ⟨ids, hids, hturns, -⟩ := hlists.listed
  unfold Duo.callTurns
  rw [hlists.conversation]
  dsimp only
  rw [hids]
  exact congrArg Except.ok hturns

@[simp] theorem Duo.listed_str (duo : Duo) (c : C) (id : TurnId) :
    duo.listed c (.str id) =
      (turnOf c id).bind fun turn => (duo.kind turn).map fun kind => (turn, kind) := by
  simp only [Duo.listed]
  cases turnOf c id <;> rfl

theorem turnOf_id {id : TurnId} (hfound : turnOf c id = some turn) : turn.id = id := by
  unfold turnOf at hfound
  obtain ⟨front, entry, back, -, hentry, -⟩ := List.findSome?_eq_some_iff.mp hfound
  cases entry with
  | UserInput input => cases hentry
  | Turn found =>
    dsimp only at hentry
    split at hentry
    · cases hentry
      assumption
    · cases hentry

/-- A turn that is found stays so when the conversation grows. -/
theorem turnOf_grown {added : List Entry} (hgrown : entries c' = entries c ++ added) {id : TurnId}
    (hfound : (turnOf c id).isSome = true) : turnOf c' id = turnOf c id := by
  obtain ⟨found, hturn⟩ := Option.isSome_iff_exists.mp hfound
  have hleft := hturn
  unfold turnOf at hleft hturn ⊢
  rw [hgrown, List.findSome?_append, hleft]
  rfl

/-- The turns of a conversation, by id, once one of them has changed in its place. -/
theorem turnOf_changed (hlawful : Messages.Lawful C) (hid : changed.id = turn.id)
    (hbefore : entries c = front ++ .Turn turn :: back)
    (hafter : entries c' = front ++ .Turn changed :: back) (id : TurnId) :
    turnOf c' id = if id = turn.id then some changed else turnOf c id := by
  split
  · rename_i hsame
    rw [hsame, ← hid]
    exact ReactLoop.turnOf_mem hlawful (hafter ▸ List.mem_append_right _ List.mem_cons_self)
  · rename_i hother
    unfold turnOf
    rw [hbefore, hafter, List.findSome?_append, List.findSome?_append, List.findSome?_cons,
      List.findSome?_cons]
    dsimp only
    rw [hid, if_neg (Ne.symm hother), if_neg (Ne.symm hother)]

/-- A new turn of the call comes last. -/
theorem Duo.Lists.adds (hlawful : Messages.Lawful C) (hlists : duo.Lists state c turns)
    (hgrown : entries c' = entries c ++ [.Turn turn])
    (hconversation : next.conversation duo.conversation = .ok c')
    (happended : ∀ ids, state.list duo.turns = .ok ids →
      next.list duo.turns = .ok (ids ++ [.str turn.id]))
    {kind : TurnKind} (hkind : duo.kind turn = some kind)
    (hstepped : (finalStep turn).isSome = true) : duo.Lists next c' (turns ++ [(turn, kind)]) := by
  obtain ⟨ids, hids, hturns, hfound⟩ := hlists.listed
  have hnew : turnOf c' turn.id = some turn :=
    ReactLoop.turnOf_mem hlawful (hgrown ▸ List.mem_append_right _ List.mem_cons_self)
  refine ⟨hconversation, ⟨_, happended ids hids, ?_, fun id hmem => ?_⟩, fun listed hmem => ?_⟩
  · rw [List.filterMap_append]
    congr 1
    · rw [← hturns]
      refine List.filterMap_congr fun value hmem => ?_
      cases value with
      | str id => rw [Duo.listed_str, Duo.listed_str, turnOf_grown hgrown (hfound id hmem)]
      | _ => rfl
    · simp [Duo.listed, hnew, hkind]
  · rcases List.mem_append.mp hmem with hold | hlast
    · rw [turnOf_grown hgrown (hfound id hold)]
      exact hfound id hold
    · cases List.mem_singleton.mp hlast
      exact Option.isSome_iff_exists.mpr ⟨turn, hnew⟩
  · rcases List.mem_append.mp hmem with hold | hlast
    · exact hlists.stepped listed hold
    · cases List.mem_singleton.mp hlast
      exact hstepped

/-- The turns of a call with one of them in another's place. -/
def swap (turn changed : Turn) (turns : CallTurns) : CallTurns :=
  turns.map fun listed => if listed.1.id = turn.id then (changed, listed.2) else listed

@[simp] theorem swap_kinds (turn changed : Turn) (turns : CallTurns) :
    CallTurns.kinds (swap turn changed turns) = CallTurns.kinds turns := by
  unfold swap CallTurns.kinds
  rw [List.map_map]
  refine List.map_congr_left fun listed _ => ?_
  dsimp only [Function.comp_apply]
  split <;> rfl

@[simp] theorem swap_last (turn changed : Turn) (turns : CallTurns) (kind : TurnKind) :
    swap turn changed (turns ++ [(turn, kind)]) = swap turn changed turns ++ [(changed, kind)] := by
  simp [swap]

/-- A turn of the generator that changes in its place stays the turn of the call that it was. -/
theorem Duo.Lists.changes (hlawful : Messages.Lawful C) (hlists : duo.Lists state c turns)
    (hbefore : entries c = front ++ .Turn turn :: back)
    (hafter : entries c' = front ++ .Turn changed :: back) (hid : changed.id = turn.id)
    (hauthor : changed.author = turn.author) (hgenerator : turn.author = some duo.generator)
    (hconversation : next.conversation duo.conversation = .ok c')
    (hlist : next.list duo.turns = state.list duo.turns)
    (hstepped : (finalStep changed).isSome = true) :
    duo.Lists next c' (swap turn changed turns) := by
  obtain ⟨ids, hids, hturns, hfound⟩ := hlists.listed
  have hkind : ∀ turn : Turn, turn.author = some duo.generator → duo.kind turn = some .Generation := by
    intro turn hwrote
    unfold Duo.kind
    rw [hwrote]
    exact if_pos rfl
  have hnow := turnOf_changed hlawful hid hbefore hafter
  refine ⟨hconversation, ⟨ids, hlist.trans hids, ?_, fun id hmem => ?_⟩, fun listed hmem => ?_⟩
  · rw [← hturns, swap, List.map_filterMap]
    refine List.filterMap_congr fun value hmem => ?_
    cases value with
    | str id =>
      rw [Duo.listed_str, Duo.listed_str, hnow id]
      by_cases hsame : id = turn.id
      · have hold : turnOf c id = some turn := hsame ▸
          ReactLoop.turnOf_mem hlawful (hbefore ▸ List.mem_append_right _ List.mem_cons_self)
        rw [if_pos hsame, hold]
        simp [hkind turn hgenerator, hkind changed (hauthor.trans hgenerator)]
      · rw [if_neg hsame]
        cases hold : turnOf c id with
        | none => rfl
        | some found =>
          have hother : found.id ≠ turn.id := turnOf_id hold ▸ hsame
          cases hfoundKind : duo.kind found <;> simp [hother, hfoundKind]
    | _ => rfl
  · rw [hnow id]
    split
    · rfl
    · exact hfound id hmem
  · obtain ⟨old, hold, rfl⟩ := List.mem_map.mp hmem
    split
    · exact hstepped
    · exact hlists.stepped old hold

end Lists

/-- Where a run of a generator-critic is: in the loop of the generator, past which is the check, at the
critic, at the finish, or ended. -/
inductive GeneratorCritic.Stage where
  | react (spot : Spot)
  | critique
  | finish
  | ended (validated : Bool)
  deriving DecidableEq, Repr

def Router.Next.stage : Router.Next → GeneratorCritic.Stage
  | Generate => .react .llm
  | Check => .react .after
  | Critique => .critique
  | Finish => .finish

/-- The next reply of an agent opens a turn, if it has a target at all. -/
def ReactLoop.Quiet (loop : ReactLoop) (state : State C) (c : C) : Prop :=
  ∀ turn, loop.target state c ≠ .ok (.Step turn)

/-- In memory, the last turn of an agent awaits no step. -/
def ReactLoop.Rested (loop : ReactLoop) (c : C) : Prop :=
  loop.call.thread = none →
    ∀ turn, lastTurnByAuthor c loop.author = some turn → turn.awaits ≠ .AwaitingStep

/-- A reply goes on in a turn that awaits a step: the author's last one in memory, or the one of the
call's rank. -/
theorem ReactLoop.target_step (hlawful : Messages.Lawful C) {loop : ReactLoop} {state : State C} {c : C}
    {turn : Turn} (htarget : loop.target state c = .ok (.Step turn)) :
    turn.awaits = .AwaitingStep ∧
      (loop.call.thread = none ∧ lastTurnByAuthor c loop.author = some turn ∨
        ∃ position id, loop.call.positionOf state = .ok position ∧
          loop.call.turnId state position.rank = .ok id ∧ turnOf c id = some turn) := by
  unfold target at htarget
  dsimp only at htarget
  split at htarget
  · rename_i found hgoing
    cases htarget
    obtain ⟨hlast, hawaits⟩ := Option.filter_eq_some_iff.mp hgoing
    simp only [Bool.and_eq_true, Option.isNone_iff_eq_none, beq_iff_eq, hlawful.state] at hawaits
    exact ⟨hawaits.2, .inl ⟨hawaits.1, hlast⟩⟩
  · split at htarget
    · cases htarget
    · rename_i position hposition
      split at htarget
      · cases htarget
      · rename_i id hid
        split at htarget
        · cases htarget
        · rename_i found hfound
          split at htarget
          · rename_i hawaits
            cases htarget
            exact ⟨(hlawful.state _).symm.trans hawaits, .inr ⟨position, id, hposition, hid, hfound⟩⟩
          · split at htarget <;> cases htarget

theorem ReactLoop.Quiet.rested (hlawful : Messages.Lawful C) {loop : ReactLoop} {state : State C}
    {c : C} (hquiet : loop.Quiet state c) : loop.Rested c := by
  intro hmemory turn hlast hawaits
  refine hquiet turn ?_
  have hstate : Messages.state C turn = .AwaitingStep := (hlawful.state turn).trans hawaits
  unfold target
  rw [hlast, Option.filter_some, hstate, hmemory]
  rfl

namespace GeneratorCritic

/-- Where a run of a generator-critic is, with the state. -/
structure Standing (C : Type) where
  stage : Stage
  state : State C

/-- One superstep of a generator-critic, told by where it begins. -/
inductive Superstep (graph : GeneratorCritic C) (config : Config C) :
    Standing C → Stage → Standing C → Prop
  | reacts {here next : ReactLoop.Standing C} {spot : Spot}
      (hstep : graph.loop.Superstep config here spot next) :
      Superstep graph config ⟨.react here.spot, here.state⟩ (.react spot)
        ⟨.react next.spot, next.state⟩
  | checks {state next : State C} {given : Checking C} {updates : List (Update C)}
      {leads : Router.Next} (hran : graph.duo.check given config state = .ok updates)
      (happlied : state.applyBatch updates = .ok next)
      (hgoes : graph.router.afterCheck next config = .ok leads) :
      Superstep graph config ⟨.react .after, state⟩ (.react .after) ⟨leads.stage, next⟩
  | critiques {state next : State C} {ask : CriticFacts C → Except (GraphError C) Step}
      {updates : List (Update C)} {leads : Router.Next}
      (hran : graph.duo.critique graph.criticSeat ask config state = .ok updates)
      (happlied : state.applyBatch updates = .ok next)
      (hgoes : graph.router.afterCritique next config = .ok leads) :
      Superstep graph config ⟨.critique, state⟩ .critique ⟨leads.stage, next⟩
  | finishes {state next : State C} {updates : List (Update C)} {validated : Bool}
      (hran : graph.finish.run config state = .ok updates)
      (happlied : state.applyBatch updates = .ok next)
      (hgoes : graph.finish.edge next = .ok validated) :
      Superstep graph config ⟨.finish, state⟩ .finish ⟨.ended validated, next⟩

/-- A run of a generator-critic, with the places where its supersteps began. -/
abbrev Runs (graph : GeneratorCritic C) (config : Config C) :
    Standing C → List Stage → Standing C → Prop := Lib.Trace (graph.Superstep config)

section Build

variable {graph : GeneratorCritic C}

theorem check_ok (hcheck : graph.check = .ok ()) :
    graph.generator ≠ graph.critic ∧ graph.checkFlag = .ok () ∧ graph.loop.check = .ok () := by
  unfold check at hcheck
  split at hcheck
  · cases hcheck
  · rename_i hauthors
    split at hcheck
    · cases hcheck
    · rename_i hflag
      split at hcheck
      · cases hcheck
      · rename_i hloop
        exact ⟨hauthors, hflag, hloop⟩

/-- The flag of the round limit is none of the graph's own keys. -/
theorem flag_ne (hcheck : graph.check = .ok ()) {flag : Key}
    (hflag : graph.roundLimit.bind roundLimitFlag = some flag) :
    flag ∉ ["is_validated", "opening", "conversation", "answer", "nb_generations", "turn_rank",
      "call_turns"] := by
  obtain ⟨-, hfree, -⟩ := check_ok hcheck
  unfold checkFlag at hfree
  rw [hflag] at hfree
  dsimp only at hfree
  split at hfree
  · cases hfree
  · rename_i hnames
    split at hfree
    · cases hfree
    · rename_i hkeys
      simp only [List.mem_cons, List.not_mem_nil, or_false, not_or] at hnames hkeys ⊢
      exact ⟨hnames.1, hnames.2.1, hnames.2.2.2, hkeys⟩

theorem loop_wired (hcheck : graph.check = .ok ()) : graph.loop.Wired where
  apart := by
    have hown : graph.loop.own = ["conversation", "opening", "turn_rank", "call_turns"] := rfl
    rw [hown]
    decide
  flag node hnode hmem := by
    have hflag : graph.roundLimit.bind roundLimitFlag = some node.flag := by
      unfold ReactLoop.limitNode at hnode
      obtain ⟨⟨maxRounds, onLimit⟩, hlimit, hmade⟩ := Option.bind_eq_some_iff.mp hnode
      have hround : graph.roundLimit = some ⟨maxRounds, onLimit⟩ := hlimit
      rw [hround, Option.bind_some]
      cases onLimit with
      | Error => cases hmade
      | Continue id flag =>
        cases hmade
        rfl
      | End id flag =>
        cases hmade
        rfl
    have hown : graph.loop.own = ["conversation", "opening", "turn_rank", "call_turns"] := rfl
    have hfree := flag_ne hcheck hflag
    rw [hown] at hmem
    simp only [List.mem_cons, List.not_mem_nil, or_false, not_or] at hmem hfree
    rcases hmem with heq | heq | heq | heq
    · exact hfree.2.2.1 heq
    · exact hfree.2.1 heq
    · exact hfree.2.2.2.2.2.1 heq
    · exact hfree.2.2.2.2.2.2 heq

end Build

section Nodes

variable {graph : GeneratorCritic C} {config : Config C} {caps : Caps} {state next : State C} {c : C}
  {turns : CallTurns} {updates : List (Update C)}

theorem nextTurn_id {rank : Nat} {id : TurnId}
    (hnext : graph.duo.call.nextTurn state c = .ok (rank, id)) :
    graph.loop.call.turnId state rank = .ok id := by
  unfold AgentCall.nextTurn at hnext
  split at hnext
  · cases hnext
  · split at hnext
    · cases hnext
    · rename_i found hfound
      split at hnext
      · cases hnext
        exact hfound
      · cases hfollowing : graph.duo.call.turnId state (_ + 1) with
        | error error =>
          rw [hfollowing] at hnext
          cases hnext
        | ok following =>
          rw [hfollowing] at hnext
          cases hnext
          exact hfollowing

/-- The kind of a message of the critic is the one it was recorded with. -/
theorem kind_recorded (hauthors : graph.generator ≠ graph.critic) {kind : TurnKind}
    (hmessage : kind ≠ .Generation) (id : TurnId) {step : Step}
    (hstop : step.stopReason = kind.stopReason) :
    graph.duo.kind (Turn.new id (some graph.critic) step) = some kind := by
  have hfinal : finalStep (Turn.new id (some graph.critic) step) = some step := rfl
  have hgenerator : graph.critic ≠ graph.duo.generator := Ne.symm hauthors
  have hcritic : graph.critic = graph.duo.critic := rfl
  unfold Duo.kind
  rw [hfinal]
  dsimp only [Turn.new, Option.map_some]
  rw [if_neg hgenerator, if_neg (not_not.mpr hcritic), hstop]
  cases kind with
  | Generation => exact absurd rfl hmessage
  | Critique => rfl
  | Revision => exact if_pos rfl
  | Acceptance => exact (if_neg (by decide)).trans (if_pos rfl)

/-- After a message of the critic the generator's reply opens a turn, unless its last one awaits a
step. -/
theorem recorded_quiet {c' : C} (hlawful : Messages.Lawful C) (hauthors : graph.generator ≠ graph.critic)
    (hrested : graph.loop.Rested c) {id : TurnId} {rank : Nat} {step : Step}
    (hgrown : entries c' = entries c ++ [.Turn (Turn.new id (some graph.critic) step)])
    (hposition : graph.loop.call.positionOf next = .ok (.Writing rank))
    (hid : graph.loop.call.turnId next rank = .ok id) : graph.loop.Quiet next c' := by
  intro turn htarget
  have hmem : Entry.Turn (Turn.new id (some graph.critic) step) ∈ entries c' :=
    hgrown ▸ List.mem_append_right _ List.mem_cons_self
  have hcritic : turnOf c' id = some (Turn.new id (some graph.critic) step) :=
    ReactLoop.turnOf_mem hlawful hmem
  obtain ⟨hawaits, ⟨hmemory, hlast⟩ | ⟨position, found, hat, hfound, hturn⟩⟩ :=
    ReactLoop.target_step hlawful htarget
  · refine hrested hmemory turn ?_ hawaits
    have hother : turnBy graph.loop.author (.Turn (Turn.new id (some graph.critic) step)) = none :=
      if_neg fun hsame => hauthors (Option.some.inj hsame).symm
    rw [← hlast]
    unfold lastTurnByAuthor
    rw [hgrown, List.reverse_append, List.reverse_singleton, List.singleton_append,
      List.findSome?_cons, hother]
  · cases hposition.symm.trans hat
    cases hid.symm.trans hfound
    cases hcritic.symm.trans hturn
    have hitems : (Turn.new id (some graph.critic) step).items = [] ++ [.Step step] := rfl
    exact awaits_step_ne hitems hawaits

/-- A message that is recorded is the last turn of the call; the generator's reply then opens a turn,
unless its last one awaits a step. -/
theorem record_ok (hlawful : Messages.Lawful C) (hauthors : graph.generator ≠ graph.critic)
    (hlists : graph.duo.Lists state c turns) (hrested : graph.loop.Rested c) {kind : TurnKind}
    (hmessage : kind ≠ .Generation) {text : String}
    (hrecord : graph.duo.record state kind text = .ok updates)
    (happlied : state.applyBatch updates = .ok next) :
    ∃ c' turn, graph.duo.Lists next c' (turns ++ [(turn, kind)]) ∧ graph.loop.Quiet next c' := by
  unfold Duo.record at hrecord
  rw [hlists.conversation] at hrecord
  dsimp only at hrecord
  split at hrecord
  · cases hrecord
  · rename_i rank id hnextTurn
    split at hrecord
    · cases hrecord
    · rename_i step hstep
      cases hrecord
      have hmade := hlawful.newStep _ _ _ hstep
      obtain ⟨pushed, hpush, hrest⟩ := foldlM_cons_ok.mp (applyBatch_all happlied)
      obtain ⟨listed, happend, hmove⟩ := foldlM_cons_ok.mp hrest
      have hmove := foldlM_single_ok.mp hmove
      obtain ⟨c', hconversation, hgrown⟩ := pushTurn_ok hlawful hlists.conversation hpush
      have hpushed : ∀ key, "conversation" ≠ key → Same key state pushed :=
        fun _ hne => applyOne_same hpush hne
      have hlisted : ∀ key, "call_turns" ≠ key → Same key pushed listed :=
        fun _ hne => applyOne_same happend hne
      have hmoved : ∀ key, "turn_rank" ≠ key → Same key listed next :=
        fun _ hne => applyOne_same hmove hne
      have hopening : Same graph.loop.call.opening state next :=
        ((hpushed "opening" (by decide)).trans (hlisted "opening" (by decide))).trans
          (hmoved "opening" (by decide))
      have hnow : next.conversation graph.duo.conversation = .ok c' :=
        ((hlisted "conversation" (by decide)).trans
          (hmoved "conversation" (by decide))).conversation.trans hconversation
      have hadded : graph.duo.Lists next c'
          (turns ++ [(Turn.new id (some graph.critic) step, kind)]) := by
        refine hlists.adds hlawful hgrown hnow (fun ids hids => ?_)
          (kind_recorded hauthors hmessage id (by rw [hmade])) rfl
        have hbefore : pushed.list graph.duo.turns = .ok ids :=
          (hpushed "call_turns" (by decide)).list.trans hids
        exact (hmoved "call_turns" (by decide)).list.trans (append_ok hbefore happend)
      have hposition : graph.loop.call.positionOf next = .ok (.Writing rank) :=
        ReactLoop.moveTo_position hmove
      have hid : graph.loop.call.turnId next rank = .ok id :=
        (ReactLoop.turnId_same hopening rank).trans (nextTurn_id hnextTurn)
      exact ⟨c', _, hadded, recorded_quiet hlawful hauthors hrested hgrown hposition hid⟩

theorem lastGeneration_snoc (turns : CallTurns) (turn : Turn) :
    CallTurns.lastGeneration (turns ++ [(turn, .Generation)]) = some turn := by
  simp [CallTurns.lastGeneration]

/-- The check of an answer: it records nothing, and then the answer is not empty while the critiques
are below the budget; or it records a critique below the budget, or a revision below its limit. -/
inductive Checked (graph : GeneratorCritic C) (caps : Caps) (state : State C) (turns : CallTurns)
    (turn : Turn) : List (Update C) → Prop
  | passes (hfull : graph.duo.empty turn = true → caps.budget ≤ turns.kinds.count .Critique) :
      Checked graph caps state turns turn []
  | rejects {text : String} {updates : List (Update C)}
      (hbelow : turns.kinds.count .Critique < caps.budget)
      (hrecords : graph.duo.record state .Critique text = .ok updates) :
      Checked graph caps state turns turn updates
  | revises {text : String} {updates : List (Update C)} (hbelow : inARow turns.kinds < caps.revisions)
      (hrecords : graph.duo.record state .Revision text = .ok updates) :
      Checked graph caps state turns turn updates

theorem check_checked (hreads : graph.router.Reads config caps) {turn : Turn}
    (hlists : graph.duo.Lists state c (turns ++ [(turn, .Generation)])) {given : Checking C}
    (hcheck : graph.duo.check given config state = .ok updates) :
    Checked graph caps state (turns ++ [(turn, .Generation)]) turn updates := by
  obtain ⟨answer, hanswer⟩ :=
    Option.isSome_iff_exists.mp (hlists.stepped (turn, .Generation) (by simp))
  have hbudget : graph.duo.budget.resolve config = .ok caps.budget := hreads.budget
  have hlimit : graph.duo.revisionLimit.resolve config = .ok caps.revisions := hreads.revisions
  unfold Duo.check at hcheck
  rw [hlists.callTurns] at hcheck
  dsimp only at hcheck
  rw [lastGeneration_snoc] at hcheck
  dsimp only at hcheck
  rw [hanswer, Duo.count, hbudget, hlists.conversation] at hcheck
  dsimp only at hcheck
  rw [CallTurns.critiques, CallTurns.count_kinds] at hcheck
  split at hcheck
  · split at hcheck
    · rename_i hspent
      cases hcheck
      exact .passes fun _ => hspent
    · rename_i hbelow
      split at hcheck
      · cases hcheck
      · split at hcheck
        · cases hcheck
        · exact .rejects (Nat.lt_of_not_le hbelow) hcheck
  · rename_i hfull
    split at hcheck
    · cases hcheck
      exact .passes fun hempty => absurd hempty hfull
    · split at hcheck
      · cases hcheck
      · cases hcheck
        exact .passes fun hempty => absurd hempty hfull
      · rw [hlimit] at hcheck
        dsimp only at hcheck
        rw [CallTurns.revisionsInARow_kinds] at hcheck
        split at hcheck
        · rename_i hbelow
          exact .revises hbelow hcheck
        · cases hcheck
          exact .passes fun hempty => absurd hempty hfull

/-- The critic records an acceptance or a critique of the answer that it judges. -/
theorem critique_records {turn : Turn}
    (hlists : graph.duo.Lists state c (turns ++ [(turn, .Generation)]))
    {ask : CriticFacts C → Except (GraphError C) Step}
    (hcritique : graph.duo.critique graph.criticSeat ask config state = .ok updates) :
    ∃ kind text, (kind = .Critique ∨ kind = .Acceptance) ∧
      graph.duo.record state kind text = .ok updates := by
  unfold Duo.critique at hcritique
  rw [hlists.callTurns] at hcritique
  dsimp only at hcritique
  rw [lastGeneration_snoc] at hcritique
  dsimp only at hcritique
  split at hcritique
  · cases hcritique
  · cases hcritique
  · cases hcritique
  · split at hcritique
    · cases hcritique
    · split at hcritique
      · split at hcritique
        · cases hcritique
        · exact ⟨.Acceptance, _, .inr rfl, hcritique⟩
      · split at hcritique
        · cases hcritique
        · exact ⟨.Critique, _, .inl rfl, hcritique⟩

theorem kind_generation {turn : Turn} (hauthor : turn.author = some graph.generator) :
    graph.duo.kind turn = some .Generation := by
  unfold Duo.kind
  rw [hauthor]
  exact if_pos rfl

/-- A reply of a generator that opens a turn adds it to the call. -/
theorem reply_adds (hlawful : Messages.Lawful C) (hcheck : graph.check = .ok ())
    (hlists : graph.duo.Lists state c turns) (hquiet : graph.loop.Quiet state c) {step : Step}
    (hreply : graph.loop.reply state step = .ok updates)
    (happlied : state.applyBatch updates = .ok next) {route : ReactLoop.Route}
    (hedge : graph.loop.llmEdge config next = .ok route) :
    ∃ c' turn, graph.duo.Lists next c' (turns ++ [(turn, .Generation)]) ∧
      graph.loop.OnTurn next c' turn ∧ graph.loop.Along C turn route.spot ∧
      ∃ id moved, graph.loop.target state c = .ok (.Open id moved) := by
  have hconversation : state.conversation graph.loop.key = .ok c := hlists.conversation
  cases htarget : graph.loop.target state c with
  | error error =>
    unfold ReactLoop.reply at hreply
    rw [hconversation] at hreply
    dsimp only at hreply
    rw [htarget] at hreply
    cases hreply
  | ok target =>
    cases target with
    | Step turn => exact absurd htarget (hquiet turn)
    | Open id moved =>
      obtain ⟨⟨c', hgrown, hon⟩, happended, -⟩ :=
        ReactLoop.reply_opens hlawful (loop_wired hcheck) hconversation htarget hreply happlied
      have hitems : (Turn.new id (some graph.loop.author) step).items = [] ++ [.Step step] := rfl
      have halong := hon.along hlawful hitems hedge
      refine ⟨c', _, ?_, hon, halong, id, moved, rfl⟩
      exact hlists.adds hlawful hgrown hon.conversation
        (fun ids hids => happended "call_turns" ids rfl hids) (kind_generation rfl) rfl

/-- A superstep of the generator's loop leaves the call with the turn that it changed. -/
theorem Lists.moved (hlawful : Messages.Lawful C) {here next : ReactLoop.Standing C} {c' : C}
    {turn changed : Turn} (hlists : graph.duo.Lists here.state c (turns ++ [(turn, .Generation)]))
    (hon : graph.loop.OnTurn here.state c turn)
    (hmoved : graph.loop.Moved here next c turn changed c') :
    graph.duo.Lists next.state c' (swap turn changed turns ++ [(changed, .Generation)]) := by
  obtain ⟨front, back, hbefore, hafter⟩ := hmoved.place
  have hgenerator : turn.author = some graph.duo.generator := (lastTurnByAuthor_iff.mp hon.last).1
  have hown : "call_turns" ∈ graph.loop.own := by
    have hown : graph.loop.own = ["conversation", "opening", "turn_rank", "call_turns"] := rfl
    rw [hown]
    decide
  have hapart : graph.loop.key ≠ "call_turns" := by
    have hkey : graph.loop.key = "conversation" := rfl
    rw [hkey]
    decide
  rw [← swap_last]
  exact hlists.changes hlawful hbefore hafter hmoved.id hmoved.author hgenerator
    hmoved.on.conversation (hmoved.own _ hown hapart).list hmoved.stepped

end Nodes

end GeneratorCritic

end LlmGraph.React
