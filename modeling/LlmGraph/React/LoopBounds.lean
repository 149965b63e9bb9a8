/- digest: The turn that a run of a ReAct loop opens under a round limit: its tool rounds, its model calls
   and the supersteps of the run are bounded, whatever the model and the tools say. -/

import LlmGraph.React.LoopRuns
import LlmGraph.Superstep.Cursor

set_option autoImplicit false
set_option relaxedAutoImplicit false

namespace LlmGraph.React

open Superstep (State Config Key Update)

variable {C : Type} [Messages C]

section Items

variable {turn : Turn} {earlier : List TurnItem} {reply : Step} {c : C}

theorem Turn.rounds_addStep (turn : Turn) (step : Step) : (turn.addStep step).rounds = turn.rounds := by
  unfold Turn.rounds Turn.addStep
  rw [List.filterMap_append]
  exact List.append_nil _

/-- Answers to a reply are one round more. -/
theorem Turn.rounds_withResults (hitems : turn.items = earlier ++ [.Step reply])
    {results : List ToolResult} (hsome : results ≠ []) :
    (turn.withResults results).rounds = turn.rounds ++ [results] := by
  unfold Turn.rounds
  rw [Turn.items_withResults_step hitems hsome, hitems, List.filterMap_append, List.filterMap_append,
    List.append_assoc]
  rfl

theorem reachedIn_addStep (turn : Turn) (step : Step) (max : Nat) :
    reachedIn (turn.addStep step) max = reachedIn turn max := by
  unfold reachedIn
  rw [Turn.rounds_addStep]

end Items

namespace ReactLoop

variable {loop : ReactLoop} {config : Config C} {limit : RoundLimit} {max : Nat}
  {before : List Entry}

/-- How often a turn under a limit has been at each place, by its rounds: either no round is the
limit node's, or the last one is and the loop goes on after it. -/
structure Counted (trace : List Spot) (rounds max : Nat) (limited : Bool) : Prop where
  tools : trace.count .tools + (if limited then 1 else 0) = rounds
  limit : trace.count .limit = if limited then 1 else 0
  within : trace.count .tools ≤ max
  all : limited = true → trace.count .tools = max
  after : trace.count .after = 0

/-- How far the turn is that a run opens: not opened, waiting for a step, for its tools or for the
limit node, or past its end. -/
inductive Turning (loop : ReactLoop) (config : Config C) (before : List Entry) (max : Nat)
    (trace : List Spot) : Standing C → Prop
  | fresh {state : State C} {c : C} {id : TurnId} {moved : Option Position} (hnothing : trace = [])
      (hconversation : state.conversation loop.key = .ok c) (hold : entries c = before)
      (hopens : loop.target state c = .ok (.Open id moved)) :
      Turning loop config before max trace ⟨.llm, state⟩
  | going {state : State C} {c : C} {turn : Turn} {limited : Bool} (hon : loop.OnTurn state c turn)
      (hadds : entries c = before ++ [.Turn turn]) (hawaits : turn.awaits = .AwaitingStep)
      (hcounted : Counted trace turn.rounds.length max limited)
      (hreplies : trace.count .llm = turn.rounds.length)
      (hreached : limited = true → reachedIn turn max = true ∧
        ∃ node, loop.limitNode = some node ∧ node.ends = false) :
      Turning loop config before max trace ⟨.llm, state⟩
  | calling {state : State C} {c : C} {turn : Turn} {earlier : List TurnItem} {reply : Step}
      {pending : List ToolCallId} (hon : loop.OnTurn state c turn)
      (hadds : entries c = before ++ [.Turn turn]) (hitems : turn.items = earlier ++ [.Step reply])
      (hawaits : turn.awaits = .AwaitingToolResults pending)
      (hcovered : ∀ call ∈ turn.pending C, call.name ∈ loop.covered)
      (hcounted : Counted trace turn.rounds.length max false)
      (hreplies : trace.count .llm = turn.rounds.length + 1) (hleft : turn.rounds.length < max) :
      Turning loop config before max trace ⟨.tools, state⟩
  | limiting {state : State C} {c : C} {turn : Turn} {earlier : List TurnItem} {reply : Step}
      {pending : List ToolCallId} (hon : loop.OnTurn state c turn)
      (hadds : entries c = before ++ [.Turn turn]) (hitems : turn.items = earlier ++ [.Step reply])
      (hawaits : turn.awaits = .AwaitingToolResults pending)
      (hcounted : Counted trace turn.rounds.length max false)
      (hreplies : trace.count .llm = turn.rounds.length + 1) (hspent : turn.rounds.length = max) :
      Turning loop config before max trace ⟨.limit, state⟩
  | past {state : State C} {c : C} {turn : Turn} {limited : Bool} (hon : loop.OnTurn state c turn)
      (hadds : entries c = before ++ [.Turn turn])
      (hended : ∀ pending, turn.awaits ≠ .AwaitingToolResults pending)
      (hcounted : Counted trace turn.rounds.length max limited)
      (hreplies : trace.count .llm ≤ turn.rounds.length + 1)
      (hclosed : limited = true → ∃ node, loop.limitNode = some node ∧
        (node.ends = true → trace.count .llm ≤ turn.rounds.length)) :
      Turning loop config before max trace ⟨.after, state⟩

/-- The last entry changes in its place. -/
private theorem in_place {turn changed : Turn} {c c' : C} {front back : List Entry}
    (hlawful : Messages.Lawful C) (hadds : entries c = before ++ [.Turn turn])
    (hentries : entries c = front ++ .Turn turn :: back)
    (hentries' : entries c' = front ++ .Turn changed :: back) :
    entries c' = before ++ [.Turn changed] := by
  obtain ⟨rfl, -, rfl⟩ := Lib.split_of_key (hlawful.distinct c) hadds hentries rfl
  exact hentries'

/-- A reply goes to the turn, which then is where the edge leads. -/
private theorem Turning.replied (hlawful : Messages.Lawful C) (hlimit : loop.roundLimit = some limit)
    (hmax : limit.maxRounds.resolve config = .ok max) {trace : List Spot} {state : State C} {c : C}
    {turn : Turn} {earlier : List TurnItem} {step : Step} {route : Route} {limited : Bool}
    (hon : loop.OnTurn state c turn) (hadds : entries c = before ++ [.Turn turn])
    (hitems : turn.items = earlier ++ [.Step step])
    (hcounted : Counted (trace ++ [.llm]) turn.rounds.length max limited)
    (hreplies : (trace ++ [Spot.llm]).count Spot.llm = turn.rounds.length + 1)
    (hreached : limited = true → reachedIn turn max = true ∧
      ∃ node, loop.limitNode = some node ∧ node.ends = false)
    (hedge : loop.llmEdge config state = .ok route) :
    Turning loop config before max (trace ++ [.llm]) ⟨route.spot, state⟩ := by
  have hunlimited : (limited = true → False) → limited = false := by
    cases limited <;> simp
  cases hon.leads hlawful hedge with
  | tools hawaits hcovered hleft' =>
    obtain ⟨bound, hbound, hleft⟩ := hleft' limit hlimit
    rw [hmax] at hbound
    cases hbound
    have hnone : limited = false := by
      refine hunlimited fun hlimited => ?_
      have htools := hcounted.tools
      rw [if_pos hlimited, hcounted.all hlimited] at htools
      omega
    subst hnone
    exact .calling hon hadds hitems hawaits hcovered hcounted hreplies hleft
  | @limit pending other bound node id hawaits hfound hresolved hspent hcloser hsame' hagain =>
    rw [hlimit] at hfound
    cases hfound
    rw [hmax] at hresolved
    cases hresolved
    have hnone : limited = false := by
      refine hunlimited fun hlimited => ?_
      obtain ⟨hmarked, same, hsame, hends⟩ := hreached hlimited
      rw [hcloser] at hsame
      cases hsame
      rw [hagain hends] at hmarked
      cases hmarked
    subst hnone
    have htools := hcounted.tools
    have hwithin := hcounted.within
    simp only [Bool.false_eq_true, if_false] at htools
    exact .limiting hon hadds hitems hawaits hcounted hreplies (by omega)
  | after hasks =>
    refine .past hon hadds hasks hcounted (le_of_eq hreplies) fun hlimited => ?_
    obtain ⟨-, node, hnode, hends⟩ := hreached hlimited
    refine ⟨node, hnode, fun hends' => ?_⟩
    rw [hends] at hends'
    cases hends'

private theorem Turning.step (hlawful : Messages.Lawful C) (hwired : loop.Wired)
    (hcheck : loop.check = .ok ()) (hlimit : loop.roundLimit = some limit)
    (hmax : limit.maxRounds.resolve config = .ok max) (hfits : max < 2 ^ 64) {trace : List Spot}
    {here next : Standing C} {spot : Spot} (hturning : Turning loop config before max trace here)
    (hstep : loop.Superstep config here spot next) :
    Turning loop config before max (trace ++ [spot]) next := by
  cases hstep with
  | @replies state next step updates route hreply happlied hgoes =>
    cases hturning with
    | @fresh _ c id moved hnothing hconversation hold hopens =>
      obtain ⟨⟨c', hadds, hon⟩, -⟩ :=
        reply_opens hlawful hwired hconversation hopens hreply happlied
      subst hnothing hold
      have hcounted : Counted [Spot.llm] 0 max false :=
        ⟨rfl, rfl, Nat.zero_le _, fun hlimited => (by cases hlimited), rfl⟩
      have hitems : (Turn.new id (some loop.author) step).items = [] ++ [.Step step] := rfl
      exact Turning.replied hlawful hlimit hmax hon hadds hitems hcounted rfl
        (fun hlimited => by cases hlimited) hgoes
    | @going _ c turn limited hon' hadds' hawaits' hcounted' hreplies' hreached =>
      obtain ⟨⟨c', front, back, hentries, hentries', hon⟩, -⟩ :=
        hon'.reply hlawful hwired hawaits' hreply happlied
      have hadds := in_place hlawful hadds' hentries hentries'
      have hrounds := congrArg List.length (Turn.rounds_addStep turn step)
      have hcounted : Counted (trace ++ [Spot.llm]) (turn.addStep step).rounds.length max limited := by
        refine ⟨?_, ?_, ?_, ?_, ?_⟩
        · simpa [hrounds] using hcounted'.tools
        · simpa using hcounted'.limit
        · simpa using hcounted'.within
        · simpa using hcounted'.all
        · simpa using hcounted'.after
      refine Turning.replied hlawful hlimit hmax hon hadds rfl hcounted ?_ ?_ hgoes
      · simp [hrounds, hreplies']
      · rw [reachedIn_addStep]
        exact hreached
  | @answers state next c turn given hconversation hlast hgives happlied =>
    cases hturning with
    | @calling _ c' turn' earlier reply pending hon' hadds' hitems' hawaits' hcovered hcounted'
      hreplies' hleft =>
      have hsame := hconversation.symm.trans hon'.conversation
      cases hsame
      rw [hon'.last] at hlast
      cases hlast
      obtain ⟨hpending, hcalls⟩ := pending_reply hlawful hon'.mem hitems' hawaits'
      obtain ⟨⟨c', front, back, hentries, hentries', hon⟩, hawaits, -⟩ :=
        hon'.answers hlawful hwired hcheck (hpending ▸ hcalls) hcovered hgives happlied
      have hadds := in_place hlawful hadds' hentries hentries'
      have hsome : resultsOf given ≠ [] := by
        intro hnone
        have hperm := hgives.perm hcheck hcovered
        rw [hnone] at hperm
        have hnil := hperm.symm.eq_nil
        rw [List.map_eq_nil_iff] at hnil
        exact hcalls (hpending ▸ hnil)
      have hrounds := congrArg List.length (Turn.rounds_withResults hitems' hsome)
      rw [List.length_append, List.length_singleton] at hrounds
      have htools := hcounted'.tools
      have hlimits := hcounted'.limit
      have hafter := hcounted'.after
      simp only [Bool.false_eq_true, if_false] at htools hlimits
      have hcount : (trace ++ [Spot.tools]).count Spot.tools = trace.count .tools + 1 := by
        rw [List.count_append, List.count_singleton_self]
      have hcounted : Counted (trace ++ [Spot.tools])
          (turn.withResults (resultsOf given)).rounds.length max false := by
        refine ⟨?_, ?_, ?_, fun hlimited => (by cases hlimited), ?_⟩
        · rw [hcount, hrounds, if_neg Bool.false_ne_true]
          omega
        · simp [hlimits]
        · rw [hcount]
          omega
        · simp [hafter]
      refine .going hon hadds hawaits hcounted ?_ fun hlimited => by cases hlimited
      simp [hrounds, hreplies']
  | @limits state next node updates hcloser hran happlied =>
    cases hturning with
    | @limiting _ c turn earlier reply pending hon' hadds' hitems' hawaits' hcounted' hreplies'
      hspent =>
      have hbound : node.maxRounds = limit.maxRounds := by
        unfold limitNode at hcloser
        rw [hlimit, Option.bind_some] at hcloser
        split at hcloser <;> cases hcloser <;> rfl
      obtain ⟨hpending, hcalls⟩ := pending_reply hlawful hon'.mem hitems' hawaits'
      obtain ⟨⟨c', front, back, hentries, hentries', hon⟩, -⟩ :=
        hon'.limited hlawful hwired hcloser (hbound ▸ hmax) hran happlied
      have hadds := in_place hlawful hadds' hentries hentries'
      have hsome : (turn.pending C).map (LimitNode.answer (refusal max)) ≠ [] := by
        rw [hpending]
        exact fun hnil => hcalls (List.map_eq_nil_iff.mp hnil)
      have hanswered := Turn.rounds_withResults hitems' hsome
      have hrounds := congrArg List.length hanswered
      rw [List.length_append, List.length_singleton] at hrounds
      have htools := hcounted'.tools
      have hlimits := hcounted'.limit
      have hafter := hcounted'.after
      simp only [Bool.false_eq_true, if_false] at htools hlimits
      have hcounted : Counted (trace ++ [Spot.limit]) (turn.rounds.length + 1) max true := by
        refine ⟨?_, ?_, ?_, fun _ => ?_, ?_⟩
        · simp [htools]
        · simp [hlimits]
        · simpa using hcounted'.within
        · simp only [List.count_append]
          simpa [htools] using hspent
        · simp [hafter]
      have hreplies : (trace ++ [Spot.limit]).count Spot.llm = turn.rounds.length + 1 := by
        simp [hreplies']
      unfold ReactLoop.limited at hon hadds
      dsimp only at hon hadds
      cases hends : node.ends with
      | true =>
        rw [hends, if_pos rfl] at hon hadds
        rw [← hrounds, ← Turn.rounds_addStep _ (closingStep max)] at hcounted hreplies
        refine .past hon hadds (fun pending => ?_) hcounted (by omega) fun _ =>
          ⟨node, hcloser, fun _ => le_of_eq hreplies⟩
        unfold Turn.awaits Turn.addStep
        rw [List.reverse_append]
        exact fun hawaits => by cases hawaits
      | false =>
        rw [hends, if_neg Bool.false_ne_true] at hon hadds
        refine .going hon hadds ?_ (hrounds ▸ hcounted) (hreplies.trans hrounds.symm)
          fun _ => ⟨?_, node, hcloser, hends⟩
        · refine Turn.answered_awaits hlawful hon'.mem (hpending ▸ hcalls) ?_
          rw [List.map_map]
          exact List.Perm.of_eq (List.map_congr_left fun call _ => rfl)
        · refine reachedIn_of_round hanswered (le_of_eq hspent.symm) ?_
          refine refusalsOnly_of_all hsome fun result hresult => ?_
          obtain ⟨call, -, rfl⟩ := List.mem_map.mp hresult
          exact isRefusal_iff.mpr ⟨rfl, max, hfits, rfl⟩

/-- What a standing says of the turn and of how often each place was visited. -/
private theorem Turning.counts {trace : List Spot} {last : Standing C}
    (hturning : Turning loop config before max trace last) :
    (trace ≠ [] → ∃ c turn, loop.OnTurn last.state c turn ∧ entries c = before ++ [.Turn turn] ∧
      turn.rounds.length = trace.count .tools + trace.count .limit) ∧
    ∃ rounds limited, Counted trace rounds max limited ∧ trace.count .llm ≤ rounds + 1 ∧
      (limited = true → ∃ node, loop.limitNode = some node ∧
        (node.ends = true → trace.count .llm ≤ rounds)) := by
  have hrounds : ∀ {rounds : Nat} {limited : Bool}, Counted trace rounds max limited →
      rounds = trace.count .tools + trace.count .limit :=
    fun hcounted => by rw [hcounted.limit, hcounted.tools]
  cases hturning with
  | fresh hnothing hconversation hold hopens =>
    subst hnothing
    refine ⟨fun hsome => absurd rfl hsome, 0, false, ?_, Nat.zero_le _, fun hlimited => ?_⟩
    · exact ⟨rfl, rfl, Nat.zero_le _, fun hlimited => (by cases hlimited), rfl⟩
    · cases hlimited
  | going hon hadds hawaits hcounted' hreplies hreached =>
    refine ⟨fun _ => ⟨_, _, hon, hadds, hrounds hcounted'⟩, _, _, hcounted', by omega,
      fun hlimited => ?_⟩
    obtain ⟨-, node, hnode, -⟩ := hreached hlimited
    exact ⟨node, hnode, fun _ => by omega⟩
  | calling hon hadds hitems hawaits hcovered hcounted' hreplies hleft =>
    refine ⟨fun _ => ⟨_, _, hon, hadds, hrounds hcounted'⟩, _, _, hcounted', by omega,
      fun hlimited => ?_⟩
    cases hlimited
  | limiting hon hadds hitems hawaits hcounted' hreplies hspent =>
    refine ⟨fun _ => ⟨_, _, hon, hadds, hrounds hcounted'⟩, _, _, hcounted', by omega,
      fun hlimited => ?_⟩
    cases hlimited
  | past hon hadds hended hcounted' hreplies hclosed =>
    exact ⟨fun _ => ⟨_, _, hon, hadds, hrounds hcounted'⟩, _, _, hcounted', hreplies, hclosed⟩

private theorem length_by_spot (trace : List Spot) :
    trace.length =
      trace.count .llm + trace.count .tools + trace.count .limit + trace.count .after := by
  induction trace with
  | nil => rfl
  | cons spot rest ih => cases spot <;> simp [ih] <;> omega

/-- A run that opens a turn under a limit writes that turn alone. No more rounds than the limit are of
the tools, and the limit node answers at most one, the last of them; the model is called once a round,
once after the last, and once more where the limit node goes back to it. -/
theorem rounds_bounded (hlawful : Messages.Lawful C) (loop : ReactLoop) (hwired : loop.Wired)
    (hcheck : loop.check = .ok ()) (limit : RoundLimit) (hlimit : loop.roundLimit = some limit)
    (config : Config C) (max : Nat) (hmax : limit.maxRounds.resolve config = .ok max)
    (hfits : max < 2 ^ 64) (state : State C) (c : C) (id : TurnId) (moved : Option Position)
    (hconversation : state.conversation loop.key = .ok c)
    (hopens : loop.target state c = .ok (.Open id moved)) (trace : List Spot) (last : Standing C)
    (hruns : loop.Runs config ⟨.llm, state⟩ trace last) :
    (trace ≠ [] → ∃ c' turn, last.state.conversation loop.key = .ok c' ∧
      entries c' = entries c ++ [.Turn turn] ∧ turn.author = some loop.author ∧
      turn.rounds.length = trace.count .tools + trace.count .limit) ∧
    trace.count .tools ≤ max ∧
    trace.count .limit ≤ 1 ∧ (trace.count .limit = 1 → trace.count .tools = max) ∧
    trace.count .llm ≤ max + (if loop.limitNode.any fun node => !node.ends then 2 else 1) ∧
    trace.length ≤ 2 * max + 3 := by
  have hturning : Turning loop config (entries c) max trace last :=
    hruns.invariant (.fresh rfl hconversation rfl hopens) fun labels middle spot next hhere hstep =>
      Turning.step hlawful hwired hcheck hlimit hmax hfits hhere hstep
  obtain ⟨hturn, rounds, limited, hcounted, hreplies, hclosed⟩ := hturning.counts
  have hlength := length_by_spot trace
  have htools := hcounted.tools
  have hwithin := hcounted.within
  have hlimits := hcounted.limit
  have hafter := hcounted.after
  have hcalls : trace.count .llm ≤
      max + (if loop.limitNode.any fun node => !node.ends then 2 else 1) := by
    cases hlimited : limited with
    | false =>
      rw [hlimited, if_neg Bool.false_ne_true] at htools
      split <;> omega
    | true =>
      obtain ⟨node, hnode, hends⟩ := hclosed hlimited
      rw [hlimited, if_pos rfl] at htools
      rw [hnode]
      cases hnode' : node.ends with
      | false => simp only [Option.any_some, hnode', Bool.not_false, if_true]; omega
      | true =>
        have := hends hnode'
        simp only [Option.any_some, hnode', Bool.not_true, Bool.false_eq_true, if_false]
        omega
  refine ⟨fun hsome => ?_, hwithin, ?_, fun hone => ?_, hcalls, ?_⟩
  · obtain ⟨c', turn, hon, hadds, hrounds⟩ := hturn hsome
    exact ⟨c', turn, hon.conversation, hadds, (lastTurnByAuthor_iff.mp hon.last).1, hrounds⟩
  · split at hlimits <;> omega
  · refine hcounted.all ?_
    cases hlimited : limited with
    | false =>
      rw [hlimited, if_neg Bool.false_ne_true] at hlimits
      omega
    | true => rfl
  · have : (if loop.limitNode.any fun node => !node.ends then 2 else 1) ≤ 2 := by split <;> omega
    split at htools <;> split at hlimits <;> omega

end ReactLoop

namespace Cut

/-- One round is allowed, and the limit node goes back to the model. -/
def loop : ReactLoop := { Searching.loop with
  roundLimit := some ⟨.fixed 1 Nat.one_pos, .Continue "limit" "limited"⟩ }

def asks (id : ToolCallId) : Step := ⟨[.ToolCall ⟨id, "read", ""⟩], .AwaitingToolResults, none, none⟩

def config : Config PlainMessages := ⟨[], fun _ => none⟩

def question : PlainMessages where
  entries := [.UserInput ⟨"u", "find it"⟩]
  sound := by decide +kernel

def opened : State PlainMessages where
  schema := ⟨[("conversation", .conversation), ("opening", .conversation), ("turn_rank", .int),
    ("thread", .list .str), ("limited", .bool)], [], []⟩
  values := fun key =>
    if key = "conversation" || key = "opening" then some (.conversation question)
    else if key = "turn_rank" then some (.int 0)
    else if key = "thread" then some (.list [])
    else some (.bool false)

/-- The updates of a reply that calls a tool. -/
def called (state : State PlainMessages) (id : ToolCallId) : List (Update PlainMessages) :=
  ((loop.reply state (asks id)).toOption).getD []

/-- The state after some updates. -/
def after (state : State PlainMessages) (updates : List (Update PlainMessages)) :
    State PlainMessages := ((state.applyBatch updates).toOption).getD state

def first : State PlainMessages := after opened (called opened "c1")

/-- The second node answers the call, the first one has none. -/
def given : List (List (ToolResult × List (Update PlainMessages))) :=
  [[], [(⟨"c1", "read", [.Text "found"], false⟩, [])]]

def second : State PlainMessages :=
  after (after first (((loop.batches "t0" given)[0]?).getD []))
    (((loop.batches "t0" given)[1]?).getD [])

def third : State PlainMessages := after second (called second "c2")

def node : LimitNode := ⟨"conversation", Searching.author, .fixed 1 Nat.one_pos, "limited", false⟩

def fourth : State PlainMessages := after third (((node.run config third).toOption).getD [])

theorem after_ok {state : State PlainMessages} {updates : List (Update PlainMessages)}
    (hsome : (state.applyBatch updates).toOption.isSome = true) :
    state.applyBatch updates = .ok (after state updates) := by
  unfold after
  cases hresult : state.applyBatch updates with
  | error error =>
    rw [hresult] at hsome
    cases hsome
  | ok next => rfl

theorem wired : loop.Wired where
  apart := by decide
  flag := by
    intro found hfound
    cases hfound
    decide

theorem spares {share : List (ToolResult × List (Update PlainMessages))} (hmem : share ∈ given) :
    ∀ answer ∈ share, Spares loop.own answer.2 := by
  intro answer hanswer
  simp only [given, List.mem_cons, List.not_mem_nil, or_false] at hmem
  rcases hmem with rfl | rfl
  · cases hanswer
  · cases List.mem_singleton.mp hanswer
    exact fun update hupdate => by cases hupdate

theorem runs : loop.Runs config ⟨.llm, opened⟩ [.llm, .tools, .llm, .limit] ⟨.llm, fourth⟩ := by
  have hfirst : loop.Superstep config ⟨.llm, opened⟩ .llm ⟨.tools, first⟩ := by
    have hreply : loop.reply opened (asks "c1") = .ok (called opened "c1") := rfl
    have hedge : loop.llmEdge config first = .ok .Tools := rfl
    exact .replies hreply (after_ok (by decide +kernel)) hedge
  have hsecond : loop.Superstep config ⟨.tools, first⟩ .tools ⟨.llm, second⟩ := by
    have hturn : lastTurnByAuthor (C := PlainMessages)
      ⟨[.UserInput ⟨"u", "find it"⟩, .Turn (.new "t0" (some Searching.author) (asks "c1"))],
        by decide +kernel⟩ loop.author = some (.new "t0" (some Searching.author) (asks "c1")) := rfl
    refine .answers rfl hturn ⟨rfl, fun share hmem => spares hmem⟩ ?_
    refine Lib.foldlM_cons_ok.mpr ⟨_, after_ok (by decide +kernel), Lib.foldlM_single_ok.mpr ?_⟩
    exact after_ok (by decide +kernel)
  have hthird : loop.Superstep config ⟨.llm, second⟩ .llm ⟨.limit, third⟩ := by
    have hreply : loop.reply second (asks "c2") = .ok (called second "c2") := rfl
    have hedge : loop.llmEdge config third = .ok (.Limit "limit") := rfl
    exact .replies hreply (after_ok (by decide +kernel)) hedge
  have hfourth : loop.Superstep config ⟨.limit, third⟩ .limit ⟨.llm, fourth⟩ := by
    have hnode : loop.limitNode = some node := rfl
    have hrun : node.run config third = .ok (((node.run config third).toOption).getD []) := rfl
    exact .limits hnode hrun (after_ok (by decide +kernel))
  exact (((Lib.Trace.single hfirst).snoc hsecond).snoc hthird).snoc hfourth

end Cut

theorem rounds_bounded_cut :
    ∃ c turn, Cut.fourth.conversation "conversation" = .ok c ∧
      entries c = entries Cut.question ++ [.Turn turn] ∧ turn.rounds.length = 2 := by
  have hmax : (Superstep.Limit.fixed 1 Nat.one_pos).resolve Cut.config = .ok 1 := rfl
  have hopens : Cut.loop.target Cut.opened Cut.question = .ok (.Open "t0" none) := rfl
  obtain ⟨c, turn, hconversation, hadds, -, hrounds⟩ :=
    (ReactLoop.rounds_bounded PlainMessages.lawful Cut.loop Cut.wired (by decide +kernel) _ rfl
      Cut.config 1 hmax (by decide) Cut.opened Cut.question "t0" none rfl hopens
      [.llm, .tools, .llm, .limit] ⟨.llm, Cut.fourth⟩ Cut.runs).1 (List.cons_ne_nil _ _)
  exact ⟨c, turn, hconversation, hadds, hrounds⟩

end LlmGraph.React
