/- digest: Where a run can stand: plain nodes before joins, nothing twice, nothing targeted lost, and
   one end label when nothing is left to run. -/

import LlmGraph.Superstep.Run

set_option autoImplicit false
set_option relaxedAutoImplicit false

namespace LlmGraph.Superstep

open Lib (mem_pushAll)

variable {C : Type} [Conversation C]

def Standing.cursor (here : Standing C) : Cursor := ⟨here.active, here.deferred⟩

def Settled.cursor (settled : Settled C) : Cursor := ⟨settled.active, settled.deferred⟩

/-- The checkpoint that a run which has not finished gives back. -/
def Outcome.checkpoint : Outcome C → Option (Checkpoint C)
  | .Finished _ _ => none
  | .Paused checkpoint | .Cancelled checkpoint | .Failed _ checkpoint => some checkpoint

/-- Active and deferred are disjoint and duplicate-free, the active nodes are all plain or all
joins, and only joins are deferred. -/
structure CursorInvariant (graph : Graph C) (cursor : Cursor) : Prop where
  active_nodup : cursor.active.Nodup
  deferred_nodup : cursor.deferred.Nodup
  disjoint : cursor.active.Disjoint cursor.deferred
  kinds : (∀ id ∈ cursor.active, graph.isJoin id = false) ∨
    (∀ id ∈ cursor.active, graph.isJoin id = true)
  deferred_joins : ∀ id ∈ cursor.deferred, graph.isJoin id = true

/-- The edge of an active node gives a target on the state that the superstep leads to. -/
def Targeted (graph : Graph C) (now : Nat) (config : Config C) (state : State C)
    (active : List NodeId) (target : Target) : Prop :=
  ∃ id ∈ active, ∃ targets, graph.evaluateEdge now config state id = .ok targets ∧ target ∈ targets

/-- What a superstep does to the cursor: the next one holds the targeted nodes and those deferred
before, a run that goes on has something to run, and a run that finishes has nothing targeted or
deferred and one label. -/
structure Accounted (graph : Graph C) (config : Config C) (here : Standing C)
    (schedule : Schedule C) (stepped : Stepped C) : Prop where
  kept : ∀ settled, stepped.settled = some settled → ∀ id,
    id ∈ settled.active ∨ id ∈ settled.deferred ↔
      Targeted graph schedule.now config settled.state here.active (.Node id) ∨ id ∈ here.deferred
  goes : ∀ next, stepped.ending = .goes next →
    ∃ settled, stepped.settled = some settled ∧ next.cursor = settled.cursor ∧
      next.state = settled.state ∧ next.active ≠ []
  paused : ∀ given, stepped.ending = .ends (.Paused given) →
    ∃ settled, stepped.settled = some settled ∧
      given.cursor = graph.checkpointCursor settled.cursor ∧ given.cursor.active ≠ []
  finished : ∀ final label, stepped.ending = .ends (.Finished final label) →
    ∃ settled, stepped.settled = some settled ∧
      (∀ id, ¬Targeted graph schedule.now config settled.state here.active (.Node id)) ∧
      here.deferred = [] ∧
      ∀ other, Targeted graph schedule.now config settled.state here.active (.End other) ↔
        other = label
  resumable : ∀ outcome given, stepped.ending = .ends outcome → outcome.checkpoint = some given →
    CursorInvariant graph given.cursor

namespace CursorInvariant

variable {graph : Graph C}

/-- A run from the entry stands at one node. -/
theorem entry (graph : Graph C) : CursorInvariant graph ⟨[graph.entry], []⟩ where
  active_nodup := List.nodup_singleton _
  deferred_nodup := List.nodup_nil
  disjoint := by simp
  kinds := by
    cases hkind : graph.isJoin graph.entry
    · exact Or.inl (by simpa using hkind)
    · exact Or.inr (by simpa using hkind)
  deferred_joins := by simp

/-- The next sets keep the invariant, whatever is targeted and deferred. -/
theorem nextSets (graph : Graph C) (produced deferred : List NodeId) :
    CursorInvariant graph ⟨(nextSets graph produced deferred).1,
      (Superstep.nextSets graph produced deferred).2⟩ := by
  have hdistinct := nodup_nextSets graph produced deferred
  obtain ⟨hkinds, hjoins⟩ := kinds_nextSets graph produced deferred
  rw [List.nodup_append'] at hdistinct
  refine ⟨hdistinct.1, hdistinct.2.1, hdistinct.2.2, ?_, hjoins⟩
  exact hkinds.imp_right And.left

/-- A checkpoint names the cursor itself, or the entry. -/
theorem checkpointCursor {cursor : Cursor} (hinvariant : CursorInvariant graph cursor) :
    CursorInvariant graph (graph.checkpointCursor cursor) := by
  unfold Graph.checkpointCursor
  split
  · exact hinvariant
  · exact entry graph

end CursorInvariant

section Step

variable {graph : Graph C} {now : Nat} {config : Config C} {state : State C} {results : Results C}
  {inputs : List (Update C)} {active deferred : List NodeId} {settled : Settled C}

/-- The targets that are gathered in registration order are those of the active nodes. -/
private theorem mem_targets {targets : List Target} (hknown : ∀ id ∈ active, id ∈ graph.order)
    (hgathered : graph.targetsOf now config state (graph.order.filter (· ∈ active)) = .ok targets)
    (target : Target) :
    target ∈ targets ↔ Targeted graph now config state active target := by
  rw [Graph.mem_targetsOf hgathered]
  constructor
  · rintro ⟨id, hmember, hfound⟩
    exact ⟨id, by simpa using (List.mem_filter.mp hmember).2, hfound⟩
  · rintro ⟨id, hmember, hfound⟩
    exact ⟨id, List.mem_filter.mpr ⟨hknown id hmember, by simpa using hmember⟩, hfound⟩

private theorem mem_produced {targets : List Target} (id : NodeId) :
    id ∈ Lib.pushAll [] (targets.filterMap Target.node?) ↔ .Node id ∈ targets := by
  rw [mem_pushAll, List.mem_filterMap]
  constructor
  · rintro (hnothing | ⟨target, hmember, hnamed⟩)
    · cases hnothing
    · rcases target with other | label
      · cases hnamed
        exact hmember
      · cases hnamed
  · intro hmember
    exact Or.inr ⟨_, hmember, rfl⟩

private theorem mem_ends {targets : List Target} (label : EndLabel) :
    label ∈ targets.filterMap Target.end? ↔ .End label ∈ targets := by
  rw [List.mem_filterMap]
  constructor
  · rintro ⟨target, hmember, hnamed⟩
    rcases target with other | label
    · cases hnamed
    · cases hnamed
      exact hmember
  · intro hmember
    exact ⟨_, hmember, rfl⟩

variable (hsettling : SettledBy graph now config state results inputs active deferred settled)

include hsettling

/-- What a settled superstep leaves to run is what its edges target and what was deferred. -/
theorem SettledBy.kept (hknown : ∀ id ∈ active, id ∈ graph.order) (id : NodeId) :
    id ∈ settled.active ∨ id ∈ settled.deferred ↔
      Targeted graph now config settled.state active (.Node id) ∨ id ∈ deferred := by
  obtain ⟨targets, hgathered, hsets, -⟩ := hsettling.routed
  have hboth := mem_nextSets graph (Lib.pushAll [] (targets.filterMap Target.node?)) deferred id
  rw [← hsets, List.mem_append] at hboth
  rw [hboth, mem_produced, mem_targets hknown hgathered]

theorem SettledBy.invariant : CursorInvariant graph settled.cursor := by
  obtain ⟨targets, -, hsets, -⟩ := hsettling.routed
  have hinvariant := CursorInvariant.nextSets graph
    (Lib.pushAll [] (targets.filterMap Target.node?)) deferred
  rw [← hsets] at hinvariant
  exact hinvariant

/-- Where the run goes on there is a node to run. -/
theorem SettledBy.active_ne (hunended : settled.ending = none) : settled.active ≠ [] := by
  obtain ⟨targets, -, hsets, ⟨-, hsomething⟩ | ⟨label, hended, -⟩⟩ := hsettling.routed
  · intro hidle
    have hfirst : (nextSets graph _ deferred).1 = [] := (congrArg Prod.fst hsets).symm.trans hidle
    have hsecond := nextSets_empty graph hfirst
    rw [← hsets] at hsecond
    exact hsomething.elim (· hidle) (· hsecond)
  · rw [hunended] at hended
    cases hended

/-- Where the run ends nothing is targeted or deferred, and every end that was given is the
label. -/
theorem SettledBy.finished (hknown : ∀ id ∈ active, id ∈ graph.order) {label : EndLabel}
    (hended : settled.ending = some label) :
    (∀ id, ¬Targeted graph now config settled.state active (.Node id)) ∧ deferred = [] ∧
      ∀ other, Targeted graph now config settled.state active (.End other) ↔ other = label := by
  have hkept := hsettling.kept hknown
  obtain ⟨targets, hgathered, hsets, ⟨hunended, -⟩ | ⟨own, hgiven, hidle, hnoneDeferred, hsingle⟩⟩ :=
    hsettling.routed
  · rw [hunended] at hended
    cases hended
  · rw [hgiven] at hended
    cases hended
    rw [hidle, hnoneDeferred] at hkept
    refine ⟨fun id htargeted => ?_, ?_, fun other => ?_⟩
    · simpa using (hkept id).mpr (Or.inl htargeted)
    · rw [List.eq_nil_iff_forall_not_mem]
      intro id hmember
      simpa using (hkept id).mpr (Or.inr hmember)
    · rw [← mem_targets hknown hgathered, ← mem_ends, singleEnd_ok hsingle]

/-- Every node that is left to run is a node of the graph. -/
theorem SettledBy.known (hknown : ∀ id ∈ active ++ deferred, id ∈ graph.order) :
    ∀ id ∈ settled.active ++ settled.deferred, id ∈ graph.order := by
  intro id hmember
  rcases (hsettling.kept (fun id hinside => hknown id (List.mem_append_left _ hinside)) id).mp
    (List.mem_append.mp hmember) with ⟨node, -, targets, hevaluated, hnamed⟩ | hbefore
  · exact Graph.evaluateEdge_known hevaluated hnamed
  · exact hknown id (List.mem_append_right _ hbefore)

end Step

section Runs

variable [DecidableEq C] {graph : Graph C} {config : Config C} {ctx : Context}
  {start here next : Standing C} {schedule : Schedule C} {stepped : Stepped C}

/-- The nodes that a run names are nodes of the graph. -/
private def Known (graph : Graph C) (here : Standing C) : Prop :=
  ∀ id ∈ here.active ++ here.deferred, id ∈ graph.order

/-- A superstep that the run goes on from was settled. -/
theorem goes_settled (htaken : superstep graph config ctx here schedule = some stepped)
    (hgoes : stepped.ending = .goes next) :
    ∃ results settled store, stepped.results = some results ∧ stepped.settled = some settled ∧
      settle graph schedule.now config here.state results (inputUpdates stepped.driven.held)
        here.active here.deferred ctx stepped.driven.store = (.ok settled, store) ∧
      settled.ending = none ∧
      next = ⟨settled.state, settled.active, settled.deferred, ctx.dropPending store here.active⟩ := by
  rcases superstep_cases htaken with ⟨-, -, hending⟩ | ⟨_, _, _, -, -, -, hending⟩ |
    ⟨results, settled, store, hresult, hfound, hsettling, hending⟩
  · rw [hending] at hgoes
    cases hgoes
  · rw [hending] at hgoes
    cases hgoes
  · rw [hending, proceed] at hgoes
    split at hgoes
    · cases hgoes
    · rename_i hunended
      split at hgoes
      · cases hgoes
      · cases hgoes
        exact ⟨results, settled, store, hresult, hfound, hsettling, hunended, rfl⟩

private theorem invariant_goes (hknown : Known graph here)
    (hgoes : Goes graph config ctx here next) :
    Known graph next ∧ CursorInvariant graph next.cursor := by
  obtain ⟨schedule, stepped, htaken, hending⟩ := hgoes
  obtain ⟨_, settled, _, -, -, hsettling, -, rfl⟩ := goes_settled htaken hending
  exact ⟨(settle_ok hsettling).known hknown, (settle_ok hsettling).invariant⟩

private theorem accounted (hknown : Known graph here)
    (hinvariant : CursorInvariant graph here.cursor)
    (htaken : superstep graph config ctx here schedule = some stepped) :
    Accounted graph config here schedule stepped := by
  have hactive : ∀ id ∈ here.active, id ∈ graph.order :=
    fun id hmember => hknown id (List.mem_append_left _ hmember)
  have hexits : ∀ inputs, ∀ given,
      (cancelled graph ctx stepped.driven.store here.state inputs here.active
        here.deferred).checkpoint = some given →
      given.cursor = graph.checkpointCursor here.cursor := by
    intro inputs given hfound
    unfold cancelled at hfound
    split at hfound
    · cases hfound
      rfl
    · cases hfound
      rfl
  rcases superstep_cases htaken with ⟨-, hunsettled, hending⟩ | ⟨_, _, _, -, hunsettled, -, hending⟩ |
    ⟨results, settled, store, -, hfound, hsettling, hending⟩
  · have hunfinished : ∀ inputs final label, cancelled graph ctx stepped.driven.store here.state
        inputs here.active here.deferred ≠ .Finished final label := by
      intro inputs final label
      unfold cancelled
      split <;> simp [fail]
    have hunpaused : ∀ inputs given, cancelled graph ctx stepped.driven.store here.state
        inputs here.active here.deferred ≠ .Paused given := by
      intro inputs given
      unfold cancelled
      split <;> simp [fail]
    refine ⟨by simp [hunsettled], by simp [hending], ?_, ?_, ?_⟩
    · intro given hpaused
      rw [hending, StepEnd.ends.injEq] at hpaused
      exact absurd hpaused (hunpaused _ _)
    · intro final label hfinished
      rw [hending, StepEnd.ends.injEq] at hfinished
      exact absurd hfinished (hunfinished _ _ _)
    · intro outcome given hends hheld
      rw [hending, StepEnd.ends.injEq] at hends
      subst hends
      rw [hexits _ _ hheld]
      exact hinvariant.checkpointCursor
  · refine ⟨by simp [hunsettled], by simp [hending], by simp [hending, fail], by simp [hending, fail],
      ?_⟩
    intro outcome given hends hheld
    rw [hending, StepEnd.ends.injEq] at hends
    subst hends
    cases hheld
    exact hinvariant.checkpointCursor
  · have hsettledBy := settle_ok hsettling
    refine ⟨?_, ?_, ?_, ?_, ?_⟩
    · intro other hsame id
      rw [hfound] at hsame
      cases hsame
      exact hsettledBy.kept hactive id
    · intro next hgoes
      obtain ⟨_, other, _, -, hsame, -, hunended, rfl⟩ := goes_settled htaken hgoes
      rw [hfound] at hsame
      cases hsame
      exact ⟨settled, hfound, rfl, rfl, hsettledBy.active_ne hunended⟩
    · intro given hpaused
      rw [hending, proceed] at hpaused
      split at hpaused
      · cases hpaused
      · rename_i hunended
        split at hpaused
        · cases hpaused
          refine ⟨settled, hfound, rfl, ?_⟩
          have hruns := hsettledBy.active_ne hunended
          unfold checkpoint Graph.checkpointCursor
          dsimp only
          split
          · exact hruns
          · simp
        · cases hpaused
    · intro final label hfinished
      rw [hending, proceed] at hfinished
      split at hfinished
      · rename_i own hended
        cases hfinished
        exact ⟨settled, hfound, hsettledBy.finished hactive hended⟩
      · split at hfinished
        · cases hfinished
        · cases hfinished
    · intro outcome given hends hheld
      rw [hending, proceed] at hends
      split at hends
      · cases hends
        cases hheld
      · split at hends
        · cases hends
          cases hheld
          exact hsettledBy.invariant.checkpointCursor
        · cases hends

/-- A run stands at the cursor it is given, or at the entry. -/
theorem enter_ok {store : PendingWrites C} {state : State C} {cursor : Option Cursor}
    (hentered : enter graph ctx store state cursor = .ok start) :
    start.cursor = cursor.getD ⟨[graph.entry], []⟩ ∧ start.state = graph.enterPrivate state ∧
      start.store = store ∧ ∀ id ∈ start.active ++ start.deferred, id ∈ graph.order := by
  unfold enter at hentered
  dsimp only at hentered
  split at hentered
  · cases hentered
  · split at hentered
    · cases hentered
    · rename_i hvalid
      cases hentered
      exact ⟨rfl, rfl, rfl, Graph.validateCursor_ok hvalid⟩

/-- Wherever a run comes to from its entry, or from a cursor that satisfies the invariant, the
invariant holds and every superstep accounts for its targets. -/
theorem cursor_invariants (graph : Graph C) (config : Config C) (ctx : Context)
    (store : PendingWrites C) (state : State C) (cursor : Option Cursor)
    (hgiven : ∀ from_, cursor = some from_ → CursorInvariant graph from_) (start here : Standing C)
    (hentered : enter graph ctx store state cursor = .ok start)
    (hreached : Relation.ReflTransGen (Goes graph config ctx) start here) :
    CursorInvariant graph here.cursor ∧ ∀ schedule stepped,
      superstep graph config ctx here schedule = some stepped →
        Accounted graph config here schedule stepped := by
  obtain ⟨hstands, -, -, hknown⟩ := enter_ok hentered
  have hfirst : CursorInvariant graph start.cursor := by
    rw [hstands]
    cases cursor with
    | none => exact CursorInvariant.entry graph
    | some from_ => exact hgiven from_ rfl
  have hholds : Known graph here ∧ CursorInvariant graph here.cursor := by
    induction hreached with
    | refl => exact ⟨hknown, hfirst⟩
    | tail _ hgoes hstep => exact invariant_goes hstep.1 hgoes
  exact ⟨hholds.2, fun schedule stepped htaken => accounted hholds.1 hholds.2 htaken⟩

end Runs

/-- A conversation library that takes everything and keeps nothing. -/
instance : Conversation Unit where
  UserInput := String
  Turn := String
  TurnId := String
  Step := String
  ToolResult := String
  MessageError := String
  new := ()
  pushInput _ _ := .ok ()
  pushTurn _ _ := .ok ()
  pushStep _ _ _ := .ok ()
  pushResult _ _ _ := .ok ()
  displayTurnId id := id
  displayError text := text

namespace Fork

def schema : Schema Unit where
  state := [("chat", .conversation), ("item", .str), ("items", .list .str), ("outs", .list .str)]
  config := []
  defaults := []

def config : Config Unit := ⟨[], fun _ => none⟩

def state : State Unit where
  schema := schema
  values key := ([("chat", .conversation ()), ("item", .str ""),
    ("items", .list [.str "a", .str "b"]), ("outs", .list [])] : List (Key × Value Unit)).lookup key

def host : Node Unit := .host fun _ _ => .ok ()

def each : Node Unit := .map ⟨"items", "item", none, .finish⟩ host

def always (targets : List Target) : Edge Unit := ⟨fun _ _ _ => .ok targets, some targets⟩

/-- A node that goes on to a map and to a join; the join waits for the map. -/
def builder : GraphBuilder Unit where
  schema := schema
  privateKeys := []
  entry := some "split"
  nodes := [("split", ⟨host, false⟩), ("each", ⟨each, false⟩), ("join", ⟨host, true⟩)]
  edges := [("split", always [.Node "each", .Node "join"]), ("each", always [.Node "join"]),
    ("join", always [.End "done"])]
  inputs := []
  outputs := []

def graph : Graph Unit := builder.build.toOption.get (by decide +kernel)

def first : Standing Unit :=
  (enter graph (runContext graph []) PendingWrites.empty state none).toOption.get
    (by decide +kernel)

/-- A superstep of one host node that succeeds. -/
def alone (updates : List (Update Unit)) : Schedule Unit where
  now := 0
  events := [.node 0 [] .poll, .node 0 [] (.returns (.ok updates))]
  drained := []

def second : Standing Unit :=
  (after graph config (runContext graph []) first (alone [])).get (by decide +kernel)

example : second.cursor = ⟨["each"], ["join"]⟩ := by decide +kernel

end Fork

theorem eq_ok_toOption_get {ε α : Type} (result : Except ε α)
    (hsucceeds : result.toOption.isSome = true) : result = .ok (result.toOption.get hsucceeds) := by
  cases result with
  | error => cases hsucceeds
  | ok => rfl

theorem cursor_invariants_fork :
    CursorInvariant Fork.graph Fork.second.cursor ∧ ∀ schedule stepped,
      superstep Fork.graph Fork.config (runContext Fork.graph []) Fork.second schedule =
          some stepped →
        Accounted Fork.graph Fork.config Fork.second schedule stepped :=
  cursor_invariants Fork.graph Fork.config (runContext Fork.graph []) PendingWrites.empty Fork.state none
    (fun _ habsent => by cases habsent) Fork.first Fork.second
    (eq_ok_toOption_get _ _)
    (.single (after_eq_some (Option.some_get _).symm))

end LlmGraph.Superstep
