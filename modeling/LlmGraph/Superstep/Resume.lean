/- digest: A run of deterministic nodes that is stopped any number of times, each time resumed from the
   checkpoint of the stop, comes to what the run that is never stopped comes to, and runs nothing that
   a checkpoint holds. -/

import LlmGraph.Superstep.Honest

set_option autoImplicit false
set_option relaxedAutoImplicit false

namespace LlmGraph.Superstep

open OccurrenceKey (ofPath)

variable {C : Type} [Conversation C]

/-- The inputs that a superstep applies, in arrival order. -/
abbrev Batch (C : Type) [Conversation C] := List (Key × Conversation.UserInput C)

/-- What the nodes of a superstep return, on the state it begins with. -/
abbrev Oracles (C : Type) [Conversation C] := State C → NodeId → Oracle C

/-- The edges of a graph do not depend on the moment at which they are evaluated. -/
def Graph.Timeless (graph : Graph C) : Prop :=
  ∀ id entry, graph.edge id = some entry → ∀ now later, entry.edge.next now = entry.edge.next later

/-- Where a run is between two supersteps, or what it has ended with. -/
inductive Place (C : Type) [Conversation C] where
  | stands (state : State C) (cursor : Cursor)
  | ended (state : State C) (label : EndLabel)

/-- The results of a superstep whose nodes all succeed. -/
def returned (graph : Graph C) (oracles : Oracles C) (state : State C) (active : List NodeId) :
    Results C :=
  active.filterMap fun id =>
    (graph.node id).map fun node => (id, .ok (node.yields (oracles state id) state []))

/-- A superstep that is not stopped: its nodes return, and everything is settled. -/
def Place.next (graph : Graph C) (config : Config C) (oracles : Oracles C) (place : Place C)
    (batch : Batch C) : Option (Place C) :=
  match place with
  | .ended _ _ => none
  | .stands state cursor =>
      match (settle graph 0 config state (returned graph oracles state cursor.active)
          (inputUpdates batch) cursor.active cursor.deferred ⟨[], false⟩ PendingWrites.empty).1 with
      | .error _ => none
      | .ok settled =>
          match settled.ending with
          | some label => some (.ended settled.state label)
          | none => some (.stands settled.state ⟨settled.active, settled.deferred⟩)

/-- A run that is never stopped: a superstep for each batch of inputs. -/
def walk (graph : Graph C) (config : Config C) (oracles : Oracles C) (place : Place C)
    (batches : List (Batch C)) : Option (Place C) :=
  batches.foldlM (Place.next graph config oracles) place

section Settle

variable {graph : Graph C} {config : Config C} {state : State C} {results other : Results C}
  {inputs : List (Update C)} {active deferred : List NodeId}

private theorem foldl_node_same (ctx ctx' : Context) {ids : List NodeId}
    (hsame : ∀ id ∈ ids, results.of id = other.of id) (one two : Applying C)
    (hnext : one.next = two.next) (happlied : one.applied = two.applied)
    (hfailure : one.failure = two.failure) :
    (ids.foldl (Applying.node ctx results) one).next =
        (ids.foldl (Applying.node ctx' other) two).next ∧
      (ids.foldl (Applying.node ctx results) one).applied =
        (ids.foldl (Applying.node ctx' other) two).applied ∧
      (ids.foldl (Applying.node ctx results) one).failure =
        (ids.foldl (Applying.node ctx' other) two).failure := by
  induction ids generalizing one two with
  | nil => exact ⟨hnext, happlied, hfailure⟩
  | cons id rest hstep =>
      have hown := hsame id List.mem_cons_self
      have hlater := fun other hmember => hsame other (List.mem_cons_of_mem _ hmember)
      obtain ⟨state, before, failed, store⟩ := one
      obtain ⟨state', before', failed', store'⟩ := two
      cases hnext
      cases happlied
      cases hfailure
      rw [List.foldl_cons, List.foldl_cons]
      unfold Applying.node
      rw [hown]
      rcases other.of id with _ | fault | updates
      · exact hstep hlater _ _ rfl rfl rfl
      · exact hstep hlater _ _ rfl rfl rfl
      · dsimp only
        rcases state.applyBatch updates with error | given
        · exact hstep hlater _ _ rfl rfl rfl
        · exact hstep hlater _ _ rfl rfl rfl

private theorem targetsOf_timeless (htimeless : graph.Timeless) (now later : Nat)
    (ids : List NodeId) :
    graph.targetsOf now config state ids = graph.targetsOf later config state ids := by
  have heach : ∀ id, graph.evaluateEdge now config state id =
      graph.evaluateEdge later config state id := by
    intro id
    unfold Graph.evaluateEdge
    rcases hheld : graph.edge id with _ | entry
    · rfl
    · dsimp only
      rw [htimeless id entry hheld now later]
  induction ids with
  | nil => rfl
  | cons id rest hstep => rw [Graph.targetsOf, Graph.targetsOf, heach, hstep]

/-- What is settled depends on the results of the nodes, and on nothing that is recorded. -/
private theorem settle_same (htimeless : graph.Timeless) {now later : Nat} {ctx ctx' : Context}
    {store store' : PendingWrites C} (hsame : ∀ id ∈ graph.order, results.of id = other.of id) :
    (settle graph now config state results inputs active deferred ctx store).1 =
      (settle graph later config state other inputs active deferred ctx' store').1 := by
  obtain ⟨hnext, happlied, hfailure⟩ := foldl_node_same ctx ctx' hsame
    ⟨state, [], none, store⟩ ⟨state, [], none, store'⟩ rfl rfl rfl
  unfold settle applyNodes
  dsimp only
  rw [hnext, happlied, hfailure]
  rcases (graph.order.foldl (Applying.node ctx' other) ⟨state, [], none, store'⟩).failure with
    _ | ⟨id, fault⟩
  · dsimp only
    rcases (graph.order.foldl (Applying.node ctx' other)
      ⟨state, [], none, store'⟩).next.applyBatch inputs with error | given
    · rfl
    · dsimp only
      unfold settleEdges evaluateEdges
      rw [targetsOf_timeless htimeless now later]
  · rfl

end Settle

section Superstep

variable {graph : Graph C} {config : Config C} {oracles : Oracles C} {run : OccurrenceKey}

private theorem lookup_given {α : Type} (give : NodeId → Option α) (ids : List NodeId)
    (id : NodeId) :
    (ids.filterMap fun id => (give id).map fun value => (id, value)).lookup id =
      if id ∈ ids then give id else none := by
  induction ids with
  | nil => rfl
  | cons head rest hstep =>
      rcases hgiven : give head with _ | value
      · rw [List.filterMap_cons_none (by rw [hgiven]; rfl), hstep]
        by_cases hsame : id = head
        · subst hsame
          rw [hgiven, if_pos List.mem_cons_self]
          split <;> rfl
        · simp [hsame]
      · rw [List.filterMap_cons_some (by rw [hgiven]; rfl), List.lookup_cons, hstep]
        by_cases hsame : id = head
        · subst hsame
          rw [hgiven, if_pos List.mem_cons_self]
          simp
        · rw [beq_false_of_ne hsame]
          simp [hsame]

private theorem returned_of {state : State C} {active : List NodeId} {id : NodeId} {node : Node C}
    (hknown : graph.node id = some node) :
    (returned graph oracles state active).of id =
      if id ∈ active then some (.ok (node.yields (oracles state id) state [])) else none := by
  have hgiven := lookup_given (fun id => (graph.node id).map fun node =>
    (.ok (node.yields (oracles state id) state []) : Except (NodeFault C) (List (Update C))))
    active.reverse id
  rw [hknown, Option.map_some] at hgiven
  simp only [List.mem_reverse] at hgiven
  rw [Results.of, returned, ← List.filterMap_reverse, ← hgiven]
  congr 2
  funext other
  cases graph.node other <;> rfl

/-- A success among the results is that of a node at its position. -/
private theorem pair_ok {present : List NodeId} {tasks : List (Task C)} {id : NodeId}
    {updates : List (Update C)} (hfound : (pair present tasks).of id = some (.ok updates)) :
    ∃ position : Nat, present[position]? = some id ∧
      tasks[position]? = some (.ended (.ok updates)) := by
  obtain ⟨front, back, hlisted, -⟩ := List.lookup_eq_some_iff.mp hfound
  have hmember : (id, .ok updates) ∈ pair present tasks := by
    rw [← List.mem_reverse, hlisted]
    simp
  obtain ⟨⟨other, task⟩, hzipped, hsame⟩ := List.mem_filterMap.mp hmember
  obtain ⟨position, hlocated⟩ := List.mem_iff_getElem?.mp hzipped
  obtain ⟨hatId, hatTask⟩ := List.getElem?_zip_eq_some.mp hlocated
  refine ⟨position, ?_, ?_⟩
  · rcases task with _ | _ | _ | (updates' | error | text) <;> cases hsame
    exact hatId
  · rcases task with _ | _ | _ | (updates' | error | text) <;> cases hsame
    exact hatTask

variable [DecidableEq C] {here : Standing C} {schedule : Schedule C} {stepped : Stepped C}

/-- The results of a superstep that is settled are what its nodes return. -/
private theorem results_returned
    (htaken : superstep graph config ⟨run, true⟩ here schedule = some stepped)
    (htruthful : Truthful graph (oracles here.state) here.state run here.active here.store)
    (hhonest : HonestNotes graph (oracles here.state) run stepped.driven.notes)
    {results : Results C} (hfound : stepped.results = some results)
    (hsucceeded : ∀ id ∈ graph.order, ∀ fault, results.of id ≠ some (.error fault)) :
    ∀ id ∈ graph.order,
      results.of id = (returned graph oracles here.state here.active).of id := by
  intro id hordered
  have hlisted := superstep_results htaken hfound id hordered
  have hfaithful := superstep_faithful htaken htruthful hhonest
  obtain ⟨node, hknown⟩ := Option.isSome_iff_exists.mp ((graph.node_isSome id).mpr hordered)
  rw [returned_of hknown]
  have hheld : (results.of id).isSome = true ↔ id ∈ here.active := by
    rw [← hlisted, Results.of, List.lookup_isSome_iff]
    simp
  split
  · rename_i hactive
    obtain ⟨result, hhereResult⟩ := Option.isSome_iff_exists.mp (hheld.mpr hactive)
    rcases result with fault | updates
    · exact absurd hhereResult (hsucceeded id hordered fault)
    · obtain ⟨driven, result, hdrove, hstopped⟩ := superstep_driven htaken
      rcases hstopped with ⟨-, -, hnoneFound⟩ | ⟨own, rfl, hdrained, hsame⟩
      · rw [hnoneFound] at hfound
        cases hfound
      · cases hsame results hfound
        obtain ⟨-, rfl⟩ := drive_done hdrove
        obtain ⟨position, hlocated, hended⟩ := pair_ok hhereResult
        have htasks : stepped.driven.tasks = driven.tasks := by
          rw [hdrained]
          exact (drained_same driven schedule.drained).1
        rw [← htasks] at hended
        rw [hhereResult, (hfaithful.stands position id _ node hlocated hended hknown).2 updates rfl]
  · rename_i hinactive
    rcases hresult : results.of id with _ | own
    · rfl
    · exact absurd (hheld.mp (by rw [hresult]; rfl)) hinactive

end Superstep

section Step

variable [DecidableEq C] {graph : Graph C} {config : Config C} {oracles : Oracles C}
  {run : OccurrenceKey} {here : Standing C} {schedule : Schedule C} {stepped : Stepped C}

/-- What a superstep of honest nodes leads to: where it stops it is where it was, and its recorder
holds nothing but what its nodes return; where it does not, it leads to what they return. -/
inductive Leads (graph : Graph C) (config : Config C) (oracles : Oracles C) (run : OccurrenceKey)
    (here : Standing C) (batch : Batch C) : StepEnd C → Bool → Prop
  | stops {outcome : Outcome C} {given : Checkpoint C} (hback : outcome.checkpoint = some given)
      (hstate : given.state = here.state) (hcursor : given.cursor = here.cursor)
      (htruthful : Truthful graph (oracles here.state) here.state run here.active given.pending) :
      Leads graph config oracles run here batch (.ends outcome) false
  | pauses {given : Checkpoint C}
      (hnext : Place.next graph config oracles (.stands here.state here.cursor) batch =
        some (.stands given.state given.cursor)) (hempty : given.pending = PendingWrites.empty) :
      Leads graph config oracles run here batch (.ends (.Paused given)) true
  | finishes {state : State C} {label : EndLabel}
      (hnext : Place.next graph config oracles (.stands here.state here.cursor) batch =
        some (.ended state label)) :
      Leads graph config oracles run here batch (.ends (.Finished state label)) true
  | goes {next : Standing C}
      (hmoves : Place.next graph config oracles (.stands here.state here.cursor) batch =
        some (.stands next.state next.cursor)) (hempty : next.store = PendingWrites.empty) :
      Leads graph config oracles run here batch (.goes next) true

omit [DecidableEq C] in
private theorem forget_lost {ids : List NodeId} {store : PendingWrites C} (key : OccurrenceKey) :
    ids.foldl (Context.forgetNode ⟨run, true⟩) store key = none ∨
      ids.foldl (Context.forgetNode ⟨run, true⟩) store key = store key := by
  induction ids generalizing store with
  | nil => exact Or.inr rfl
  | cons id rest hstep =>
      rcases @hstep (Context.forgetNode ⟨run, true⟩ store id) with hgone | hsame
      · exact Or.inl hgone
      · rw [List.foldl_cons, hsame]
        by_cases hown : key = Context.occurrence ⟨run, true⟩ ++ [⟨id, none⟩]
        · left
          rw [hown]
          exact Function.update_self ..
        · exact Or.inr (Function.update_of_ne hown ..)

omit [DecidableEq C] in
private theorem here_lost (store : PendingWrites C) (key : OccurrenceKey) :
    Context.pendingHere ⟨run, true⟩ store key = none ∨
      Context.pendingHere ⟨run, true⟩ store key = store key := by
  rw [Context.pendingHere, PendingWrites.under]
  split
  · exact Or.inr rfl
  · exact Or.inl rfl

theorem superstep_leads (htimeless : graph.Timeless) (hprivate : graph.hasPrivate = false)
    (htaken : superstep graph config ⟨run, true⟩ here schedule = some stepped)
    (htruthful : Truthful graph (oracles here.state) here.state run here.active here.store)
    (hhonest : HonestNotes graph (oracles here.state) run stepped.driven.notes)
    (hunheard : stepped.settled = none → schedule.received = []) :
    Leads graph config oracles run here schedule.received stepped.ending
      stepped.settled.isSome := by
  have hfaithful := superstep_faithful htaken htruthful hhonest
  have hheld := superstep_held htaken
  have hleaves : ∀ state store cursor, checkpoint graph ⟨run, true⟩ store state cursor =
      ⟨state, cursor, Context.pendingHere ⟨run, true⟩ store⟩ := by
    intro state store cursor
    rw [checkpoint, Graph.leavePrivate_of_none hprivate,
      Graph.checkpointCursor_of_none hprivate]
  rcases superstep_cases htaken with ⟨-, hunsettled, hending⟩ |
    ⟨results, error, store, -, hunsettled, hsettling, hending⟩ |
    ⟨results, settled, store, hresult, hfound, hsettling, hending⟩
  · rw [hheld, hunheard hunsettled, inputUpdates, List.map_nil, cancelled, State.applyBatch_nil]
      at hending
    dsimp only at hending
    rw [hleaves] at hending
    rw [hending, hunsettled]
    exact .stops rfl rfl rfl (hfaithful.truthful.lose (here_lost _))
  · have hlost := @settle_store _ _ graph schedule.now config here.state results
      (inputUpdates stepped.driven.held) here.active here.deferred ⟨run, true⟩ stepped.driven.store
    rw [hsettling] at hlost
    dsimp only at hlost
    rw [hheld, hunheard hunsettled, inputUpdates, List.map_nil, withInputs,
      if_pos List.isEmpty_nil, fail, hleaves, hlost] at hending
    rw [hending, hunsettled]
    exact .stops rfl rfl rfl ((hfaithful.truthful.lose forget_lost).lose (here_lost _))
  · have hsettledBy := settle_ok hsettling
    have hsame := results_returned htaken htruthful hhonest hresult hsettledBy.succeeded
    have hnext : (settle graph schedule.now config here.state results
        (inputUpdates stepped.driven.held) here.active here.deferred ⟨run, true⟩
        stepped.driven.store).1 =
          (settle graph 0 config here.state (returned graph oracles here.state here.active)
            (inputUpdates stepped.driven.held) here.active here.deferred ⟨[], false⟩
            PendingWrites.empty).1 := settle_same htimeless hsame
    rw [hsettling, hheld] at hnext
    have hlost := @settle_store _ _ graph schedule.now config here.state results
      (inputUpdates stepped.driven.held) here.active here.deferred ⟨run, true⟩ stepped.driven.store
    rw [hsettling] at hlost
    dsimp only at hlost hnext
    have hdropped : Context.dropPending ⟨run, true⟩ store here.active = PendingWrites.empty := by
      rw [hlost]
      exact (hfaithful.truthful.lose forget_lost).dropped
    have hmoves : Place.next graph config oracles (.stands here.state here.cursor)
        schedule.received = match settled.ending with
          | some label => some (.ended settled.state label)
          | none => some (.stands settled.state ⟨settled.active, settled.deferred⟩) := by
      rw [Place.next]
      dsimp only [Standing.cursor]
      rw [← hnext]
    rw [hfound, hending, proceed, hdropped]
    rcases hendingAs : settled.ending with _ | label
    · rw [hendingAs] at hmoves
      dsimp only
      split
      · rw [hleaves]
        exact .pauses hmoves (funext fun key => ite_self none)
      · exact .goes hmoves rfl
    · rw [hendingAs] at hmoves
      dsimp only
      rw [Graph.leavePrivate_of_none hprivate]
      exact .finishes hmoves

end Step

/-- What a run is begun with. -/
structure Origin (C : Type) [Conversation C] where
  pending : PendingWrites C
  state : State C
  cursor : Option Cursor

/-- A run is resumed from what the checkpoint of a stop holds. -/
def Checkpoint.origin (given : Checkpoint C) : Origin C :=
  ⟨given.pending, given.state, some given.cursor⟩

section Runs

variable [DecidableEq C] (graph : Graph C) (config : Config C) (oracles : Oracles C)
  (occurrence : OccurrenceKey)

/-- `run` from an origin. -/
def Origin.run (origin : Origin C) (plan : List (Schedule C)) : Option (Outcome C) :=
  Superstep.run graph config occurrence origin.pending origin.state origin.cursor plan

/-- The supersteps that a run takes. -/
def Origin.supersteps (origin : Origin C) (plan : List (Schedule C)) :
    List (Standing C × Schedule C) :=
  match launch graph config occurrence origin.pending origin.state origin.cursor with
  | .error _ => []
  | .ok here => Superstep.supersteps graph config (runContext graph occurrence) here plan

/-- The inputs that a superstep applies, when it is settled. -/
def batchOf (taken : Standing C × Schedule C) : Option (Batch C) :=
  (superstep graph config (runContext graph occurrence) taken.1 taken.2).bind fun stepped =>
    stepped.settled.map fun _ => taken.2.received

/-- The inputs that a run applies, superstep by superstep. -/
def Origin.batches (origin : Origin C) (plan : List (Schedule C)) : List (Batch C) :=
  (origin.supersteps graph config occurrence plan).filterMap (batchOf graph config occurrence)

/-- In every superstep that a run takes, what succeeds returns what it always does on the state of
the superstep; and a superstep that is stopped has received no input. -/
def Honest (taken : List (Standing C × Schedule C)) : Prop :=
  ∀ here schedule stepped, (here, schedule) ∈ taken →
    superstep graph config (runContext graph occurrence) here schedule = some stepped →
      HonestNotes graph (oracles here.state) occurrence stepped.driven.notes ∧
        (stepped.settled = none → schedule.received = [])

/-- Where a run is resumed from, after any number of runs that were stopped, and the inputs that
they have applied. -/
inductive Resumed (first : Origin C) : Origin C → List (Batch C) → Prop
  | begins : Resumed first first []
  | resumes {origin : Origin C} {batches : List (Batch C)} {plan : List (Schedule C)}
      {outcome : Outcome C} {given : Checkpoint C} (hhere : Resumed first origin batches)
      (hran : origin.run graph config occurrence plan = some outcome)
      (hhonest : Honest graph config oracles occurrence
        (origin.supersteps graph config occurrence plan))
      (hstopped : outcome.checkpoint = some given) :
      Resumed first given.origin (batches ++ origin.batches graph config occurrence plan)

/-- A chain of runs, each but the last one stopped, and the next resumed from where it stopped,
finishes. -/
def Finishes (first : Origin C) (batches : List (Batch C)) (state : State C)
    (label : EndLabel) : Prop :=
  ∃ origin earlier plan, Resumed graph config oracles occurrence first origin earlier ∧
    Honest graph config oracles occurrence (origin.supersteps graph config occurrence plan) ∧
    origin.run graph config occurrence plan = some (.Finished state label) ∧
    batches = earlier ++ origin.batches graph config occurrence plan

end Runs

section Chain

variable [DecidableEq C] {graph : Graph C} {config : Config C} {oracles : Oracles C}
  {occurrence : OccurrenceKey}

omit [DecidableEq C] in
private theorem walk_append (place : Place C) (before later : List (Batch C)) :
    walk graph config oracles place (before ++ later) =
      (walk graph config oracles place before).bind fun middle =>
        walk graph config oracles middle later := by
  rw [walk, List.foldlM_append]
  rfl

private theorem honest_rest {here next : Standing C} {schedule : Schedule C}
    {rest : List (Schedule C)} {stepped : Stepped C}
    (htaken : superstep graph config (runContext graph occurrence) here schedule = some stepped)
    (hending : stepped.ending = .goes next) :
    supersteps graph config (runContext graph occurrence) here (schedule :: rest) =
      (here, schedule) :: supersteps graph config (runContext graph occurrence) next rest := by
  obtain ⟨driven, results, settled, other⟩ := stepped
  cases hending
  rw [supersteps, htaken]

private theorem honest_last {here : Standing C} {schedule : Schedule C}
    {rest : List (Schedule C)} {stepped : Stepped C} {outcome : Outcome C}
    (htaken : superstep graph config (runContext graph occurrence) here schedule = some stepped)
    (hending : stepped.ending = .ends outcome) :
    supersteps graph config (runContext graph occurrence) here (schedule :: rest) =
      [(here, schedule)] := by
  obtain ⟨driven, results, settled, other⟩ := stepped
  cases hending
  rw [supersteps, htaken]

/-- A run of honest nodes goes where they lead, superstep by superstep. -/
private theorem loop_walks (htimeless : graph.Timeless) (hprivate : graph.hasPrivate = false)
    {here : Standing C} {plan : List (Schedule C)} {outcome : Outcome C}
    (htruthful : Truthful graph (oracles here.state) here.state occurrence here.active here.store)
    (hhonest : Honest graph config oracles occurrence
      (supersteps graph config (runContext graph occurrence) here plan))
    (hran : runLoop graph config (runContext graph occurrence) here plan = some outcome) :
    (∀ given, outcome.checkpoint = some given →
      walk graph config oracles (.stands here.state here.cursor)
          ((supersteps graph config (runContext graph occurrence) here plan).filterMap
            (batchOf graph config occurrence)) = some (.stands given.state given.cursor) ∧
        Truthful graph (oracles given.state) given.state occurrence given.cursor.active
          given.pending) ∧
      ∀ state label, outcome = .Finished state label →
        walk graph config oracles (.stands here.state here.cursor)
          ((supersteps graph config (runContext graph occurrence) here plan).filterMap
            (batchOf graph config occurrence)) = some (.ended state label) := by
  have hrecording : runContext graph occurrence = ⟨occurrence, true⟩ := by
    rw [runContext, hprivate, Bool.not_false]
  induction plan generalizing here with
  | nil => cases hran
  | cons schedule rest hstep =>
      rw [runLoop] at hran
      rcases htaken : superstep graph config (runContext graph occurrence) here schedule with
        _ | stepped
      · rw [htaken] at hran
        cases hran
      rw [htaken] at hran
      dsimp only at hran
      have hfirst : (here, schedule) ∈
          supersteps graph config (runContext graph occurrence) here (schedule :: rest) := by
        rw [supersteps]
        exact List.mem_cons_self
      obtain ⟨hown, hunheard⟩ := hhonest here schedule stepped hfirst htaken
      have hleads := superstep_leads htimeless hprivate (hrecording ▸ htaken) htruthful hown hunheard
      have hbatch : batchOf graph config occurrence (here, schedule) =
          stepped.settled.map fun _ => schedule.received := by
        rw [batchOf, htaken]
        rfl
      rcases hending : stepped.ending with ended | next
      · rw [honest_last htaken hending]
        rw [hending] at hran hleads
        have hsame : ended = outcome := by
          dsimp only at hran
          split at hran
          · exact Option.some.inj hran
          · cases hran
        subst hsame
        rcases hsettled : stepped.settled with _ | given
        · rw [hsettled] at hleads hbatch
          rw [List.filterMap_cons_none hbatch]
          cases hleads with
          | @stops _ given hback hstate hcursor htruthful =>
              refine ⟨fun other hfound => ?_, fun state label hfinished => ?_⟩
              · rw [hback] at hfound
                cases hfound
                refine ⟨by rw [hstate, hcursor]; rfl, ?_⟩
                rw [hstate, hcursor]
                exact htruthful
              · rw [hfinished] at hback
                cases hback
        · rw [hsettled] at hleads hbatch
          rw [List.filterMap_cons_some hbatch]
          cases hleads with
          | @pauses given hnext hempty =>
              refine ⟨fun other hfound => ?_, fun state label hfinished => by cases hfinished⟩
              cases hfound
              refine ⟨?_, ?_⟩
              · rw [walk, List.filterMap_nil, List.foldlM_cons, hnext]
                rfl
              · rw [hempty]
                exact fun key entry hheld => by cases hheld
          | finishes hnext =>
              refine ⟨fun other hfound => (by cases hfound), fun state label hfinished => ?_⟩
              cases hfinished
              rw [walk, List.filterMap_nil, List.foldlM_cons, hnext]
              rfl
      · rw [hending] at hran hleads
        dsimp only at hran
        have hrestOf : supersteps graph config (runContext graph occurrence) here
            (schedule :: rest) = _ := honest_rest htaken hending
        rw [hrestOf] at hhonest ⊢
        generalize hsettled : stepped.settled.isSome = done at hleads
        cases hleads with
        | goes hmoves hempty =>
            have hlater := @hstep next
              (by rw [hempty]; exact fun key entry hheld => by cases hheld)
              (fun here schedule stepped hmember => hhonest here schedule stepped
                (List.mem_cons_of_mem _ hmember)) hran
            obtain ⟨given, hsettledAs⟩ := Option.isSome_iff_exists.mp hsettled
            rw [hsettledAs] at hbatch
            rw [List.filterMap_cons_some hbatch]
            have honward : ∀ batches : List (Batch C),
                walk graph config oracles (.stands here.state here.cursor)
                    (schedule.received :: batches) =
                  walk graph config oracles (.stands next.state next.cursor) batches := by
              intro batches
              rw [walk, List.foldlM_cons, hmoves]
              rfl
            rw [honward]
            exact hlater

/-- No superstep of a run of honest nodes runs what its recorder holds. -/
private theorem loop_fresh (htimeless : graph.Timeless) (hprivate : graph.hasPrivate = false)
    {here : Standing C} {plan : List (Schedule C)}
    (htruthful : Truthful graph (oracles here.state) here.state occurrence here.active here.store)
    (hhonest : Honest graph config oracles occurrence
      (supersteps graph config (runContext graph occurrence) here plan)) :
    ∀ standing schedule stepped,
      (standing, schedule) ∈ supersteps graph config (runContext graph occurrence) here plan →
      superstep graph config (runContext graph occurrence) standing schedule = some stepped →
      ∀ key, .ran key ∈ stepped.driven.notes → standing.store key = none := by
  have hrecording : runContext graph occurrence = ⟨occurrence, true⟩ := by
    rw [runContext, hprivate, Bool.not_false]
  induction plan generalizing here with
  | nil => exact fun _ _ _ hmember => by cases hmember
  | cons first rest hstep =>
      intro standing schedule stepped hmember htaken key hran
      have hhead : (here, first) ∈
          supersteps graph config (runContext graph occurrence) here (first :: rest) := by
        rw [supersteps]
        exact List.mem_cons_self
      rw [supersteps] at hmember
      rcases List.mem_cons.mp hmember with hsame | hlater
      · cases hsame
        obtain ⟨hown, -⟩ := hhonest here first stepped hhead htaken
        exact (superstep_faithful (hrecording ▸ htaken) htruthful hown).fresh key hran
      · split at hlater
        · rename_i driven results settled next hfirstTaken
          obtain ⟨hown, hunheard⟩ := hhonest here first _ hhead hfirstTaken
          have hleads := superstep_leads htimeless hprivate (hrecording ▸ hfirstTaken) htruthful
            hown hunheard
          have hgoesOn : supersteps graph config (runContext graph occurrence) here
              (first :: rest) = _ := honest_rest hfirstTaken rfl
          rw [hgoesOn] at hhonest
          generalize hdoneAs : Option.isSome _ = done at hleads
          cases hleads with
          | goes hmoves hempty =>
              refine @hstep next ?_ (fun here schedule stepped hmember =>
                hhonest here schedule stepped (List.mem_cons_of_mem _ hmember)) standing schedule
                stepped hlater htaken key hran
              rw [hempty]
              exact fun key entry hheld => by cases hheld
        · cases hlater

/-- A run that cannot be begun cannot be begun from where it was refused. -/
private theorem launch_refused (hprivate : graph.hasPrivate = false) {origin : Origin C}
    {outcome : Outcome C} {given : Checkpoint C}
    (hrefused : launch graph config occurrence origin.pending origin.state origin.cursor =
      .error outcome) (hstopped : outcome.checkpoint = some given) (here : Standing C) :
    launch graph config occurrence given.origin.pending given.origin.state given.origin.cursor ≠
      .ok here := by
  have hleaves : ∀ ctx state store cursor, checkpoint graph ctx store state cursor =
      ⟨state, cursor, Context.pendingHere ctx store⟩ := by
    intro ctx state store cursor
    rw [checkpoint, Graph.leavePrivate_of_none hprivate,
      Graph.checkpointCursor_of_none hprivate]
  unfold launch at hrefused
  dsimp only at hrefused
  split at hrefused
  · rename_i error hmismatch
    rw [fail, hleaves] at hrefused
    cases hrefused
    cases hstopped
    unfold launch Checkpoint.origin
    dsimp only
    rw [hmismatch]
    exact fun hsame => by cases hsame
  · rename_i hmatches
    unfold enter at hrefused
    dsimp only at hrefused
    split at hrefused
    · rename_i hnothing
      rw [fail, hleaves] at hrefused
      cases hrefused
      cases hstopped
      unfold launch Checkpoint.origin enter
      dsimp only
      rw [hmatches]
      exact fun hsame => by cases hsame
    · rename_i hsomething
      split at hrefused
      · rename_i error hunknown
        rw [fail, hleaves] at hrefused
        cases hrefused
        cases hstopped
        unfold launch Checkpoint.origin enter
        dsimp only [Option.getD_some]
        rw [hmatches]
        dsimp only
        rw [if_neg hsomething, hunknown]
        exact fun hsame => by cases hsame
      · cases hrefused

/-- A run begins where its origin is. -/
private theorem launch_ok (hprivate : graph.hasPrivate = false) {origin : Origin C}
    {here : Standing C}
    (hlaunched : launch graph config occurrence origin.pending origin.state origin.cursor =
      .ok here) :
    here.state = origin.state ∧ here.cursor = origin.cursor.getD ⟨[graph.entry], []⟩ ∧
      here.store = origin.pending := by
  unfold launch at hlaunched
  dsimp only at hlaunched
  split at hlaunched
  · cases hlaunched
  · obtain ⟨hcursor, hstate, hstore, -⟩ := enter_ok hlaunched
    refine ⟨?_, hcursor, ?_⟩
    · rw [hstate, Graph.enterPrivate, hprivate]
      rfl
    · rw [hstore, runStore, hprivate]
      rfl

/-- Wherever a chain of runs is resumed from, it stands where the inputs lead that it has applied,
and the checkpoint holds nothing but what the nodes return there. -/
private theorem resumed_stands (htimeless : graph.Timeless)
    (hprivate : graph.hasPrivate = false) {first origin : Origin C}
    {batches : List (Batch C)} (hfresh : first.pending = PendingWrites.empty)
    (hresumed : Resumed graph config oracles occurrence first origin batches) {here : Standing C}
    (hlaunched : launch graph config occurrence origin.pending origin.state origin.cursor =
      .ok here) :
    walk graph config oracles
        (.stands first.state (first.cursor.getD ⟨[graph.entry], []⟩)) batches =
      some (.stands here.state here.cursor) ∧
      Truthful graph (oracles here.state) here.state occurrence here.active here.store := by
  induction hresumed generalizing here with
  | begins =>
      obtain ⟨hstate, hcursor, hstore⟩ := launch_ok hprivate hlaunched
      refine ⟨?_, ?_⟩
      · rw [hstate, hcursor]
        rfl
      · rw [hstore, hfresh]
        exact fun key entry hheld => by cases hheld
  | @resumes origin batches plan outcome given _ hran hhonest hstopped hstep =>
      rcases hbefore : launch graph config occurrence origin.pending origin.state origin.cursor with
        refused | standing
      · rw [Origin.run, Superstep.run, hbefore] at hran
        dsimp only at hran
        split at hran
        · cases hran
          exact absurd hlaunched (launch_refused hprivate hbefore hstopped here)
        · cases hran
      · obtain ⟨hwalked, htruthful⟩ := hstep hbefore
        rw [Origin.run, Superstep.run, hbefore] at hran
        rw [Origin.batches, Origin.supersteps, hbefore]
        rw [Origin.supersteps, hbefore] at hhonest
        obtain ⟨honward, hholds⟩ :=
          (loop_walks htimeless hprivate htruthful hhonest hran).1 given hstopped
        obtain ⟨hstate, hcursor, hstore⟩ := launch_ok hprivate hlaunched
        refine ⟨?_, ?_⟩
        · rw [walk_append, hwalked, Option.bind_some, honward, hstate, hcursor]
          rfl
        · rw [hstate, hstore]
          have hactive : here.active = given.cursor.active := congrArg Cursor.active hcursor
          rw [hactive]
          exact hholds

/-- A chain of runs that finishes comes to what its inputs lead to. -/
private theorem finishes_walks (htimeless : graph.Timeless)
    (hprivate : graph.hasPrivate = false) {first : Origin C} {batches : List (Batch C)}
    {final : State C} {label : EndLabel} (hfresh : first.pending = PendingWrites.empty)
    (hfinishes : Finishes graph config oracles occurrence first batches final label) :
    walk graph config oracles
        (.stands first.state (first.cursor.getD ⟨[graph.entry], []⟩)) batches =
      some (.ended final label) := by
  obtain ⟨origin, earlier, plan, hresumed, hhonest, hran, rfl⟩ := hfinishes
  rcases hbefore : launch graph config occurrence origin.pending origin.state origin.cursor with
    refused | standing
  · rw [Origin.run, Superstep.run, hbefore] at hran
    dsimp only at hran
    unfold launch enter at hbefore
    dsimp only at hbefore
    split at hran
    · cases hran
      split at hbefore
      · cases hbefore
      · split at hbefore
        · cases hbefore
        · split at hbefore <;> cases hbefore
    · cases hran
  · obtain ⟨hwalked, htruthful⟩ := resumed_stands htimeless hprivate hfresh hresumed hbefore
    rw [Origin.run, Superstep.run, hbefore] at hran
    rw [Origin.batches, Origin.supersteps, hbefore]
    rw [Origin.supersteps, hbefore] at hhonest
    have honward := (loop_walks htimeless hprivate htruthful hhonest hran).2 final label rfl
    rw [walk_append, hwalked, Option.bind_some, honward]

end Chain

/-- However often a run of deterministic nodes is stopped, by failures, cancels and pauses, and
resumed from the checkpoint of the stop: once it finishes, its state and its label are those of the
run that is never stopped, and of every other chain of runs that applied the same inputs. -/
theorem resume_transparent [DecidableEq C] (graph : Graph C) (config : Config C)
    (oracles : Oracles C) (occurrence : OccurrenceKey) (htimeless : graph.Timeless)
    (hprivate : graph.hasPrivate = false) (state : State C) (cursor : Option Cursor)
    (batches : List (Batch C)) (final final' : State C) (label label' : EndLabel)
    (hfinishes : Finishes graph config oracles occurrence ⟨PendingWrites.empty, state, cursor⟩
      batches final label)
    (hother : Finishes graph config oracles occurrence ⟨PendingWrites.empty, state, cursor⟩
      batches final' label') :
    walk graph config oracles (.stands state (cursor.getD ⟨[graph.entry], []⟩)) batches =
        some (.ended final label) ∧ final = final' ∧ label = label' := by
  have hwalked := finishes_walks htimeless hprivate rfl hfinishes
  have hagain := finishes_walks htimeless hprivate rfl hother
  have hsame := Option.some.inj (hwalked.symm.trans hagain)
  cases hsame
  exact ⟨hwalked, rfl, rfl⟩

/-- Wherever a chain of runs of deterministic nodes is resumed from, no occurrence that the recorder
of a superstep holds is run in it: of the first superstep the recorder is what the checkpoint
holds. -/
theorem recorded_not_run [DecidableEq C] (graph : Graph C) (config : Config C)
    (oracles : Oracles C) (occurrence : OccurrenceKey) (htimeless : graph.Timeless)
    (hprivate : graph.hasPrivate = false) (state : State C) (cursor : Option Cursor)
    (origin : Origin C) (batches : List (Batch C))
    (hresumed : Resumed graph config oracles occurrence ⟨PendingWrites.empty, state, cursor⟩ origin
      batches) (plan : List (Schedule C))
    (hhonest : Honest graph config oracles occurrence
      (origin.supersteps graph config occurrence plan)) :
    (∀ taken, (origin.supersteps graph config occurrence plan).head? = some taken →
        taken.1.store = origin.pending) ∧
      ∀ here schedule stepped, (here, schedule) ∈ origin.supersteps graph config occurrence plan →
        superstep graph config (runContext graph occurrence) here schedule = some stepped →
        ∀ key, .ran key ∈ stepped.driven.notes → here.store key = none := by
  rcases hlaunched : launch graph config occurrence origin.pending origin.state origin.cursor with
    refused | standing
  · rw [Origin.supersteps, hlaunched]
    exact ⟨fun _ hsame => (by cases hsame), fun _ _ _ hmember => by cases hmember⟩
  · obtain ⟨-, htruthful⟩ := resumed_stands htimeless hprivate rfl hresumed hlaunched
    obtain ⟨-, -, hstore⟩ := launch_ok hprivate hlaunched
    rw [Origin.supersteps, hlaunched] at hhonest ⊢
    refine ⟨fun taken hfirst => ?_, loop_fresh htimeless hprivate htruthful hhonest⟩
    cases plan with
    | nil => cases hfirst
    | cons schedule rest =>
        dsimp only at hfirst
        rw [supersteps, List.head?_cons] at hfirst
        cases hfirst
        exact hstore

namespace Fork

instance : DecidableEq (Conversation.UserInput Unit) := inferInstanceAs (DecidableEq String)

/-- What the items of the map return; the other nodes return nothing. -/
def writes : List (Update Unit) := [.append "outs" (.str "A")]

def oracles : Oracles Unit := fun _ _ path => if path.isEmpty then [] else writes

/-- The second item fails. -/
def failing : Schedule Unit where
  now := 1
  events := [.node 0 [] .poll, .node 0 [] .pull, .node 0 [] .pull, .node 0 [0] .poll,
    .node 0 [1] .poll, .node 0 [0] (.returns (.ok writes)),
    .node 0 [1] (.returns (.error (.host "no"))), .node 0 [] .collect]
  drained := []

/-- The first item is taken from the checkpoint, the second one run again. -/
def remaining : Schedule Unit where
  now := 2
  events := [.node 0 [] .poll, .node 0 [] .pull, .node 0 [] .pull, .node 0 [1] .poll,
    .node 0 [0] .poll, .node 0 [1] (.returns (.ok writes)), .node 0 [] .collect]
  drained := []

/-- Both items are run. -/
def undisturbed : Schedule Unit where
  now := 3
  events := [.node 0 [] .poll, .node 0 [] .pull, .node 0 [] .pull, .node 0 [0] .poll,
    .node 0 [1] .poll, .node 0 [1] (.returns (.ok writes)), .node 0 [0] (.returns (.ok writes)),
    .node 0 [] .collect]
  drained := []

def start : Origin Unit := ⟨PendingWrites.empty, state, none⟩

def stop : Checkpoint Unit :=
  ((start.run graph config [] [alone [], failing]).bind Outcome.checkpoint).get (by decide +kernel)

def Outcome.final? : Outcome Unit → Option (State Unit × EndLabel)
  | .Finished state label => some (state, label)
  | _ => none

def resumedFinal : State Unit × EndLabel :=
  ((stop.origin.run graph config [] [remaining, alone []]).bind Outcome.final?).get
    (by decide +kernel)

def directFinal : State Unit × EndLabel :=
  ((start.run graph config [] [alone [], undisturbed, alone []]).bind Outcome.final?).get
    (by decide +kernel)

/-- What a note says of an occurrence is what the oracles give for it. -/
def told : Note Unit → Bool
  | .finished occurrence entry =>
      match occurrence, entry.updates with
      | [⟨id, none⟩], updates => updates.isEmpty || id == "each"
      | _, [.append "outs" (.str "A")] => true
      | _, _ => false
  | .ran _ | .restarted _ => true

def honestly (taken : List (Standing Unit × Schedule Unit)) : Bool :=
  taken.all fun (here, schedule) =>
    match superstep graph config (runContext graph []) here schedule with
    | none => true
    | some stepped =>
        stepped.driven.notes.all told &&
          (stepped.settled.isSome || schedule.received.isEmpty)

private theorem told_honest {note : Note Unit} (htells : told note = true) {id : NodeId}
    {node : Node Unit} (hknown : graph.node id = some node) (state : State Unit) :
    note.Honest node.atomic (oracles state id) [] id [] := by
  rcases note with occurrence | occurrence | ⟨occurrence, entry⟩
  · exact trivial
  · exact trivial
  · intro path hsame hown
    subst hsame
    rcases path with _ | ⟨index, rest⟩
    · have htells : (entry.updates.isEmpty || id == "each") = true := htells
      rcases Bool.or_eq_true_iff.mp htells with hnothing | hmap
      · exact List.isEmpty_iff.mp hnothing
      · cases eq_of_beq hmap
        have hheld : graph.node "each" = some each := rfl
        rw [hheld] at hknown
        cases hknown
        cases hown
    · have hshape : ofPath [] id ([] ++ index :: rest) =
          ⟨id, some index⟩ :: rest.map fun index => ⟨id, some index⟩ := rfl
      rw [hshape] at htells
      unfold told at htells
      dsimp only at htells
      split at htells
      · rename_i hsame
        cases hsame
      · rename_i hupdates _
        exact hupdates
      · cases htells

private theorem honest_of {taken : List (Standing Unit × Schedule Unit)}
    (hchecked : honestly taken = true) : Honest graph config oracles [] taken := by
  intro here schedule stepped hmember hmade
  have hown := List.all_eq_true.mp hchecked (here, schedule) hmember
  dsimp only at hown
  rw [hmade] at hown
  obtain ⟨htoldAll, hunheard⟩ := Bool.and_eq_true_iff.mp hown
  refine ⟨fun note hnoted id node hknown =>
    told_honest (List.all_eq_true.mp htoldAll note hnoted) hknown here.state, fun hunsettled => ?_⟩
  rw [hunsettled] at hunheard
  exact List.isEmpty_iff.mp hunheard

private theorem timeless : graph.Timeless := by
  intro id entry hheld now later
  have hlisted : graph.edges = builder.edges.map fun edge => (edge.1, EdgeEntry.new edge.2) := rfl
  have hmember := Lib.mem_of_lookup hheld
  rw [hlisted] at hmember
  obtain ⟨⟨from_, edge⟩, hgiven, hsame⟩ := List.mem_map.mp hmember
  cases hsame
  simp only [builder, List.mem_cons, Prod.mk.injEq, List.not_mem_nil, or_false] at hgiven
  rcases hgiven with ⟨-, rfl⟩ | ⟨-, rfl⟩ | ⟨-, rfl⟩ <;> rfl

private theorem ran_of {origin : Origin Unit} {plan : List (Schedule Unit)}
    {final : State Unit × EndLabel}
    (hends : (origin.run graph config [] plan).bind Outcome.final? = some final) :
    origin.run graph config [] plan = some (.Finished final.1 final.2) := by
  obtain ⟨outcome, hran, hfound⟩ := Option.bind_eq_some_iff.mp hends
  rw [hran]
  cases outcome <;> cases hfound
  rfl

private theorem stopped : Resumed graph config oracles [] start stop.origin [[]] := by
  have hended : (start.run graph config [] [alone [], failing]).bind Outcome.checkpoint =
      some stop := (Option.some_get _).symm
  obtain ⟨outcome, hran, hback⟩ := Option.bind_eq_some_iff.mp hended
  have hbatches : start.batches graph config [] [alone [], failing] = [[]] := by decide +kernel
  have hhonest : Honest graph config oracles []
      (start.supersteps graph config [] [alone [], failing]) := honest_of (by decide +kernel)
  have hresumed := Resumed.resumes .begins hran hhonest hback
  rw [hbatches] at hresumed
  exact hresumed

private theorem resumes : Finishes graph config oracles [] start [[], [], []] resumedFinal.1
    resumedFinal.2 := by
  refine ⟨stop.origin, [[]], [remaining, alone []], stopped, honest_of (by decide +kernel),
    ran_of (Option.some_get _).symm, ?_⟩
  decide +kernel

private theorem direct : Finishes graph config oracles [] start [[], [], []] directFinal.1
    directFinal.2 := by
  refine ⟨start, [], [alone [], undisturbed, alone []], .begins, honest_of (by decide +kernel),
    ran_of (Option.some_get _).symm, ?_⟩
  decide +kernel

end Fork

theorem resume_transparent_fork :
    walk Fork.graph Fork.config Fork.oracles (.stands Fork.state ⟨["split"], []⟩) [[], [], []] =
        some (.ended Fork.resumedFinal.1 Fork.resumedFinal.2) ∧
      Fork.resumedFinal.1 = Fork.directFinal.1 ∧ Fork.resumedFinal.2 = Fork.directFinal.2 :=
  resume_transparent Fork.graph Fork.config Fork.oracles [] Fork.timeless (by decide +kernel)
    Fork.state none [[], [], []] _ _ _ _ Fork.resumes Fork.direct

theorem recorded_not_run_fork :
    (∀ taken, (Fork.stop.origin.supersteps Fork.graph Fork.config []
        [Fork.remaining, Fork.alone []]).head? = some taken →
          taken.1.store = Fork.stop.origin.pending) ∧
      ∀ here schedule stepped,
        (here, schedule) ∈ Fork.stop.origin.supersteps Fork.graph Fork.config []
          [Fork.remaining, Fork.alone []] →
        superstep Fork.graph Fork.config (runContext Fork.graph []) here schedule = some stepped →
        ∀ key, .ran key ∈ stepped.driven.notes → here.store key = none :=
  recorded_not_run Fork.graph Fork.config Fork.oracles [] Fork.timeless (by decide +kernel)
    Fork.state none Fork.stop.origin [[]] Fork.stopped [Fork.remaining, Fork.alone []]
    (Fork.honest_of (by decide +kernel))

example : (Fork.stop.pending [⟨"each", some 0⟩]).isSome = true := by decide +kernel

end LlmGraph.Superstep
