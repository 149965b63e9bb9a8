/- digest: What a finished superstep leads to: its nodes' updates and the held inputs on a copy of the
   state, the targets of its edges, the next cursor, and the end label. -/

import LlmGraph.Superstep.Graph

set_option autoImplicit false
set_option relaxedAutoImplicit false

namespace LlmGraph.Superstep

open Lib (pushAll mem_pushAll nodup_pushAll)

variable {C : Type} [Conversation C]

/-- The results of the nodes of a superstep, in the order of its active nodes. -/
abbrev Results (C : Type) [Conversation C] :=
  List (NodeId × Except (NodeFault C) (List (Update C)))

/-- The result of a node; of a node that ran twice, the last one. -/
def Results.of (results : Results C) (id : NodeId) :
    Option (Except (NodeFault C) (List (Update C))) := results.reverse.lookup id

/-- The updates of a node that succeeded. -/
def Results.batch (results : Results C) (id : NodeId) : Option (List (Update C)) :=
  match results.of id with
  | some (.ok updates) => some updates
  | _ => none

/-- How far the updates of a superstep's nodes are applied. -/
structure Applying (C : Type) [Conversation C] where
  next : State C
  applied : List (Update C)
  failure : Option (NodeId × NodeFault C)
  store : PendingWrites C

/-- The first failure is kept. -/
def Applying.fail (applying : Applying C) (id : NodeId) (fault : NodeFault C) : Applying C :=
  { applying with failure := applying.failure.or (some (id, fault)) }

/-- The pending entry of a node whose updates are refused is forgotten. -/
def Applying.node (ctx : Context) (results : Results C) (applying : Applying C) (id : NodeId) :
    Applying C :=
  match results.of id with
  | none => applying
  | some (.error fault) => applying.fail id fault
  | some (.ok updates) =>
      match applying.next.applyBatch updates with
      | .ok next => { applying with next := next, applied := applying.applied ++ updates }
      | .error error =>
          { applying with store := ctx.forgetNode applying.store id }.fail id (.Refused error)

def applyNodes (graph : Graph C) (ctx : Context) (state : State C) (results : Results C)
    (store : PendingWrites C) : Applying C :=
  graph.order.foldl (Applying.node ctx results) ⟨state, [], none, store⟩

def Target.node? : Target → Option NodeId
  | .Node id => some id
  | .End _ => none

def Target.end? : Target → Option EndLabel
  | .Node _ => none
  | .End label => some label

/-- The checked targets of the edge of a node: its error, then no target, then a target a declared
edge does not declare, then a node the graph does not hold. -/
def Graph.evaluateEdge (graph : Graph C) (now : Nat) (config : Config C) (state : State C)
    (id : NodeId) : Except (GraphError C) (List Target) :=
  match graph.edge id with
  | none => .error (.NodeWithoutEdge id)
  | some entry =>
      match entry.edge.next now state config with
      | .error error => .error error
      | .ok targets =>
          if targets.isEmpty then .error (.EmptyEdge id)
          else
            match targets.find? fun target => entry.declared.any (target ∉ ·) with
            | some target => .error (.UndeclaredTarget id target)
            | none =>
                match (targets.filterMap Target.node?).find? fun node => !graph.contains node with
                | some node => .error (.UnknownNode node)
                | none => .ok targets

/-- The targets of the edges of `ids`, one after the other. -/
def Graph.targetsOf (graph : Graph C) (now : Nat) (config : Config C) (state : State C) :
    List NodeId → Except (GraphError C) (List Target)
  | [] => .ok []
  | id :: rest =>
      match graph.evaluateEdge now config state id with
      | .error error => .error error
      | .ok targets =>
          match graph.targetsOf now config state rest with
          | .error error => .error error
          | .ok others => .ok (targets ++ others)

/-- The edges of the active nodes are evaluated in registration order. -/
def evaluateEdges (graph : Graph C) (now : Nat) (config : Config C) (state : State C)
    (active : List NodeId) : Except (GraphError C) (List NodeId × List EndLabel) :=
  match graph.targetsOf now config state (graph.order.filter (· ∈ active)) with
  | .error error => .error error
  | .ok targets => .ok (pushAll [] (targets.filterMap Target.node?), targets.filterMap Target.end?)

/-- Plain nodes run first, and the joins are deferred while there are any. -/
def nextSets (graph : Graph C) (produced deferred : List NodeId) : List NodeId × List NodeId :=
  let pending := pushAll [] (produced ++ deferred)
  let joins := pending.filter graph.isJoin
  let plain := pending.filter fun id => !graph.isJoin id
  if plain.isEmpty then (joins, []) else (plain, joins)

/-- The one label of the final superstep. -/
def singleEnd (ends : List EndLabel) : Except (GraphError C) EndLabel :=
  match pushAll [] ends with
  | [label] => .ok label
  | labels => .error (.AmbiguousEnd labels)

/-- What a superstep leads to. -/
structure Settled (C : Type) [Conversation C] where
  state : State C
  applied : List (Update C)
  active : List NodeId
  deferred : List NodeId
  ending : Option EndLabel

/-- The edges and the end, once the updates and the inputs are applied. -/
def settleEdges (graph : Graph C) (now : Nat) (config : Config C) (state : State C)
    (applied : List (Update C)) (active deferred : List NodeId) :
    Except (GraphError C) (Settled C) :=
  match evaluateEdges graph now config state active with
  | .error error => .error error
  | .ok (produced, ends) =>
      let (active, deferred) := nextSets graph produced deferred
      if active.isEmpty && deferred.isEmpty then
        match singleEnd ends with
        | .error error => .error error
        | .ok label => .ok ⟨state, applied, active, deferred, some label⟩
      else .ok ⟨state, applied, active, deferred, none⟩

/-- `settle`: the failure of a node comes first, then the refusal of the inputs, the edges and the
end.  The recorder has lost the entries of the refused nodes either way. -/
def settle (graph : Graph C) (now : Nat) (config : Config C) (state : State C)
    (results : Results C) (inputs : List (Update C)) (active deferred : List NodeId)
    (ctx : Context) (store : PendingWrites C) :
    Except (GraphError C) (Settled C) × PendingWrites C :=
  let nodes := applyNodes graph ctx state results store
  match nodes.failure with
  | some (node, source) => (.error (.NodeFailed node source), nodes.store)
  | none =>
      match nodes.next.applyBatch inputs with
      | .error error => (.error error, nodes.store)
      | .ok next =>
          (settleEdges graph now config next (nodes.applied ++ inputs) active deferred, nodes.store)

section Nodes

variable {ctx : Context} {results : Results C}

/-- The nodes whose updates are refused, each on the state that the nodes before it leave. -/
def refusals (results : Results C) : State C → List NodeId → List NodeId
  | _, [] => []
  | state, id :: rest =>
      match results.batch id with
      | none => refusals results state rest
      | some updates =>
          match state.applyBatch updates with
          | .ok next => refusals results next rest
          | .error _ => id :: refusals results state rest

/-- Only the entries of the refused nodes leave the recorder. -/
theorem foldl_node_store (ids : List NodeId) (applying : Applying C) :
    (ids.foldl (Applying.node ctx results) applying).store =
      (refusals results applying.next ids).foldl ctx.forgetNode applying.store := by
  induction ids generalizing applying with
  | nil => rfl
  | cons id rest hstep =>
      rw [List.foldl_cons, hstep, Applying.node, refusals, Results.batch]
      rcases results.of id with _ | fault | updates
      · rfl
      · rfl
      · dsimp only
        rcases applying.next.applyBatch updates with error | next
        · rfl
        · rfl

/-- Without a failure every result is a success, no updates are refused, and the state is the old
one with each batch applied in turn. -/
theorem foldl_node_ok {ids : List NodeId} {applying : Applying C}
    (haccepted : (ids.foldl (Applying.node ctx results) applying).failure = none) :
    applying.failure = none ∧ refusals results applying.next ids = [] ∧
      (∀ id ∈ ids, ∀ fault, results.of id ≠ some (.error fault)) ∧
      (ids.filterMap results.batch).foldlM State.applyBatch applying.next =
        .ok (ids.foldl (Applying.node ctx results) applying).next := by
  induction ids generalizing applying with
  | nil => exact ⟨haccepted, rfl, by simp, rfl⟩
  | cons id rest hstep =>
      rw [List.foldl_cons] at haccepted
      obtain ⟨hlater, hunrefused, hsucceeded, hfolded⟩ := hstep haccepted
      rw [List.foldl_cons, refusals]
      rcases hresult : results.of id with _ | fault | updates
      · have hbatch : results.batch id = none := by rw [Results.batch, hresult]
        rw [Applying.node, hresult] at hlater hunrefused hfolded
        rw [List.filterMap_cons_none hbatch, hbatch, Applying.node, hresult]
        refine ⟨hlater, hunrefused, ?_, hfolded⟩
        intro other hmember
        rcases List.mem_cons.mp hmember with rfl | hlater
        · simp [hresult]
        · exact hsucceeded other hlater
      · rw [Applying.node, hresult] at hlater
        simp [Applying.fail] at hlater
      · have hbatch : results.batch id = some updates := by rw [Results.batch, hresult]
        rw [List.filterMap_cons_some hbatch, hbatch, List.foldlM_cons]
        rw [Applying.node, hresult] at hlater hunrefused hfolded
        rw [Applying.node, hresult]
        dsimp only at hlater hunrefused hfolded ⊢
        rcases happlied : applying.next.applyBatch updates with error | next
        · rw [happlied] at hlater
          simp [Applying.fail] at hlater
        · rw [happlied] at hlater hunrefused hfolded
          refine ⟨hlater, hunrefused, ?_, hfolded⟩
          intro other hmember
          rcases List.mem_cons.mp hmember with rfl | hafter
          · simp [hresult]
          · exact hsucceeded other hafter

end Nodes

section Sets

variable (graph : Graph C)

/-- Nothing targeted or deferred is lost, and nothing else comes in. -/
theorem mem_nextSets (produced deferred : List NodeId) (id : NodeId) :
    id ∈ (nextSets graph produced deferred).1 ++ (nextSets graph produced deferred).2 ↔
      id ∈ produced ∨ id ∈ deferred := by
  have hpending : id ∈ pushAll [] (produced ++ deferred) ↔ id ∈ produced ∨ id ∈ deferred := by
    simp [mem_pushAll]
  rw [← hpending, nextSets]
  by_cases hempty : ((pushAll [] (produced ++ deferred)).filter fun id => !graph.isJoin id).isEmpty
  · rw [if_pos hempty]
    have hallJoins := List.filter_eq_nil_iff.mp (List.isEmpty_iff.mp hempty)
    simp only [List.append_nil, List.mem_filter, and_iff_left_iff_imp]
    intro hmember
    simpa using hallJoins id hmember
  · rw [if_neg hempty]
    simp only [List.mem_append, List.mem_filter, Bool.not_eq_eq_eq_not, Bool.not_true]
    cases graph.isJoin id <;> simp

theorem nodup_nextSets (produced deferred : List NodeId) :
    ((nextSets graph produced deferred).1 ++ (nextSets graph produced deferred).2).Nodup := by
  have hdistinct : (pushAll [] (produced ++ deferred)).Nodup := nodup_pushAll List.nodup_nil _
  unfold nextSets
  dsimp only
  split
  · rw [List.append_nil]
    exact hdistinct.filter _
  · refine List.Nodup.append (hdistinct.filter _) (hdistinct.filter _) ?_
    intro id hplain hjoin
    rw [List.mem_filter] at hplain hjoin
    simp [hjoin.2] at hplain

/-- The next nodes are all plain, or all joins with none deferred; only joins are deferred. -/
theorem kinds_nextSets (produced deferred : List NodeId) :
    ((∀ id ∈ (nextSets graph produced deferred).1, graph.isJoin id = false) ∨
        (∀ id ∈ (nextSets graph produced deferred).1, graph.isJoin id = true) ∧
          (nextSets graph produced deferred).2 = []) ∧
      ∀ id ∈ (nextSets graph produced deferred).2, graph.isJoin id = true := by
  unfold nextSets
  dsimp only
  split
  · exact ⟨Or.inr ⟨fun id hmember => (List.mem_filter.mp hmember).2, rfl⟩, by simp⟩
  · refine ⟨Or.inl fun id hmember => ?_, fun id hmember => (List.mem_filter.mp hmember).2⟩
    simpa using (List.mem_filter.mp hmember).2

/-- A cursor of no active node is empty. -/
theorem nextSets_empty {produced deferred : List NodeId}
    (hnoneActive : (nextSets graph produced deferred).1 = []) :
    (nextSets graph produced deferred).2 = [] := by
  unfold nextSets at hnoneActive ⊢
  dsimp only at hnoneActive ⊢
  split
  · rfl
  · rename_i hsomePlain
    rw [if_neg hsomePlain] at hnoneActive
    exact absurd (List.isEmpty_iff.mpr hnoneActive) hsomePlain

end Sets

/-- The label of a run that ends is the one that its last edges gave. -/
theorem singleEnd_ok {ends : List EndLabel} {label : EndLabel}
    (hsingle : singleEnd (C := C) ends = .ok label) : ∀ other, other ∈ ends ↔ other = label := by
  intro other
  have hheld : other ∈ pushAll [] ends ↔ other ∈ ends := by simp [mem_pushAll]
  unfold singleEnd at hsingle
  split at hsingle
  · rename_i honly
    cases hsingle
    rw [← hheld, honly, List.mem_singleton]
  · cases hsingle

namespace Graph

variable {graph : Graph C} {now : Nat} {config : Config C} {state : State C}

/-- The targets of several nodes are those of each of them. -/
theorem mem_targetsOf {ids : List NodeId} {targets : List Target}
    (hevaluated : graph.targetsOf now config state ids = .ok targets) (target : Target) :
    target ∈ targets ↔
      ∃ id ∈ ids, ∃ own, graph.evaluateEdge now config state id = .ok own ∧ target ∈ own := by
  induction ids generalizing targets with
  | nil =>
      cases hevaluated
      simp
  | cons id rest hstep =>
      unfold targetsOf at hevaluated
      split at hevaluated
      · cases hevaluated
      · rename_i own hfirst
        split at hevaluated
        · cases hevaluated
        · rename_i others hlater
          cases hevaluated
          rw [List.mem_append, hstep hlater]
          constructor
          · rintro (hhere | ⟨other, hmember, hfound⟩)
            · exact ⟨id, List.mem_cons_self, own, hfirst, hhere⟩
            · exact ⟨other, List.mem_cons_of_mem _ hmember, hfound⟩
          · rintro ⟨other, hmember, found, hgives, hinside⟩
            rcases List.mem_cons.mp hmember with rfl | hlater'
            · rw [hfirst] at hgives
              cases hgives
              exact Or.inl hinside
            · exact Or.inr ⟨other, hlater', found, hgives, hinside⟩

/-- Every target of an accepted edge that is a node is a node of the graph. -/
theorem evaluateEdge_known {id : NodeId} {targets : List Target}
    (hevaluated : graph.evaluateEdge now config state id = .ok targets) {node : NodeId}
    (hnamed : .Node node ∈ targets) : node ∈ graph.order := by
  unfold evaluateEdge at hevaluated
  split at hevaluated
  · cases hevaluated
  · split at hevaluated
    · cases hevaluated
    · split at hevaluated
      · cases hevaluated
      · split at hevaluated
        · cases hevaluated
        · split at hevaluated
          · cases hevaluated
          · rename_i hall
            cases hevaluated
            have hlisted : node ∈ targets.filterMap Target.node? :=
              List.mem_filterMap.mpr ⟨_, hnamed, rfl⟩
            have hheld := List.find?_eq_none.mp hall node hlisted
            exact (graph.contains_iff node).mp (by simpa using hheld)

end Graph

section Settle

variable {graph : Graph C} {now : Nat} {config : Config C} {state : State C} {results : Results C}
  {inputs : List (Update C)} {active deferred : List NodeId} {ctx : Context}
  {store : PendingWrites C}

/-- Whatever comes of a superstep, its recorder has lost the entries of the refused nodes. -/
theorem settle_store :
    (settle graph now config state results inputs active deferred ctx store).2 =
      (refusals results state graph.order).foldl ctx.forgetNode store := by
  have hnodes := @foldl_node_store _ _ ctx results graph.order
    ⟨state, [], none, store⟩
  unfold settle
  dsimp only
  split
  · exact hnodes
  · split
    · exact hnodes
    · exact hnodes

/-- What has been settled: the batches of the nodes in registration order and then the inputs on
the state, the next sets from the targets of the edges on the new state, and the one label where
nothing is left to run. -/
structure SettledBy (graph : Graph C) (now : Nat) (config : Config C) (state : State C)
    (results : Results C) (inputs : List (Update C)) (active deferred : List NodeId)
    (settled : Settled C) : Prop where
  succeeded : ∀ id ∈ graph.order, ∀ fault, results.of id ≠ some (.error fault)
  unrefused : refusals results state graph.order = []
  applied : ∃ middle,
    (graph.order.filterMap results.batch).foldlM State.applyBatch state = .ok middle ∧
      middle.applyBatch inputs = .ok settled.state
  routed : ∃ targets,
    graph.targetsOf now config settled.state (graph.order.filter (· ∈ active)) = .ok targets ∧
      (settled.active, settled.deferred) =
        nextSets graph (pushAll [] (targets.filterMap Target.node?)) deferred ∧
      (settled.ending = none ∧ (settled.active ≠ [] ∨ settled.deferred ≠ []) ∨
        ∃ label, settled.ending = some label ∧ settled.active = [] ∧ settled.deferred = [] ∧
          singleEnd (C := C) (targets.filterMap Target.end?) = .ok label)

private theorem settleEdges_ok {applied : List (Update C)} {settled : Settled C}
    (haccepted : settleEdges graph now config state applied active deferred = .ok settled) :
    settled.state = state ∧ ∃ targets,
      graph.targetsOf now config state (graph.order.filter (· ∈ active)) = .ok targets ∧
      (settled.active, settled.deferred) =
        nextSets graph (pushAll [] (targets.filterMap Target.node?)) deferred ∧
      (settled.ending = none ∧ (settled.active ≠ [] ∨ settled.deferred ≠ []) ∨
        ∃ label, settled.ending = some label ∧ settled.active = [] ∧ settled.deferred = [] ∧
          singleEnd (C := C) (targets.filterMap Target.end?) = .ok label) := by
  unfold settleEdges at haccepted
  split at haccepted
  · cases haccepted
  rename_i produced ends hevaluated
  unfold evaluateEdges at hevaluated
  split at hevaluated
  · cases hevaluated
  rename_i targets hgathered
  cases hevaluated
  dsimp only at haccepted
  split at haccepted
  · rename_i hnothing
    rw [Bool.and_eq_true, List.isEmpty_iff, List.isEmpty_iff] at hnothing
    split at haccepted
    · cases haccepted
    · rename_i label hsingle
      cases haccepted
      exact ⟨rfl, targets, hgathered, rfl, Or.inr ⟨label, rfl, hnothing.1, hnothing.2, hsingle⟩⟩
  · rename_i hsomething
    cases haccepted
    refine ⟨rfl, targets, hgathered, rfl, Or.inl ⟨rfl, ?_⟩⟩
    rw [Bool.and_eq_true, List.isEmpty_iff, List.isEmpty_iff, not_and_or] at hsomething
    exact hsomething

theorem settle_ok {settled : Settled C} {after : PendingWrites C}
    (haccepted : settle graph now config state results inputs active deferred ctx store =
      (.ok settled, after)) :
    SettledBy graph now config state results inputs active deferred settled := by
  unfold settle at haccepted
  dsimp only at haccepted
  split at haccepted
  · cases haccepted
  rename_i hunfailed
  obtain ⟨-, hunrefused, hsucceeded, hfolded⟩ := foldl_node_ok hunfailed
  split at haccepted
  · cases haccepted
  rename_i next hgiven
  obtain ⟨hedges, -⟩ := Prod.mk.injEq .. ▸ haccepted
  obtain ⟨hsame, hrouted⟩ := settleEdges_ok hedges
  subst hsame
  exact ⟨hsucceeded, hunrefused, ⟨_, hfolded, hgiven⟩, hrouted⟩

end Settle

end LlmGraph.Superstep
