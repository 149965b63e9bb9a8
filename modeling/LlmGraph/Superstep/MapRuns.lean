/- digest: The maps of a superstep run as maps do: whatever the other nodes do meanwhile leaves the
   occurrences of their items alone. -/

import LlmGraph.Superstep.Map

set_option autoImplicit false
set_option relaxedAutoImplicit false

namespace LlmGraph.Superstep

open OccurrenceKey (ofPath)

variable {C : Type} [Conversation C] [DecidableEq C]

section Supersteps

variable {graph : Graph C} {config : Config C} {state : State C} {run : OccurrenceKey}
  {present : List NodeId} {store : PendingWrites C}

/-- A map that is a node of a superstep. -/
def nodeSite (config : Config C) (state : State C) (run : OccurrenceKey) (id : NodeId)
    (fields : Map C) (body : Node C) : MapSite C :=
  ⟨config, fields, body, state, run, id, [], true⟩

/-- How the nodes of a superstep stand: what is recorded of a node is as it was until the node is
polled, and a map that is not reused is in a run. -/
private def MapsRun (graph : Graph C) (config : Config C) (state : State C) (run : OccurrenceKey)
    (present : List NodeId) (store : PendingWrites C) (driving : Driving C) : Prop :=
  ∀ (position : Nat) (id : NodeId) (task : Task C), present[position]? = some id →
    driving.tasks[position]? = some task →
      (task = .waiting → ∀ path, driving.store (ofPath run id path) = store (ofPath run id path)) ∧
      ∀ fields body, graph.node id = some (.map fields body) →
        Context.recorded (Context.forNode ⟨run, true⟩ id) store = none →
          ∃ before, (nodeSite config state run id fields body).Runs store before task driving.store

omit [DecidableEq C] in
/-- The updates of a node are recorded at its own occurrence. -/
private theorem keepNode_store {ctx : Context} {progress : Progress C} {key : OccurrenceKey}
    (hapart : key ≠ ctx.occurrence) : (keepNode ctx progress).store key = progress.store key := by
  unfold keepNode
  split
  · dsimp only [Context.record, Context.keep]
    split
    · exact Function.update_of_ne hapart ..
    · rfl
  · rfl

/-- A run of a map goes on with each poll of its node. -/
private theorem runs_keepNode {id : NodeId} {fields : Map C} {body : Node C} {before : List (Task C)}
    {path : List Nat} {act : Act C} {task : Task C} {current : PendingWrites C}
    {inner : Progress C} (notes : List (Note C))
    (hhere : (nodeSite config state run id fields body).Runs store before task current)
    (htaken : (Node.map fields body).run config state (Context.forNode ⟨run, true⟩ id) path act task
      current = some inner) :
    (nodeSite config state run id fields body).Runs store (before ++ [task]) inner.task
      (keepNode (Context.forNode ⟨run, true⟩ id) { inner with notes := notes }).store := by
  refine MapSite.Runs.others (hhere.polls htaken) fun index => ?_
  refine keepNode_store ?_
  intro hsame
  have hown : ofPath run id ([] ++ [index]) = ofPath run id [] := hsame
  exact absurd (OccurrenceKey.ofPath_inj hown).2 (by simp)

private theorem nodePoll_begun {id : NodeId} {node : Node C} {path : List Nat} {act : Act C}
    {task : Task C} {progress : Progress C} {current : PendingWrites C}
    (hpolled : NodePoll config node state (Context.forNode ⟨run, true⟩ id) current path act task
      progress) : progress.task ≠ .waiting := by
  cases hpolled with
  | reused => exact fun hsame => by cases hsame
  | first _ htaken =>
      have hbegun := run_begun htaken
      rw [keepNode_task]
      exact hbegun
  | later _ htaken =>
      have hbegun := run_begun htaken
      rw [keepNode_task]
      exact hbegun

private theorem mapsRun_advance {driving next : Driving C} {position : Nat} {path : List Nat}
    {act : Act C} (hdistinct : present.Nodup)
    (hholds : MapsRun graph config state run present store driving)
    (hadvanced : driving.advance graph config state ⟨run, true⟩ present position path act =
      some next) : MapsRun graph config state run present store next := by
  obtain ⟨id, task, node, progress, hlocated, hstanding, hknown, hpolled, rfl⟩ :=
    advance_eq_some hadvanced
  intro other own now hhere hfound
  rcases eq_or_ne other position with rfl | hapart
  · rw [hlocated] at hhere
    cases hhere
    have hbound := (List.getElem?_eq_some_iff.mp hstanding).1
    rw [List.getElem?_set_self hbound] at hfound
    cases hfound
    refine ⟨fun hwaiting => absurd hwaiting (nodePoll_begun hpolled), ?_⟩
    intro fields body hmap hmissing
    rw [hknown] at hmap
    cases hmap
    obtain ⟨hunpolled, hruns⟩ := hholds other id task hlocated hstanding
    obtain ⟨before, hrunning⟩ := hruns fields body hknown hmissing
    cases hpolled with
    | reused hfound =>
        have hsame := hunpolled rfl []
        have hheld : driving.store (ofPath run id []) = some ⟨_, none⟩ :=
          PendingWrites.matching_some _ hfound
        exact absurd (hsame.symm.trans hheld) (PendingWrites.matching_none _ hmissing _)
    | @first inner _ htaken =>
        have hgoes := runs_keepNode (.ran (ofPath run id []) :: inner.notes) hrunning htaken
        rw [keepNode_task]
        exact ⟨_, hgoes⟩
    | @later path act task inner _ htaken =>
        have hgoes := runs_keepNode inner.notes hrunning htaken
        rw [keepNode_task]
        exact ⟨_, hgoes⟩
  · rw [List.getElem?_set_ne hapart.symm] at hfound
    obtain ⟨hunpolled, hruns⟩ := hholds other own now hhere hfound
    have hotherNode : own ≠ id := by
      rintro rfl
      have hfirst := (List.getElem?_eq_some_iff.mp hhere).1
      exact hapart ((List.getElem?_inj hfirst hdistinct).mp (hhere.trans hlocated.symm))
    obtain ⟨hreplays, hnoted⟩ := nodePoll_at hpolled
    have hkept : ∀ path, progress.store (ofPath run own path) =
        driving.store (ofPath run own path) := by
      intro path
      rw [hreplays]
      exact replay_other hnoted hotherNode driving.store path
    refine ⟨fun hwaiting path => (hkept path).trans (hunpolled hwaiting path), ?_⟩
    intro fields body hmap hmissing
    obtain ⟨before, hrunning⟩ := hruns fields body hmap hmissing
    exact ⟨before, hrunning.others fun index => hkept _⟩

/-- A map node of a superstep, whose nodes are distinct, is in a run of its own unless an earlier
attempt recorded it. -/
theorem driveSuperstep_runs {active : List NodeId} {events : List (Event C)} {driving : Driving C}
    {result : StepResult C} (hdistinct : active.Nodup)
    (hdrove : driveSuperstep graph config state ⟨run, true⟩ active store events =
      some (driving, result)) {position : Nat} {id : NodeId} {task : Task C} {fields : Map C}
    {body : Node C}
    (hlocated : (active.filter fun id => (graph.node id).isSome)[position]? = some id)
    (hstanding : driving.tasks[position]? = some task)
    (hknown : graph.node id = some (.map fields body))
    (hmissing : Context.recorded (Context.forNode ⟨run, true⟩ id) store = none) :
    ∃ before, (nodeSite config state run id fields body).Runs store before task driving.store := by
  have hkept : MapsRun graph config state run (active.filter fun id => (graph.node id).isSome) store
      driving := by
    refine drive_preserves _ (fun _ _ _ _ _ => mapsRun_advance (hdistinct.filter _)) ?_ ?_ hdrove
    · intro driving command hholds
      rcases command with ⟨key, input⟩ | _ | _ | _
      · exact hholds
      · exact hholds
      · exact hholds
      · exact hholds
    · intro position id task hhere hfound
      obtain ⟨-, rfl⟩ : _ ∧ task = .waiting := by
        rw [List.getElem?_map, hhere] at hfound
        cases hfound
        exact ⟨trivial, rfl⟩
      exact ⟨fun _ _ => rfl, fun _ _ _ _ => ⟨[], .starts⟩⟩
  exact (hkept position id task hlocated hstanding).2 fields body hknown hmissing

end Supersteps

/-- A map that has ended without a panic of a body has made one thing of the ends of the items it
started, whatever its width and the order in which they ended: their updates one after the other, or
the first error in list order. Unless it stops at an error these are all its items; each success is
recorded; and where failures are captured, only refused updates are an error. Every map node of a superstep
over distinct nodes is in such a run, unless an earlier attempt recorded it. -/
theorem map_ends (site : MapSite C) (items : List (Value C)) (width : Nat)
    (hlisted : site.state.list site.fields.list = .ok items)
    (hsized : site.fields.width site.config items = .ok width) (initial final : PendingWrites C)
    (before : List (Task C)) (outcome : RawOutcome C)
    (hran : site.Runs initial before (.ended outcome) final) :
    ((∃ text index item, outcome = .panicked text ∧ items[index]? = some item ∧
          site.ItemPanic item index text) ∨
        ∃ results, site.Ends items initial before outcome final results ∧
          (∀ ends : Nat → RawOutcome C,
            (∀ (index : Nat) (item : Value C) (result : RawOutcome C), items[index]? = some item →
              site.ItemEnd initial index item result → result = ends index) →
            results = (List.range results.length).map ends) ∧
          ∀ schema captures, site.fields.onItemFailure = .capture captures →
            site.fields.check schema = .ok () → site.state.MadeFrom schema →
            ∀ (index : Nat) (item : Value C) (error : NodeError C), items[index]? = some item →
              results[index]? = some (.error error) → site.Refused initial index item error) ∧
      ∀ (graph : Graph C) (config : Config C) (state : State C) (run : OccurrenceKey)
        (active : List NodeId) (earlier : PendingWrites C) (events : List (Event C))
        (driving : Driving C) (result : StepResult C), active.Nodup →
        driveSuperstep graph config state ⟨run, true⟩ active earlier events =
          some (driving, result) →
        ∀ (position : Nat) (id : NodeId) (task : Task C) (fields : Map C) (body : Node C),
          (active.filter fun id => (graph.node id).isSome)[position]? = some id →
          driving.tasks[position]? = some task → graph.node id = some (.map fields body) →
          Context.recorded (Context.forNode ⟨run, true⟩ id) earlier = none →
          ∃ before, (nodeSite config state run id fields body).Runs earlier before task
            driving.store := by
  refine ⟨?_, fun graph config state run active earlier events driving result hdistinct hdrove
    position id task fields body hlocated hstanding hknown hmissing =>
      driveSuperstep_runs hdistinct hdrove hlocated hstanding hknown hmissing⟩
  rcases MapSite.invariant_of_runs hlisted hsized hran with hpanics | ⟨results, hends⟩
  · exact Or.inl hpanics
  · refine Or.inr ⟨results, hends, ?_, ?_⟩
    · intro own hunique
      refine List.ext_getElem? fun index => ?_
      rcases Nat.lt_or_ge index results.length with hinside | hbeyond
      · have hbound : index < items.length := hinside.trans_le hends.listed
        have hfound := List.getElem?_eq_getElem hinside
        have hsame := hunique index _ _ (List.getElem?_eq_getElem hbound)
          (hends.ends index _ _ hfound (List.getElem?_eq_getElem hbound))
        rw [hfound, hsame, List.getElem?_map, List.getElem?_range hinside]
        rfl
      · rw [List.getElem?_eq_none hbeyond, List.getElem?_eq_none (by simpa using hbeyond)]
    · intro schema captures hpolicy hchecked hmade index item error hgiven hfailed
      exact MapSite.refused_of_capture hpolicy hchecked hmade hlisted hgiven
        (hends.ends index _ item hfailed hgiven)

/-- The run of a map over given polls, with where it stood before each. -/
def MapSite.follow (site : MapSite C) : List (Task C) × Progress C → List (List Nat × Act C) →
    Option (List (Task C) × Progress C)
  | stood, [] => some stood
  | (before, progress), (path, act) :: rest =>
      match (Node.map site.fields site.body).run site.config site.state site.context path act
          progress.task progress.store with
      | none => none
      | some next => site.follow (before ++ [progress.task], next) rest

theorem MapSite.follow_runs {site : MapSite C} {initial : PendingWrites C}
    {polls : List (List Nat × Act C)} {stood ended : List (Task C) × Progress C}
    (hhere : site.Runs initial stood.1 stood.2.task stood.2.store)
    (hfollowed : site.follow stood polls = some ended) :
    site.Runs initial ended.1 ended.2.task ended.2.store := by
  induction polls generalizing stood with
  | nil =>
      cases hfollowed
      exact hhere
  | cons poll rest hstep =>
      obtain ⟨before, progress⟩ := stood
      unfold MapSite.follow at hfollowed
      split at hfollowed
      · cases hfollowed
      · rename_i next hpolled
        exact hstep (hhere.polls hpolled) hfollowed

namespace Fork

def eachSite : MapSite Unit :=
  ⟨config, ⟨"items", "item", none, .finish⟩, host, state, [], "each", [], true⟩

/-- The second item ends before the first. -/
def reversed : List (Task Unit) × Progress Unit :=
  (eachSite.follow ([], ⟨.waiting, PendingWrites.empty, []⟩)
    [([], .poll), ([], .pull), ([], .pull), ([0], .poll), ([1], .poll),
      ([1], .returns (.ok [.append "outs" (.str "b")])),
      ([0], .returns (.ok [.append "outs" (.str "a")])), ([], .collect)]).get (by decide +kernel)

def outcome : RawOutcome Unit := .ok [.append "outs" (.str "a"), .append "outs" (.str "b")]

end Fork

theorem map_ends_reversed :
    (∃ text index item, Fork.outcome = .panicked text ∧
        ([.str "a", .str "b"] : List (Value Unit))[index]? = some item ∧
        Fork.eachSite.ItemPanic item index text) ∨
      ∃ results, Fork.eachSite.Ends [.str "a", .str "b"] PendingWrites.empty Fork.reversed.1
          Fork.outcome Fork.reversed.2.store results ∧
        (∀ ends : Nat → RawOutcome Unit,
          (∀ (index : Nat) (item : Value Unit) (result : RawOutcome Unit),
            ([.str "a", .str "b"] : List (Value Unit))[index]? = some item →
            Fork.eachSite.ItemEnd PendingWrites.empty index item result → result = ends index) →
          results = (List.range results.length).map ends) ∧
        ∀ schema captures, Fork.eachSite.fields.onItemFailure = .capture captures →
          Fork.eachSite.fields.check schema = .ok () → Fork.eachSite.state.MadeFrom schema →
          ∀ (index : Nat) (item : Value Unit) (error : NodeError Unit),
            ([.str "a", .str "b"] : List (Value Unit))[index]? = some item →
            results[index]? = some (.error error) →
              Fork.eachSite.Refused PendingWrites.empty index item error :=
  (map_ends Fork.eachSite [.str "a", .str "b"] 2 rfl rfl PendingWrites.empty Fork.reversed.2.store
    Fork.reversed.1 Fork.outcome
    (@MapSite.follow_runs _ _ _ Fork.eachSite _ _ ([], ⟨.waiting, PendingWrites.empty, []⟩) _ .starts
      (Option.some_get _).symm)).1

end LlmGraph.Superstep
