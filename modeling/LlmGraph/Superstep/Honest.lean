/- digest: A superstep of deterministic nodes, on a recorder that holds nothing but what they return:
   what it records and what its nodes end with is what they return, and it runs nothing recorded. -/

import LlmGraph.Superstep.Atomic
import LlmGraph.Superstep.Yields

set_option autoImplicit false
set_option relaxedAutoImplicit false

namespace LlmGraph.Superstep

open OccurrenceKey (ofPath)

variable {C : Type} [Conversation C]

/-- What is recorded at a path of a node: its own updates, or those of an item. -/
def Node.entry (oracle : Oracle C) (node : Node C) (state : State C) (path : List Nat) :
    Option (PendingEntry C) :=
  if path.isEmpty then some ⟨node.yields oracle state [], none⟩
  else node.expects oracle state [] path

theorem Node.entry_below {oracle : Oracle C} {node : Node C} {state : State C} {path : List Nat}
    (hbelow : path ≠ []) : node.entry oracle state path = node.expects oracle state [] path :=
  if_neg (by simpa using hbelow)

/-- The entry is what the occurrence of a node, or of an item, returns on the state. -/
def Returns (graph : Graph C) (oracles : NodeId → Oracle C) (state : State C) (run : OccurrenceKey)
    (ids : List NodeId) (key : OccurrenceKey) (entry : PendingEntry C) : Prop :=
  ∃ id ∈ ids, ∃ node path, graph.node id = some node ∧ key = ofPath run id path ∧
    node.entry (oracles id) state path = some entry

/-- A recorder holds nothing but what the nodes return on the state. -/
def Truthful (graph : Graph C) (oracles : NodeId → Oracle C) (state : State C) (run : OccurrenceKey)
    (ids : List NodeId) (store : PendingWrites C) : Prop :=
  ∀ key entry, store key = some entry → Returns graph oracles state run ids key entry

/-- Whatever a host, a called graph or a captured item of the superstep succeeded with is what it
always returns there. -/
def HonestNotes (graph : Graph C) (oracles : NodeId → Oracle C) (run : OccurrenceKey)
    (notes : List (Note C)) : Prop :=
  ∀ note ∈ notes, ∀ id node, graph.node id = some node →
    note.Honest node.atomic (oracles id) run id []

/-- A node of the superstep has come to nothing but what it returns. -/
def Node.Stands (oracle : Oracle C) (node : Node C) (state : State C) (task : Task C) : Prop :=
  node.Sound oracle state [] task ∧
    ∀ updates, task = .ended (.ok updates) → updates = node.yields oracle state []

section Node

variable [DecidableEq C] {oracle : Oracle C} {config : Config C} {node : Node C} {state : State C}
  {run : OccurrenceKey} {id : NodeId} {store : PendingWrites C} {progress : Progress C}

omit [DecidableEq C] in
/-- A node that ends records what it returns: a leaf because it is honest, a map because it is
sound. -/
private theorem keepNode_stands (hsound : node.Sound oracle state [] progress.task)
    (hnoted : ∀ note ∈ progress.notes, note.Holds (node.expects oracle state []) run id [])
    (hhonest : ∀ note ∈ (keepNode (Context.forNode ⟨run, true⟩ id) progress).notes,
      note.Honest node.atomic oracle run id []) :
    node.Stands oracle state progress.task ∧
      ∀ note ∈ (keepNode (Context.forNode ⟨run, true⟩ id) progress).notes,
        note.Holds (node.entry oracle state) run id [] := by
  have hlifted : ∀ note ∈ progress.notes, note.Holds (node.entry oracle state) run id [] := by
    intro note hmember
    have hholds := hnoted note hmember
    rcases note with occurrence | occurrence | ⟨occurrence, entry⟩
    · exact trivial
    · exact trivial
    · obtain ⟨path, hsame, hexpected⟩ := hholds
      refine ⟨path, hsame, ?_⟩
      have hbelow : path ≠ [] := by
        rintro rfl
        rw [expects_nil] at hexpected
        cases hexpected
      rw [Node.entry_below hbelow]
      exact hexpected
  unfold keepNode at hhonest ⊢
  split
  · rename_i updates hended
    rw [hended] at hsound hhonest ⊢
    have hown := hhonest (.finished (ofPath run id []) ⟨updates, none⟩)
      (List.mem_append_right _ List.mem_cons_self) [] rfl
    have hsame : updates = node.yields oracle state [] := by
      cases node with
      | host check => exact hown rfl
      | call check start => exact hown rfl
      | map fields body => exact hsound
    refine ⟨⟨hsound, fun other hsuccess => ?_⟩, ?_⟩
    · cases hsuccess
      exact hsame
    · intro note hmember
      rcases List.mem_append.mp hmember with hold | hnew
      · exact hlifted note hold
      · cases List.mem_singleton.mp hnew
        exact ⟨[], rfl, by rw [hsame]; rfl⟩
  · rename_i hunended
    exact ⟨⟨hsound, fun updates hended => absurd hended (hunended updates)⟩, hlifted⟩

/-- A poll of a node of the superstep keeps it as it must stand, notes what is returned, and runs
only what the recorder does not hold. -/
private theorem nodePoll_stands {path : List Nat} {act : Act C} {task : Task C}
    (hpolled : NodePoll config node state (Context.forNode ⟨run, true⟩ id) store path act task
      progress)
    (hstands : node.Stands oracle state task)
    (hheld : ∀ path entry, store (ofPath run id path) = some entry →
      node.entry oracle state path = some entry)
    (hhonest : ∀ note ∈ progress.notes, note.Honest node.atomic oracle run id []) :
    node.Stands oracle state progress.task ∧
      (∀ note ∈ progress.notes, note.Holds (node.entry oracle state) run id []) ∧
      ∀ occurrence, .ran occurrence ∈ progress.notes → store occurrence = none := by
  have hbelow : ∀ path entry, store (ofPath run id ([] ++ path)) = some entry → path ≠ [] →
      node.expects oracle state [] path = some entry := by
    intro path entry hfound hinside
    have hexpected := hheld path entry hfound
    rw [Node.entry_below hinside] at hexpected
    exact hexpected
  cases hpolled with
  | @reused updates hfound =>
      have hhere : store (ofPath run id []) = some ⟨updates, none⟩ :=
        PendingWrites.matching_some _ hfound
      have hsame : updates = node.yields oracle state [] :=
        (congrArg PendingEntry.updates (Option.some.inj (hheld [] _ hhere))).symm
      refine ⟨⟨?_, fun other hsuccess => ?_⟩, by simp, by simp⟩
      · cases node with
        | host => exact trivial
        | call => exact trivial
        | map => exact hsame
      · cases hsuccess
        exact hsame
  | @first inner hmissing htaken =>
      have hran : node.run config state ⟨ofPath run id [], true⟩ [] .poll .waiting store =
          some inner := htaken
      have hkept : ∀ note ∈ inner.notes, note ∈ (keepNode (Context.forNode ⟨run, true⟩ id)
          { inner with notes := .ran (ofPath run id []) :: inner.notes }).notes := fun note hmember =>
        subset_keepNode (List.mem_cons_of_mem _ hmember)
      obtain ⟨hsound, hnoted⟩ := run_sound hran hstands.1 hbelow fun note hmember =>
        hhonest note (hkept note hmember)
      obtain ⟨hnow, htold⟩ := @keepNode_stands _ _ oracle node state run id
        { inner with notes := .ran (ofPath run id []) :: inner.notes } hsound
        (fun note hmember => by
          rcases List.mem_cons.mp hmember with rfl | hold
          · exact trivial
          · exact hnoted note hold) hhonest
      rw [keepNode_task]
      refine ⟨hnow, htold, fun occurrence hmember => ?_⟩
      rcases mem_keepNode hmember with hold | ⟨entry, hsame⟩
      · rcases List.mem_cons.mp hold with hown | hlater
        · cases hown
          have hmissingHere : store (ofPath run id []) = none := by
            rcases hhere : store (ofPath run id []) with _ | entry
            · rfl
            · have hexpected := hheld [] entry hhere
              cases Option.some.inj hexpected
              exact absurd hhere (PendingWrites.matching_none _ hmissing _)
          exact hmissingHere
        · exact run_ran hran hbelow occurrence hlater
      · cases hsame
  | @later path act task inner hstarted htaken =>
      have hran : node.run config state ⟨ofPath run id [], true⟩ path act task store =
          some inner := htaken
      obtain ⟨hsound, hnoted⟩ := run_sound hran hstands.1 hbelow fun note hmember =>
        hhonest note (subset_keepNode hmember)
      obtain ⟨hnow, htold⟩ := @keepNode_stands _ _ oracle node state run id inner hsound hnoted hhonest
      rw [keepNode_task]
      refine ⟨hnow, htold, fun occurrence hmember => ?_⟩
      rcases mem_keepNode hmember with hold | ⟨entry, hsame⟩
      · exact run_ran hran hbelow occurrence hold
      · cases hsame

end Node

section Store

variable {graph : Graph C} {oracles : NodeId → Oracle C} {state : State C} {run : OccurrenceKey}
  {ids : List NodeId} {store next : PendingWrites C}

/-- What a replay holds was noted, or was there before. -/
theorem replay_some {notes : List (Note C)} {key : OccurrenceKey} {entry : PendingEntry C}
    (hfound : replay notes store key = some entry) :
    .finished key entry ∈ notes ∨ store key = some entry := by
  induction notes using List.reverseRecOn with
  | nil => exact Or.inr hfound
  | append_singleton before note hstep =>
      have hpast : replay before store key = some entry →
          .finished key entry ∈ before ++ [note] ∨ store key = some entry := fun hheld =>
        (hstep hheld).imp_left (List.mem_append_left _)
      rw [replay_concat] at hfound
      rcases note with occurrence | occurrence | ⟨occurrence, own⟩
      · exact hpast hfound
      · dsimp only [Note.write, PendingWrites.dropBelow] at hfound
        split at hfound
        · cases hfound
        · exact hpast hfound
      · by_cases hsame : key = occurrence
        · subst hsame
          have hownEntry : (Note.finished key own).write (replay before store) key = some own :=
            Function.update_self ..
          cases hownEntry.symm.trans hfound
          exact Or.inl (List.mem_append_right _ List.mem_cons_self)
        · have hother : (Note.finished occurrence own).write (replay before store) key =
              replay before store key := Function.update_of_ne hsame ..
          exact hpast (hother.symm.trans hfound)

/-- A recorder that has lost entries holds nothing else. -/
theorem Truthful.lose (htruthful : Truthful graph oracles state run ids store)
    (hlost : ∀ key, next key = none ∨ next key = store key) :
    Truthful graph oracles state run ids next := by
  intro key entry hheld
  rcases hlost key with hgone | hsame
  · rw [hgone] at hheld
    cases hheld
  · exact htruthful key entry (hsame ▸ hheld)

/-- What is recorded of a node is what it returns there. -/
theorem Truthful.held (htruthful : Truthful graph oracles state run ids store) {id : NodeId}
    {node : Node C} (hknown : graph.node id = some node) (path : List Nat) (entry : PendingEntry C)
    (hfound : store (ofPath run id path) = some entry) :
    node.entry (oracles id) state path = some entry := by
  obtain ⟨other, -, node', path', hknown', hsame, hgives⟩ := htruthful _ _ hfound
  obtain ⟨rfl, rfl⟩ := OccurrenceKey.ofPath_inj hsame
  rw [hknown] at hknown'
  cases hknown'
  exact hgives

/-- Once the entries of the active nodes are dropped, nothing is recorded. -/
theorem Truthful.dropped (htruthful : Truthful graph oracles state run ids store) :
    Context.dropPending ⟨run, true⟩ store ids = PendingWrites.empty := by
  funext key
  rcases hheld : store key with _ | entry
  · rw [Context.dropPending, PendingWrites.dropNodes]
    split
    · split
      · split
        · rfl
        · exact hheld
      · exact hheld
    · exact hheld
  · obtain ⟨id, hmember, -, path, -, rfl, -⟩ := htruthful _ _ hheld
    obtain ⟨index, hnamed⟩ := OccurrenceKey.segment_ofPath run id path
    have hinside := OccurrenceKey.startsWith_ofPath run id path
    rw [Context.dropPending, PendingWrites.dropNodes, if_pos hinside]
    dsimp only
    rw [hnamed]
    exact if_pos hmember

end Store

section Superstep

variable [DecidableEq C] {graph : Graph C} {oracles : NodeId → Oracle C} {config : Config C}
  {state : State C} {run : OccurrenceKey} {active present : List NodeId}
  {initial : PendingWrites C}

/-- A superstep that has run nothing recorded: its recorder holds nothing but what the nodes
return, and the nodes have come to nothing else. -/
structure Faithful (graph : Graph C) (oracles : NodeId → Oracle C) (state : State C)
    (run : OccurrenceKey) (active present : List NodeId) (initial : PendingWrites C)
    (driving : Driving C) : Prop where
  recorded : Recorded graph run present initial driving
  truthful : Truthful graph oracles state run active driving.store
  stands : ∀ (position : Nat) (id : NodeId) (task : Task C) (node : Node C),
    present[position]? = some id →
    driving.tasks[position]? = some task → graph.node id = some node →
    node.Stands (oracles id) state task
  fresh : ∀ occurrence, .ran occurrence ∈ driving.notes → initial occurrence = none

omit [DecidableEq C] in
theorem Faithful.take {driving : Driving C}
    (hfaithful : Faithful graph oracles state run active present initial driving)
    (command : Command C) :
    Faithful graph oracles state run active present initial (driving.take command) := by
  have hsame : (driving.take command).tasks = driving.tasks ∧
      (driving.take command).store = driving.store ∧
      (driving.take command).notes = driving.notes := by
    cases command <;> exact ⟨rfl, rfl, rfl⟩
  refine ⟨hfaithful.recorded.take command, ?_, ?_, ?_⟩
  · rw [hsame.2.1]
    exact hfaithful.truthful
  · rw [hsame.1]
    exact hfaithful.stands
  · rw [hsame.2.2]
    exact hfaithful.fresh

omit [DecidableEq C] in
/-- What the recorder does not hold while the superstep runs, it did not hold before. -/
private theorem missing_before {driving : Driving C}
    (hrecorded : Recorded graph run present initial driving) {occurrence : OccurrenceKey}
    {id : NodeId} {node : Node C} {path : List Nat} (hknown : graph.node id = some node)
    (hsame : occurrence = ofPath run id path) (hshallow : path.length ≤ node.depth)
    (hmissing : driving.store occurrence = none) : initial occurrence = none := by
  rw [hrecorded.replays, replay_apply (separate_of hrecorded.noted), hsame,
    not_restarted hrecorded.noted hknown hshallow] at hmissing
  rw [hsame]
  split at hmissing
  · cases hmissing
  · exact hmissing

theorem Faithful.advance {driving next : Driving C} {position : Nat} {path : List Nat} {act : Act C}
    (hfaithful : Faithful graph oracles state run active present initial driving)
    (hwithin : ∀ id ∈ present, id ∈ active)
    (hadvanced : driving.advance graph config state ⟨run, true⟩ present position path act =
      some next)
    (hhonest : HonestNotes graph oracles run next.notes) :
    Faithful graph oracles state run active present initial next := by
  have hrecorded := hfaithful.recorded.advance hadvanced
  obtain ⟨id, task, node, progress, hlocated, hstanding, hknown, hpolled, rfl⟩ :=
    advance_eq_some hadvanced
  have hhere := List.mem_of_getElem? hlocated
  obtain ⟨hstored, hnoted⟩ := nodePoll_at hpolled
  obtain ⟨hstands, htold, hmissing⟩ := nodePoll_stands hpolled
    (hfaithful.stands position id task node hlocated hstanding hknown)
    (hfaithful.truthful.held hknown)
    (fun note hmember => hhonest note (List.mem_append_right _ hmember) id node hknown)
  refine ⟨hrecorded, ?_, ?_, ?_⟩
  · intro key entry hheld
    dsimp only at hheld
    rw [hstored] at hheld
    rcases replay_some hheld with hnew | hold
    · obtain ⟨path, hsame, hgives⟩ := htold _ hnew
      exact ⟨id, hwithin id hhere, node, path, hknown, hsame, hgives⟩
    · exact hfaithful.truthful key entry hold
  · intro other id' task' node' hlocated' hstanding' hknown'
    rw [List.getElem?_set] at hstanding'
    split at hstanding'
    · rename_i hsame
      subst hsame
      rw [hlocated] at hlocated'
      cases hlocated'
      rw [hknown] at hknown'
      cases hknown'
      split at hstanding'
      · cases hstanding'
        exact hstands
      · cases hstanding'
    · exact hfaithful.stands other id' task' node' hlocated' hstanding' hknown'
  · intro occurrence hmember
    rcases List.mem_append.mp hmember with hold | hnew
    · exact hfaithful.fresh occurrence hold
    · obtain ⟨path, hsame, hshallow⟩ := hnoted _ hnew
      exact missing_before hfaithful.recorded hknown hsame hshallow (hmissing occurrence hnew)

omit [DecidableEq C] in
theorem Faithful.drained {driving : Driving C}
    (hfaithful : Faithful graph oracles state run active present initial driving)
    (commands : List (Command C)) :
    Faithful graph oracles state run active present initial (drainAfterStep driving commands).1 := by
  induction commands generalizing driving with
  | nil => exact hfaithful
  | cons command rest hstep =>
      rcases command with ⟨key, input⟩ | _ | _ | _
      · exact hstep (hfaithful.take _)
      · exact hstep (hfaithful.take _)
      · exact hstep (hfaithful.take _)
      · exact hfaithful

omit [DecidableEq C] in
/-- A node of the superstep that has not been polled has come to nothing. -/
private theorem faithful_begins
    (htruthful : Truthful graph oracles state run active initial) (present : List NodeId) :
    Faithful graph oracles state run active present initial
      ⟨present.map fun _ => .waiting, initial, [], false, []⟩ := by
  refine ⟨⟨rfl, by simp, List.length_map _⟩, htruthful, ?_, by simp⟩
  intro position id task node hlocated hstanding hknown
  rw [List.getElem?_map, hlocated] at hstanding
  cases hstanding
  exact ⟨sound_waiting node, fun updates hsame => by cases hsame⟩

/-- A superstep of honest nodes, on a recorder that holds nothing but what they return. -/
theorem superstep_faithful {here : Standing C} {schedule : Schedule C} {stepped : Stepped C}
    (htaken : superstep graph config ⟨run, true⟩ here schedule = some stepped)
    (htruthful : Truthful graph oracles here.state run here.active here.store)
    (hhonest : HonestNotes graph oracles run stepped.driven.notes) :
    Faithful graph oracles here.state run here.active
      (here.active.filter fun id => (graph.node id).isSome) here.store stepped.driven := by
  obtain ⟨driven, result, hdrove, hstopped⟩ := superstep_driven htaken
  have hstart : HonestNotes graph oracles run driven.notes →
      Faithful graph oracles here.state run here.active
        (here.active.filter fun id => (graph.node id).isSome) here.store driven := by
    refine drive_preserves (fun driving => HonestNotes graph oracles run driving.notes →
      Faithful graph oracles here.state run here.active
        (here.active.filter fun id => (graph.node id).isSome) here.store driving)
      ?_ ?_ (fun _ => faithful_begins htruthful _) hdrove
    · intro driving next position path act hstep hadvanced hhonest
      refine (hstep fun note hmember => hhonest note ?_).advance
        (fun id hmember => (List.mem_filter.mp hmember).1) hadvanced hhonest
      obtain ⟨-, -, -, -, -, -, -, -, rfl⟩ := advance_eq_some hadvanced
      exact List.mem_append_left _ hmember
    · intro driving command hstep hhonest
      refine (hstep ?_).take command
      cases command <;> exact hhonest
  rcases hstopped with ⟨-, hsame, -⟩ | ⟨results, -, hsame, -⟩
  · rw [hsame] at hhonest ⊢
    exact hstart hhonest
  · rw [hsame] at hhonest ⊢
    rw [(drained_same ..).2.2] at hhonest
    exact (hstart hhonest).drained _

end Superstep

end LlmGraph.Superstep
