/- digest: Which nodes and items of a superstep have succeeded, read off where their runs stand at each
   of its moments: the recorder holds an entry of each of them, and no other new one. -/

import LlmGraph.Lib.Entries
import LlmGraph.Superstep.Parts

set_option autoImplicit false
set_option relaxedAutoImplicit false

namespace LlmGraph.Superstep

open OccurrenceKey (ofPath)

variable {C : Type} [Conversation C]

/-- The run of the node, or of its item at the path, stands so. -/
def Driving.Stands (driving : Driving C) (present : List NodeId) (id : NodeId) (path : List Nat)
    (task : Task C) : Prop :=
  ∃ (position : Nat) (whole : Task C), present[position]? = some id ∧
    driving.tasks[position]? = some whole ∧ whole.part path = some task

section Visits

variable [DecidableEq C]

/-- Where a superstep stands before each of its events, and where it stops. -/
def visited (graph : Graph C) (config : Config C) (state : State C) (ctx : Context)
    (present : List NodeId) : Driving C → List (Event C) → List (Driving C)
  | driving, [] => [driving]
  | driving, .command command :: rest =>
      driving :: visited graph config state ctx present (driving.take command) rest
  | driving, .node position path act :: rest =>
      driving ::
        match driving.advance graph config state ctx present position path act with
        | none => []
        | some next => visited graph config state ctx present next rest

/-- The active nodes that the graph holds. -/
def Standing.present (graph : Graph C) (here : Standing C) : List NodeId :=
  here.active.filter fun id => (graph.node id).isSome

/-- The moments of a superstep. -/
def visits (graph : Graph C) (config : Config C) (run : OccurrenceKey) (here : Standing C)
    (schedule : Schedule C) : List (Driving C) :=
  visited graph config here.state (runContext graph run) (here.present graph)
    ⟨(here.present graph).map fun _ => .waiting, here.store, [], false, []⟩ schedule.events

/-- At some moment of the superstep the run of the node, or of its item at the path, stands so. -/
def Reaches (graph : Graph C) (config : Config C) (run : OccurrenceKey) (here : Standing C)
    (schedule : Schedule C) (id : NodeId) (path : List Nat) (task : Task C) : Prop :=
  ∃ driving ∈ visits graph config run here schedule,
    driving.Stands (here.present graph) id path task

/-- The occurrence lies strictly inside a graph that the superstep has called. -/
def InCalled (graph : Graph C) (config : Config C) (run : OccurrenceKey) (here : Standing C)
    (schedule : Schedule C) (key : OccurrenceKey) : Prop :=
  ∃ id node path, graph.node id = some node ∧ node.calls = true ∧ path.length = node.depth ∧
    Reaches graph config run here schedule id path .running ∧ ofPath run id path <+: key ∧
    (ofPath run id path).length < key.length

end Visits

/-- What the recorder holds of the runs seen so far: the entry of each that has succeeded, and no
other new one. -/
structure Tracks (graph : Graph C) (run : OccurrenceKey) (present : List NodeId) (state : State C)
    (past : List (Driving C)) (driving : Driving C) : Prop where
  finished : ∀ occurrence entry, .finished occurrence entry ∈ driving.notes →
    ∃ id node path updates, graph.node id = some node ∧ occurrence = ofPath run id path ∧
      (∃ seen ∈ past, seen.Stands present id path (.ended (.ok updates))) ∧
      entry = ⟨updates, node.itemAt state path⟩
  succeeded : ∀ id node path updates, graph.node id = some node →
    (∃ seen ∈ past, seen.Stands present id path (.ended (.ok updates))) →
    ∃ own, (∃ seen ∈ past, seen.Stands present id path (.ended (.ok own))) ∧
      driving.store (ofPath run id path) = some ⟨own, node.itemAt state path⟩
  restarted : ∀ occurrence, .restarted occurrence ∈ driving.notes →
    ∃ id node path, graph.node id = some node ∧ node.calls = true ∧ path.length = node.depth ∧
      occurrence = ofPath run id path ∧ ∃ seen ∈ past, seen.Stands present id path .running
  called : ∀ id node path, graph.node id = some node → node.calls = true →
    path.length = node.depth → (∃ seen ∈ past, seen.Stands present id path .running) →
    .restarted (ofPath run id path) ∈ driving.notes
  within : ∀ seen ∈ past, ∀ id node path task, graph.node id = some node →
    seen.Stands present id path task → path.length ≤ node.depth

section Tracked

variable [DecidableEq C] {graph : Graph C} {config : Config C} {run : OccurrenceKey}
  {present : List NodeId} {state : State C} {past : List (Driving C)} {driving next : Driving C}

omit [DecidableEq C] in
/-- An occurrence that has finished has a last entry. -/
private theorem lastEntry_isSome {notes : List (Note C)} {key : OccurrenceKey}
    {entry : PendingEntry C} (hmem : .finished key entry ∈ notes) : lastEntry notes key ≠ none := by
  induction notes using List.reverseRecOn with
  | nil => cases hmem
  | append_singleton before note ih =>
      rw [lastEntry, List.foldl_append, ← lastEntry]
      rcases List.mem_append.mp hmem with hold | hnew
      · have hbefore := ih hold
        rcases note with occurrence | occurrence | ⟨occurrence, own⟩
        · exact hbefore
        · exact hbefore
        · dsimp only [List.foldl_cons, List.foldl_nil]
          split
          · simp
          · exact hbefore
      · cases List.mem_singleton.mp hnew
        simp

/-- A poll moves the runs of its node from one task to another, and leaves every other as it stands. -/
private structure Moved (present : List NodeId) (id : NodeId) (task moved : Task C)
    (driving next : Driving C) : Prop where
  before : ∀ {path part}, task.part path = some part → driving.Stands present id path part
  after : ∀ {path part}, moved.part path = some part → next.Stands present id path part
  stands : ∀ {other path part}, next.Stands present other path part →
    other = id ∧ moved.part path = some part ∨ driving.Stands present other path part

omit [DecidableEq C] in
private theorem Moved.set {id : NodeId} {task : Task C} {position : Nat}
    (hlocated : present[position]? = some id) (hstanding : driving.tasks[position]? = some task)
    (moved : Task C) (store : PendingWrites C) (notes : List (Note C)) :
    Moved present id task moved driving
      { driving with tasks := driving.tasks.set position moved, store, notes } := by
  have hinside : position < driving.tasks.length := (List.getElem?_eq_some_iff.mp hstanding).1
  refine ⟨fun hpart => ⟨position, task, hlocated, hstanding, hpart⟩,
    fun hpart => ⟨position, moved, hlocated, List.getElem?_set_self hinside, hpart⟩, ?_⟩
  rintro other path part ⟨place, whole, hplace, htask, hpart⟩
  dsimp only at htask
  by_cases hsame : position = place
  · subst hsame
    rw [hlocated, Option.some.injEq] at hplace
    rw [List.getElem?_set_self hinside, Option.some.injEq] at htask
    exact .inl ⟨hplace.symm, htask ▸ hpart⟩
  · rw [List.getElem?_set_ne hsame] at htask
    exact .inr ⟨place, whole, hplace, htask, hpart⟩

omit [DecidableEq C] in
/-- What stands after a poll is the node's own, or was seen before it. -/
private theorem Moved.seen {id other : NodeId} {task moved part : Task C} {path : List Nat}
    (hmoved : Moved present id task moved driving next) (hnow : driving ∈ past)
    (hseen : ∃ seen ∈ past ++ [next], seen.Stands present other path part) :
    other = id ∧ moved.part path = some part ∨
      ∃ seen ∈ past, seen.Stands present other path part := by
  obtain ⟨seen, hmem, hstands⟩ := hseen
  rcases List.mem_append.mp hmem with hold | hlast
  · exact .inr ⟨seen, hold, hstands⟩
  · rw [List.mem_singleton.mp hlast] at hstands
    exact (hmoved.stands hstands).imp_right fun hbefore => ⟨driving, hnow, hbefore⟩

/-- A poll of a node keeps track of what has succeeded. -/
theorem Tracks.advance {position : Nat} {path : List Nat} {act : Act C}
    (htracks : Tracks graph run present state past driving) (hnow : driving ∈ past)
    (hadvanced : driving.advance graph config state ⟨run, true⟩ present position path act =
      some next) : Tracks graph run present state (past ++ [next]) next := by
  obtain ⟨id, task, node, progress, hlocated, hstanding, hknown, hpolled, rfl⟩ :=
    advance_eq_some hadvanced
  have hmoved := Moved.set hlocated hstanding progress.task progress.store
    (driving.notes ++ progress.notes)
  generalize hnext : ({ driving with
    tasks := driving.tasks.set position progress.task
    store := progress.store
    notes := driving.notes ++ progress.notes } : Driving C) = next at hmoved
  have hnotes : next.notes = driving.notes ++ progress.notes := by rw [← hnext]
  have hstore : next.store = progress.store := by rw [← hnext]
  have htells := nodePoll_tells hpolled
  obtain ⟨hreplays, hnoted⟩ := nodePoll_notes (List.mem_of_getElem? hlocated) hknown hpolled
  have hbefore {path : List Nat} {part : Task C} (hpart : task.part path = some part) :
      ∃ seen ∈ past, seen.Stands present id path part := ⟨driving, hnow, hmoved.before hpart⟩
  have hlater {other : NodeId} {path : List Nat} {part : Task C}
      (hseen : ∃ seen ∈ past, seen.Stands present other path part) :
      ∃ seen ∈ past ++ [next], seen.Stands present other path part := by
    obtain ⟨seen, hmem, hpart⟩ := hseen
    exact ⟨seen, List.mem_append_left _ hmem, hpart⟩
  have hnewly {path : List Nat} {part : Task C} (hpart : progress.task.part path = some part) :
      ∃ seen ∈ past ++ [next], seen.Stands present id path part :=
    ⟨next, List.mem_append_right _ List.mem_cons_self, hmoved.after hpart⟩
  have hwithin : ∀ seen ∈ past ++ [next], ∀ other node' path part, graph.node other = some node' →
      seen.Stands present other path part → path.length ≤ node'.depth := by
    intro seen hmem other node' path part hother hpart
    rcases hmoved.seen hnow ⟨seen, hmem, hpart⟩ with ⟨rfl, hpart⟩ | ⟨seen, hold, hpart⟩
    · rw [hknown, Option.some.injEq] at hother
      subst hother
      refine htells.within (fun path part hpart => ?_) path part hpart
      obtain ⟨seen, hmem, hseen⟩ := hbefore hpart
      exact htracks.within seen hmem other node path part hknown hseen
    · exact htracks.within seen hold other node' path part hother hpart
  refine ⟨?_, ?_, ?_, ?_, hwithin⟩
  · intro occurrence entry hmem
    rw [hnotes] at hmem
    rcases List.mem_append.mp hmem with hold | hnew
    · obtain ⟨other, node', path, updates, hother, hkey, hseen, hentry⟩ :=
        htracks.finished occurrence entry hold
      exact ⟨other, node', path, updates, hother, hkey, hlater hseen, hentry⟩
    · obtain ⟨path, updates, -, hkey, hpart, hentry⟩ := htells.finished occurrence entry hnew
      exact ⟨id, node, path, updates, hknown, hkey, hnewly hpart, hentry⟩
  · intro other node' path updates hother hseen
    have hshallow : path.length ≤ node'.depth := by
      obtain ⟨seen, hmem, hpart⟩ := hseen
      exact hwithin seen hmem other node' path _ hother hpart
    have hheld := replay_apply (separate_of hnoted) driving.store (ofPath run other path)
    rw [← hreplays, not_restarted hnoted hother hshallow] at hheld
    rw [hstore, hheld]
    cases hlast : lastEntry progress.notes (ofPath run other path) with
    | some entry =>
        obtain ⟨below, own, -, hkey, hpart, rfl⟩ := htells.finished _ _ (lastEntry_mem hlast)
        obtain ⟨rfl, rfl⟩ := OccurrenceKey.ofPath_inj hkey
        rw [hknown, Option.some.injEq] at hother
        subst hother
        exact ⟨own, hnewly hpart, rfl⟩
    | none =>
        have hpast (hseen : ∃ seen ∈ past, seen.Stands present other path (.ended (.ok updates))) :
            ∃ own, (∃ seen ∈ past ++ [next], seen.Stands present other path (.ended (.ok own))) ∧
              driving.store (ofPath run other path) = some ⟨own, node'.itemAt state path⟩ := by
          obtain ⟨own, hseen, hkept⟩ := htracks.succeeded other node' path updates hother hseen
          exact ⟨own, hlater hseen, hkept⟩
        rcases hmoved.seen hnow hseen with ⟨rfl, hpart⟩ | hold
        · rw [hknown, Option.some.injEq] at hother
          subst hother
          rcases htells.succeeded path updates trivial hpart with hold | hfinished | hkept
          · exact hpast (hbefore hold)
          · exact absurd hlast (lastEntry_isSome hfinished)
          · exact ⟨updates, hnewly hpart, hkept⟩
        · exact hpast hold
  · intro occurrence hmem
    rw [hnotes] at hmem
    rcases List.mem_append.mp hmem with hold | hnew
    · obtain ⟨other, node', path, hother, hcalls, hlength, hkey, hseen⟩ :=
        htracks.restarted occurrence hold
      exact ⟨other, node', path, hother, hcalls, hlength, hkey, hlater hseen⟩
    · obtain ⟨path, hkey, hcalls, hlength, hpart⟩ := htells.restarted occurrence hnew
      exact ⟨id, node, path, hknown, hcalls, hlength, hkey, hnewly hpart⟩
  · intro other node' path hother hcalls hlength hseen
    rw [hnotes]
    have hpast (hseen : ∃ seen ∈ past, seen.Stands present other path .running) :
        .restarted (ofPath run other path) ∈ driving.notes ++ progress.notes :=
      List.mem_append_left _ (htracks.called other node' path hother hcalls hlength hseen)
    rcases hmoved.seen hnow hseen with ⟨rfl, hpart⟩ | hold
    · rw [hknown, Option.some.injEq] at hother
      subst hother
      rcases htells.called path hcalls hlength hpart with hold | hrestarted
      · exact hpast (hbefore hold)
      · exact List.mem_append_right _ hrestarted
    · exact hpast hold

omit [DecidableEq C] in
/-- Only the recorder and what was noted are kept track of. -/
theorem Tracks.held (htracks : Tracks graph run present state past driving)
    (hstore : next.store = driving.store) (hnotes : next.notes = driving.notes) :
    Tracks graph run present state past next where
  finished := hnotes ▸ htracks.finished
  succeeded := hstore ▸ htracks.succeeded
  restarted := hnotes ▸ htracks.restarted
  called := hnotes ▸ htracks.called
  within := htracks.within

omit [DecidableEq C] in
/-- A command moves no run. -/
theorem Tracks.take (htracks : Tracks graph run present state past driving)
    (hnow : driving ∈ past) (command : Command C) :
    Tracks graph run present state (past ++ [driving.take command]) (driving.take command) := by
  have htasks : (driving.take command).tasks = driving.tasks := by cases command <;> rfl
  have hstore : (driving.take command).store = driving.store := by cases command <;> rfl
  have hnotes : (driving.take command).notes = driving.notes := by cases command <;> rfl
  have hlater {id : NodeId} {path : List Nat} {part : Task C} :
      (∃ seen ∈ past ++ [driving.take command], seen.Stands present id path part) ↔
        ∃ seen ∈ past, seen.Stands present id path part := by
    constructor
    · rintro ⟨seen, hmem, hpart⟩
      rcases List.mem_append.mp hmem with hold | hlast
      · exact ⟨seen, hold, hpart⟩
      · rw [List.mem_singleton.mp hlast, Driving.Stands, htasks] at hpart
        exact ⟨driving, hnow, hpart⟩
    · rintro ⟨seen, hmem, hpart⟩
      exact ⟨seen, List.mem_append_left _ hmem, hpart⟩
  have hheld := htracks.held hstore hnotes
  refine ⟨?_, ?_, ?_, ?_, ?_⟩
  · simpa only [hlater] using hheld.finished
  · simpa only [hlater] using hheld.succeeded
  · simpa only [hlater] using hheld.restarted
  · simpa only [hlater] using hheld.called
  · intro seen hmem id node path task hknown hpart
    obtain ⟨before, hold, hsame⟩ := hlater.mp ⟨seen, hmem, hpart⟩
    exact hheld.within before hold id node path task hknown hsame

/-- A superstep is kept track of until it stops. -/
theorem visited_tracks {events : List (Event C)} {stopped : Driving C} {result : StepResult C}
    (htracks : Tracks graph run present state (past ++ [driving]) driving)
    (hdrove : drive graph config state ⟨run, true⟩ present driving events =
      some (stopped, result)) :
    Tracks graph run present state
      (past ++ visited graph config state ⟨run, true⟩ present driving events) stopped := by
  have hnow {past : List (Driving C)} {driving : Driving C} : driving ∈ past ++ [driving] :=
    List.mem_append_right _ List.mem_cons_self
  induction events generalizing past driving with
  | nil =>
      unfold drive at hdrove
      split at hdrove
      · cases hdrove
        exact htracks
      · cases hdrove
  | cons event rest ih =>
      cases event with
      | command command =>
          have htaken := htracks.take hnow command
          rw [visited, ← List.singleton_append, ← List.append_assoc]
          unfold drive at hdrove
          split at hdrove
          · contradiction
          · rename_i hcancel
            cases hcancel
            split at hdrove
            · rename_i hempty
              cases hdrove
              rw [List.isEmpty_iff.mp hempty]
              exact htaken
            · cases hdrove
          · rename_i hsame
            cases hsame
            exact ih htaken hdrove
          · rename_i hsame
            cases hsame
      | node position path act =>
          unfold drive at hdrove
          split at hdrove
          · cases hdrove
          · rename_i next hadvanced
            have hvisited : visited graph config state ⟨run, true⟩ present driving
                (.node position path act :: rest) =
                  [driving] ++ visited graph config state ⟨run, true⟩ present next rest := by
              simp only [visited, hadvanced, List.singleton_append]
            rw [hvisited, ← List.append_assoc]
            exact ih (htracks.advance hnow hadvanced) hdrove

end Tracked

section Unique

variable [DecidableEq C] {graph : Graph C} {config : Config C} {state : State C} {ctx : Context}
  {present : List NodeId} {driving first second : Driving C} {events : List (Event C)}

/-- Each run of the first stands further, or the same, in the second. -/
def Driving.Grows (first second : Driving C) : Prop :=
  ∀ (position : Nat) (task : Task C), first.tasks[position]? = some task →
    ∃ later, second.tasks[position]? = some later ∧ task.Grows later

omit [DecidableEq C] in
theorem Driving.Grows.refl (driving : Driving C) : driving.Grows driving :=
  fun _ task hstanding => ⟨task, hstanding, .refl task⟩

omit [DecidableEq C] in
theorem Driving.Grows.trans {third : Driving C} (hfirst : first.Grows second)
    (hsecond : second.Grows third) : first.Grows third := by
  intro position task hstanding
  obtain ⟨later, hlater, hgrows⟩ := hfirst position task hstanding
  obtain ⟨latest, hlatest, hgrows'⟩ := hsecond position later hlater
  exact ⟨latest, hlatest, hgrows.trans hgrows'⟩

omit [DecidableEq C] in
theorem Driving.Grows.take (driving : Driving C) (command : Command C) :
    driving.Grows (driving.take command) := by
  cases command <;> exact .refl driving

theorem Driving.Grows.advance {next : Driving C} {position : Nat} {path : List Nat} {act : Act C}
    (hadvanced : driving.advance graph config state ctx present position path act = some next) :
    driving.Grows next := by
  obtain ⟨id, task, node, progress, -, hstanding, -, hpolled, rfl⟩ := advance_eq_some hadvanced
  intro place whole hplace
  by_cases hsame : position = place
  · subst hsame
    rw [hstanding, Option.some.injEq] at hplace
    subst hplace
    exact ⟨progress.task, List.getElem?_set_self (List.getElem?_eq_some_iff.mp hstanding).1,
      nodePoll_grows hpolled⟩
  · exact ⟨whole, (List.getElem?_set_ne hsame).trans hplace, .refl whole⟩

/-- A superstep only grows. -/
theorem visited_grows (hseen : second ∈ visited graph config state ctx present driving events) :
    driving.Grows second := by
  induction events generalizing driving with
  | nil =>
      rw [List.mem_singleton.mp hseen]
      exact .refl driving
  | cons event rest ih =>
      cases event with
      | command command =>
          rcases List.mem_cons.mp hseen with rfl | hlater
          · exact .refl _
          · exact (Driving.Grows.take driving command).trans (ih hlater)
      | node position path act =>
          rcases List.mem_cons.mp hseen with rfl | hlater
          · exact .refl _
          · split at hlater
            · cases hlater
            · rename_i next hadvanced
              exact (Driving.Grows.advance hadvanced).trans (ih hlater)

/-- Of two moments of a superstep one grows from the other. -/
theorem visited_ordered (hfirst : first ∈ visited graph config state ctx present driving events)
    (hsecond : second ∈ visited graph config state ctx present driving events) :
    first.Grows second ∨ second.Grows first := by
  induction events generalizing driving with
  | nil =>
      rw [List.mem_singleton.mp hfirst]
      exact .inl (visited_grows hsecond)
  | cons event rest ih =>
      have hhead {other : Driving C}
          (hother : other ∈ visited graph config state ctx present driving (event :: rest)) :
          driving.Grows other := visited_grows hother
      cases event with
      | command command =>
          rcases List.mem_cons.mp hfirst with rfl | hfirst'
          · exact .inl (hhead hsecond)
          · rcases List.mem_cons.mp hsecond with rfl | hsecond'
            · exact .inr (hhead hfirst)
            · exact ih hfirst' hsecond'
      | node position path act =>
          rcases List.mem_cons.mp hfirst with rfl | hfirst'
          · exact .inl (hhead hsecond)
          · rcases List.mem_cons.mp hsecond with rfl | hsecond'
            · exact .inr (hhead hfirst)
            · split at hfirst'
              · cases hfirst'
              · rename_i next hadvanced
                rw [hadvanced] at hsecond'
                exact ih hfirst' hsecond'

/-- A node or an item ends once. -/
theorem visited_unique (hnodup : present.Nodup) {id : NodeId} {path : List Nat}
    {outcome other : RawOutcome C}
    (hfirst : first ∈ visited graph config state ctx present driving events)
    (hsecond : second ∈ visited graph config state ctx present driving events)
    (hended : first.Stands present id path (.ended outcome))
    (hended' : second.Stands present id path (.ended other)) : other = outcome := by
  obtain ⟨position, whole, hplace, htask, hpart⟩ := hended
  obtain ⟨position', whole', hplace', htask', hpart'⟩ := hended'
  cases (List.getElem?_inj (List.getElem?_eq_some_iff.mp hplace).1 hnodup).mp
    (hplace.trans hplace'.symm)
  rcases visited_ordered hfirst hsecond with hgrows | hgrows
  · obtain ⟨later, hlater, hsame⟩ := hgrows position whole htask
    rw [htask', Option.some.injEq] at hlater
    subst hlater
    exact hsame.same hpart hpart'
  · obtain ⟨later, hlater, hsame⟩ := hgrows position whole' htask'
    rw [htask, Option.some.injEq] at hlater
    subst hlater
    exact (hsame.same hpart' hpart).symm

end Unique

section Superstep

variable [DecidableEq C] {graph : Graph C} {config : Config C} {run : OccurrenceKey}
  {here : Standing C} {schedule : Schedule C} {stepped : Stepped C}

omit [DecidableEq C] in
/-- Before its first event nothing of a superstep has run. -/
private theorem Tracks.opening (present : List NodeId) (state : State C) (store : PendingWrites C) :
    Tracks graph run present state [⟨present.map fun _ => .waiting, store, [], false, []⟩]
      ⟨present.map fun _ => .waiting, store, [], false, []⟩ := by
  have hwaits : ∀ seen ∈ ([⟨present.map fun _ => .waiting, store, [], false, []⟩] :
      List (Driving C)), ∀ id path part, seen.Stands present id path part →
        path = [] ∧ part = .waiting := by
    intro seen hmem id path part hstands
    cases List.mem_singleton.mp hmem
    obtain ⟨position, whole, -, htask, hpart⟩ := hstands
    obtain ⟨_, -, hwaiting⟩ := List.mem_map.mp (List.mem_of_getElem? htask)
    rw [← hwaiting] at hpart
    exact part_waiting hpart
  refine ⟨by simp, ?_, by simp, ?_, ?_⟩
  · rintro id node path updates - ⟨seen, hmem, hstands⟩
    cases (hwaits seen hmem id path _ hstands).2
  · rintro id node path - - - ⟨seen, hmem, hstands⟩
    cases (hwaits seen hmem id path _ hstands).2
  · intro seen hmem id node path part _ hstands
    rw [(hwaits seen hmem id path part hstands).1]
    exact Nat.zero_le _

/-- A superstep that has stopped is kept track of through all its moments. -/
theorem superstep_tracks (hrecording : runContext graph run = ⟨run, true⟩)
    (htaken : superstep graph config ⟨run, true⟩ here schedule = some stepped) :
    Tracks graph run (here.present graph) here.state (visits graph config run here schedule)
      stepped.driven := by
  obtain ⟨driven, result, hdrove, hstopped⟩ := superstep_driven htaken
  have htracks : Tracks graph run (here.present graph) here.state
      (visits graph config run here schedule) driven := by
    rw [visits, hrecording, ← List.nil_append (visited ..)]
    exact visited_tracks (Tracks.opening _ _ _) hdrove
  rcases hstopped with ⟨-, hsame, -⟩ | ⟨results, -, hsame, -⟩
  · rw [hsame]
    exact htracks
  · obtain ⟨-, hstore, hnotes⟩ := drained_same driven schedule.drained
    rw [hsame]
    exact htracks.held hstore hnotes

/-- Where a superstep stops is the last of its moments. -/
private theorem visited_stopped {state : State C} {ctx : Context} {present : List NodeId}
    {driving stopped : Driving C} {events : List (Event C)} {result : StepResult C}
    (hdrove : drive graph config state ctx present driving events = some (stopped, result)) :
    stopped ∈ visited graph config state ctx present driving events := by
  induction events generalizing driving with
  | nil =>
      unfold drive at hdrove
      split at hdrove
      · cases hdrove
        exact List.mem_cons_self
      · cases hdrove
  | cons event rest ih =>
      cases event with
      | command command =>
          unfold drive at hdrove
          split at hdrove
          · contradiction
          · split at hdrove
            · cases hdrove
              exact List.mem_cons_self
            · cases hdrove
          · rename_i hsame
            cases hsame
            exact List.mem_cons_of_mem _ (ih hdrove)
          · rename_i hsame
            cases hsame
      | node position path act =>
          rw [drive] at hdrove
          split at hdrove
          · cases hdrove
          · rename_i next hadvanced
            rw [visited, hadvanced]
            exact List.mem_cons_of_mem _ (ih hdrove)

omit [DecidableEq C] in
/-- The result of a node is what its run has ended with. -/
private theorem pair_of {present : List NodeId} {tasks : List (Task C)} {id : NodeId}
    {updates : List (Update C)} (hresult : (pair present tasks).of id = some (.ok updates)) :
    ∃ position : Nat, present[position]? = some id ∧
      tasks[position]? = some (.ended (.ok updates)) := by
  obtain ⟨⟨other, task⟩, hmem, hpaired⟩ :=
    List.mem_filterMap.mp (List.mem_reverse.mp (Lib.mem_of_lookup hresult))
  obtain ⟨position, hplace⟩ := List.mem_iff_getElem?.mp hmem
  rw [List.getElem?_zip_eq_some] at hplace
  dsimp only at hpaired
  split at hpaired
  · cases hpaired
    exact ⟨position, hplace⟩
  · cases hpaired
  · cases hpaired
  · cases hpaired

/-- The results of a superstep are what its nodes have ended with. -/
theorem superstep_reaches (hrecording : runContext graph run = ⟨run, true⟩)
    (htaken : superstep graph config ⟨run, true⟩ here schedule = some stepped)
    {results : Results C} (hresults : stepped.results = some results) {id : NodeId}
    {updates : List (Update C)} (hresult : results.of id = some (.ok updates)) :
    Reaches graph config run here schedule id [] (.ended (.ok updates)) := by
  obtain ⟨driven, result, hdrove, hstopped⟩ := superstep_driven htaken
  rcases hstopped with ⟨-, -, hnone⟩ | ⟨own, rfl, -, hsame⟩
  · rw [hnone] at hresults
    cases hresults
  · cases hsame results hresults
    obtain ⟨-, rfl⟩ := drive_done hdrove
    obtain ⟨position, hplace, htask⟩ := pair_of hresult
    refine ⟨driven, ?_, position, _, hplace, htask, rfl⟩
    rw [visits, hrecording]
    exact visited_stopped hdrove

/-- What a call has started again is what lies inside the graphs that were called. -/
private theorem restarted_iff
    (htracks : Tracks graph run (here.present graph) here.state
      (visits graph config run here schedule) stepped.driven) (key : OccurrenceKey) :
    restarted stepped.driven.notes key = true ↔ InCalled graph config run here schedule key := by
  constructor
  · intro hany
    obtain ⟨note, hmem, hnote⟩ := List.any_eq_true.mp hany
    cases note with
    | restarted occurrence =>
        obtain ⟨id, node, path, hknown, hcalls, hlength, rfl, hreaches⟩ :=
          htracks.restarted occurrence hmem
        rw [Bool.and_eq_true, OccurrenceKey.startsWith_iff, decide_eq_true_eq] at hnote
        exact ⟨id, node, path, hknown, hcalls, hlength, hreaches, hnote.1, hnote.2⟩
    | ran => cases hnote
    | finished => cases hnote
  · rintro ⟨id, node, path, hknown, hcalls, hlength, hreaches, hbelow, hdeeper⟩
    refine List.any_eq_true.mpr
      ⟨_, htracks.called id node path hknown hcalls hlength hreaches, ?_⟩
    rw [Bool.and_eq_true, OccurrenceKey.startsWith_iff, decide_eq_true_eq]
    exact ⟨hbelow, hdeeper⟩

/-- The recorder of a superstep that has stopped: it holds the entry of each success, nothing of
what lies inside the graphs that were called, and elsewhere what it held before. -/
theorem superstep_keeps (hrecording : runContext graph run = ⟨run, true⟩)
    (htaken : superstep graph config ⟨run, true⟩ here schedule = some stepped) :
    (∀ id node path updates, graph.node id = some node →
      Reaches graph config run here schedule id path (.ended (.ok updates)) →
      ∃ own, Reaches graph config run here schedule id path (.ended (.ok own)) ∧
        stepped.driven.store (ofPath run id path) = some ⟨own, node.itemAt here.state path⟩ ∧
        (here.active.Nodup → own = updates)) ∧
    ∀ key, (∀ id path updates,
        Reaches graph config run here schedule id path (.ended (.ok updates)) →
          key ≠ ofPath run id path) →
      (InCalled graph config run here schedule key → stepped.driven.store key = none) ∧
      (¬InCalled graph config run here schedule key →
        stepped.driven.store key = here.store key) := by
  have htracks := superstep_tracks hrecording htaken
  have hrecorded := superstep_recorded htaken
  constructor
  · intro id node path updates hknown hreaches
    obtain ⟨own, hown, hheld⟩ := htracks.succeeded id node path updates hknown hreaches
    refine ⟨own, hown, hheld, fun hnodup => ?_⟩
    obtain ⟨first, hfirst, hended⟩ := hreaches
    obtain ⟨second, hsecond, hended'⟩ := hown
    exact Lib.Attempt.ok.inj
      (visited_unique (hnodup.filter _) hfirst hsecond hended hended')
  · intro key hnone
    have hheld := replay_apply (separate_of hrecorded.noted) here.store key
    rw [← hrecorded.replays] at hheld
    have hlast : lastEntry stepped.driven.notes key = none := by
      cases hlast : lastEntry stepped.driven.notes key with
      | none => rfl
      | some entry =>
          obtain ⟨id, node, path, updates, -, hkey, hreaches, -⟩ :=
            htracks.finished key entry (lastEntry_mem hlast)
          exact absurd hkey (hnone id path updates hreaches)
    rw [hlast] at hheld
    have hinside := restarted_iff htracks key
    constructor
    · intro hcalled
      rw [hheld]
      exact if_pos (hinside.mpr hcalled)
    · intro hnever
      rw [hheld]
      exact if_neg fun hany => hnever (hinside.mp hany)

end Superstep

end LlmGraph.Superstep
