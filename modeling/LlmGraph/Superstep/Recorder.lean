/- digest: The recorder of a superstep: it holds what was there before, what has finished since, and
   nothing inside the called graphs that started again. -/

import Mathlib.Data.List.Induction
import LlmGraph.Superstep.Polls

set_option autoImplicit false
set_option relaxedAutoImplicit false

namespace LlmGraph.Superstep

open OccurrenceKey (ofPath)

variable {C : Type} [Conversation C]

/-- What a note says of the recorder. -/
def Note.write (store : PendingWrites C) : Note C → PendingWrites C
  | .ran _ => store
  | .restarted occurrence => store.dropBelow occurrence
  | .finished occurrence entry => store.insert occurrence entry

def replay (notes : List (Note C)) (store : PendingWrites C) : PendingWrites C :=
  notes.foldl Note.write store

/-- The last entry that finished at an occurrence. -/
def lastEntry (notes : List (Note C)) (key : OccurrenceKey) : Option (PendingEntry C) :=
  notes.foldl (fun found note =>
    match note with
    | .finished occurrence entry => if key = occurrence then some entry else found
    | .ran _ | .restarted _ => found) none

/-- The occurrence lies strictly inside a called graph that started again. -/
def restarted (notes : List (Note C)) (key : OccurrenceKey) : Bool :=
  notes.any fun note =>
    match note with
    | .restarted occurrence => key.startsWith occurrence && decide (occurrence.length < key.length)
    | .ran _ | .finished _ _ => false

theorem replay_append (first second : List (Note C)) (store : PendingWrites C) :
    replay (first ++ second) store = replay second (replay first store) := List.foldl_append

theorem replay_concat (notes : List (Note C)) (note : Note C) (store : PendingWrites C) :
    replay (notes ++ [note]) store = note.write (replay notes store) := by
  rw [replay_append]
  rfl

private theorem lastEntry_concat (notes : List (Note C)) (note : Note C) (key : OccurrenceKey) :
    lastEntry (notes ++ [note]) key =
      match note with
      | .finished occurrence entry =>
          if key = occurrence then some entry else lastEntry notes key
      | .ran _ | .restarted _ => lastEntry notes key := by
  rw [lastEntry, List.foldl_append]
  rfl

/-- The last entry is one that finished. -/
theorem lastEntry_mem {notes : List (Note C)} {key : OccurrenceKey} {entry : PendingEntry C}
    (hfound : lastEntry notes key = some entry) : .finished key entry ∈ notes := by
  induction notes using List.reverseRecOn with
  | nil => cases hfound
  | append_singleton before note hstep =>
      rw [lastEntry_concat] at hfound
      rcases note with occurrence | occurrence | ⟨occurrence, own⟩
      · exact List.mem_append_left _ (hstep hfound)
      · exact List.mem_append_left _ (hstep hfound)
      · dsimp only at hfound
        split at hfound
        · rename_i hsame
          cases hfound
          rw [hsame]
          exact List.mem_append_right _ List.mem_cons_self
        · exact List.mem_append_left _ (hstep hfound)

private theorem restarted_concat (notes : List (Note C)) (note : Note C) (key : OccurrenceKey) :
    restarted (notes ++ [note]) key =
      match note with
      | .restarted occurrence => restarted notes key ||
          (key.startsWith occurrence && decide (occurrence.length < key.length))
      | .ran _ | .finished _ _ => restarted notes key := by
  rw [restarted, List.any_append]
  rcases note with occurrence | occurrence | ⟨occurrence, entry⟩
  · simp [restarted]
  · simp [restarted]
  · simp [restarted]

/-- Nothing that finishes lies inside a called graph that starts again. -/
def Separate (notes : List (Note C)) : Prop :=
  ∀ key entry, .finished key entry ∈ notes → restarted notes key = false

private theorem Separate.before {notes : List (Note C)} {note : Note C}
    (hseparate : Separate (notes ++ [note])) : Separate notes := by
  intro key entry hmember
  have hapart := hseparate key entry (List.mem_append_left _ hmember)
  rw [restarted_concat] at hapart
  rcases note with occurrence | occurrence | ⟨occurrence, own⟩
  · exact hapart
  · exact (Bool.or_eq_false_iff.mp hapart).1
  · exact hapart

/-- Where nothing that finishes lies inside a called graph, an occurrence has its last entry, or the
one it had unless it lies inside a called graph that started again. -/
theorem replay_apply {notes : List (Note C)} (hseparate : Separate notes) (store : PendingWrites C)
    (key : OccurrenceKey) :
    replay notes store key =
      match lastEntry notes key with
      | some entry => some entry
      | none => if restarted notes key then none else store key := by
  induction notes using List.reverseRecOn with
  | nil => rfl
  | append_singleton before note hstep =>
      have hpast := hstep hseparate.before
      rw [replay_concat, lastEntry_concat, restarted_concat]
      rcases note with occurrence | occurrence | ⟨occurrence, own⟩
      · exact hpast
      · dsimp only [Note.write, PendingWrites.dropBelow]
        rw [hpast]
        by_cases hinside : key.startsWith occurrence = true ∧ occurrence.length < key.length
        · have hapart : restarted (before ++ [.restarted occurrence]) key = true := by
            rw [restarted_concat, Bool.or_eq_true]
            right
            simpa using hinside
          have hunfinished : lastEntry before key = none := by
            rcases hfound : lastEntry before key with _ | entry
            · rfl
            · have hfinished := List.mem_append_left [.restarted occurrence] (lastEntry_mem hfound)
              rw [hseparate key entry hfinished] at hapart
              cases hapart
          rw [restarted_concat] at hapart
          rw [if_pos hinside, hunfinished]
          dsimp only at hapart ⊢
          rw [if_pos hapart]
        · have houtside : (key.startsWith occurrence && decide (occurrence.length < key.length)) =
              false := by
            simpa using hinside
          simp only [if_neg hinside, houtside, Bool.or_false]
      · dsimp only [Note.write, PendingWrites.insert]
        by_cases hhere : key = occurrence
        · subst hhere
          rw [if_pos rfl]
          exact Function.update_self ..
        · rw [if_neg hhere]
          exact (Function.update_of_ne hhere ..).trans hpast

namespace Node

/-- How many maps are nested in each other. -/
def depth : Node C → Nat
  | .host _ | .call _ _ => 0
  | .map _ body => body.depth + 1

end Node

/-- The occurrence is that of an item of the map, at most so deep. -/
def ItemOf (run : OccurrenceKey) (id : NodeId) (base : List Nat) (depth : Nat)
    (occurrence : OccurrenceKey) : Prop :=
  ∃ path, occurrence = ofPath run id (base ++ path) ∧ path ≠ [] ∧ path.length ≤ depth

/-- What can be noted below a node that runs at `base`. -/
def Note.Within (run : OccurrenceKey) (id : NodeId) (base : List Nat) (depth : Nat) :
    Note C → Prop
  | .ran occurrence | .finished occurrence _ => ItemOf run id base depth occurrence
  | .restarted occurrence => ∃ path, occurrence = ofPath run id (base ++ path) ∧ path.length = depth

/-- What can be noted of an item that runs at `base`: its own run and success too. -/
def Note.At (run : OccurrenceKey) (id : NodeId) (base : List Nat) (depth : Nat) : Note C → Prop
  | .ran occurrence | .finished occurrence _ =>
      ∃ path, occurrence = ofPath run id (base ++ path) ∧ path.length ≤ depth
  | .restarted occurrence => ∃ path, occurrence = ofPath run id (base ++ path) ∧ path.length = depth

namespace Map

/-- The context of each item is that of its occurrence. -/
theorem prepare_get {run : OccurrenceKey} {id : NodeId} {base : List Nat} {ctx : Context}
    (hhere : ctx.occurrence = ofPath run id base) {items : List (Value C)} {from_ index : Nat}
    {prepared : List (Value C × Context)} {item : Value C} {itemCtx : Context}
    (hready : prepare ctx from_ items = .ok prepared)
    (hlisted : prepared[index]? = some (item, itemCtx)) :
    items[index]? = some item ∧
      itemCtx = ctx.withOccurrence (ofPath run id (base ++ [from_ + index])) := by
  induction items generalizing from_ index prepared with
  | nil =>
      cases hready
      simp at hlisted
  | cons first rest hstep =>
      rw [prepare, hhere, OccurrenceKey.item_ofPath] at hready
      dsimp only at hready
      split at hready
      · cases hready
      · rename_i others hlater
        cases hready
        cases index with
        | zero =>
            simp only [List.getElem?_cons_zero, Option.some.injEq, Prod.mk.injEq] at hlisted
            obtain ⟨rfl, rfl⟩ := hlisted
            exact ⟨rfl, rfl⟩
        | succ index =>
            obtain ⟨hfound, hsame⟩ := hstep hlater hlisted
            refine ⟨hfound, ?_⟩
            rw [hsame, Nat.add_right_comm, Nat.add_assoc]

/-- Every item is prepared. -/
theorem prepare_length {ctx : Context} {items : List (Value C)} {from_ : Nat}
    {prepared : List (Value C × Context)} (hready : prepare ctx from_ items = .ok prepared) :
    prepared.length = items.length := by
  induction items generalizing from_ prepared with
  | nil =>
      cases hready
      rfl
  | cons first rest hstep =>
      rw [prepare] at hready
      split at hready
      · cases hready
      · split at hready
        · cases hready
        · rename_i others hlater
          cases hready
          rw [List.length_cons, List.length_cons, hstep hlater]

/-- What a plan is made of. -/
theorem plan_ok {fields : Map C} {config : Config C} {state : State C} {ctx : Context}
    {prepared : List (Value C × Context)} {width : Nat}
    (hplanned : fields.plan config state ctx = .ok (prepared, width)) :
    ∃ items, state.list fields.list = .ok items ∧ fields.width config items = .ok width ∧
      prepare ctx 0 items = .ok prepared := by
  unfold plan at hplanned
  split at hplanned
  · cases hplanned
  · rename_i items hlisted
    split at hplanned
    · cases hplanned
    · rename_i width hsized
      split at hplanned
      · cases hplanned
      · rename_i hready
        cases hplanned
        exact ⟨items, hlisted, hsized, hready⟩

/-- A map prepares each item of its list. -/
theorem plan_length {fields : Map C} {config : Config C} {state : State C} {ctx : Context}
    {prepared : List (Value C × Context)} {width : Nat} {items : List (Value C)}
    (hplanned : fields.plan config state ctx = .ok (prepared, width))
    (hlisted : state.list fields.list = .ok items) : prepared.length = items.length := by
  obtain ⟨own, hfound, -, hready⟩ := plan_ok hplanned
  rw [hlisted] at hfound
  cases hfound
  exact prepare_length hready

theorem plan_get {fields : Map C} {config : Config C} {state : State C} {run : OccurrenceKey}
    {id : NodeId} {base : List Nat} {recording : Bool} {prepared : List (Value C × Context)}
    {width index : Nat} {item : Value C} {itemCtx : Context}
    (hplanned : fields.plan config state ⟨ofPath run id base, recording⟩ = .ok (prepared, width))
    (hlisted : prepared[index]? = some (item, itemCtx)) :
    ∃ items, state.list fields.list = .ok items ∧ items[index]? = some item ∧
      itemCtx = ⟨ofPath run id (base ++ [index]), recording⟩ := by
  obtain ⟨items, hgiven, -, hready⟩ := plan_ok hplanned
  obtain ⟨hfound, rfl⟩ := prepare_get rfl hready hlisted
  exact ⟨items, hgiven, hfound, by rw [Nat.zero_add]; rfl⟩

end Map

section Notes

variable {config : Config C} {run : OccurrenceKey} {id : NodeId} {base path : List Nat}
  {state : State C} {act : Act C} {task : Task C} {store : PendingWrites C}
  {progress : Progress C}

private theorem endItem_replays {item : Value C} {ctx : Context} (hrecording : ctx.recording = true)
    (hreplays : progress.store = replay progress.notes store) (outcome : RawOutcome C) :
    (progress.endItem item ctx outcome).store =
      replay (progress.endItem item ctx outcome).notes store := by
  rcases outcome with updates | error | text
  · dsimp only [Progress.endItem]
    rw [replay_concat, ← hreplays, Context.recordItem, Context.keep, if_pos hrecording]
    rfl
  · exact hreplays
  · exact hreplays

private theorem mem_endItem {item : Value C} {ctx : Context} {outcome : RawOutcome C} {note : Note C}
    (hmember : note ∈ (progress.endItem item ctx outcome).notes) :
    note ∈ progress.notes ∨ ∃ entry, note = .finished ctx.occurrence entry := by
  rcases outcome with updates | error | text
  · rcases List.mem_append.mp hmember with hold | hnew
    · exact Or.inl hold
    · exact Or.inr ⟨_, List.mem_singleton.mp hnew⟩
  · exact Or.inl hmember
  · exact Or.inl hmember

/-- Ending an item changes the recorder by what it notes. -/
private theorem finishItem_replays {fields : Map C} {derived : State C} {item : Value C}
    {ctx : Context} (hrecording : ctx.recording = true)
    (hreplays : progress.store = replay progress.notes store) :
    (fields.finishItem state derived item ctx progress).store =
      replay (fields.finishItem state derived item ctx progress).notes store := by
  rcases hgoing : progress.task.isEnded with _ | _
  · rw [finishItem_going hgoing]
    exact hreplays
  · obtain ⟨outcome, hended⟩ := Task.eq_ended hgoing
    rw [finishItem_ended hended]
    exact endItem_replays hrecording hreplays _

/-- Ending an item notes nothing but its success. -/
theorem mem_finishItem {fields : Map C} {derived : State C} {item : Value C} {ctx : Context}
    {note : Note C} (hmember : note ∈ (fields.finishItem state derived item ctx progress).notes) :
    note ∈ progress.notes ∨ ∃ entry, note = .finished ctx.occurrence entry := by
  rcases hgoing : progress.task.isEnded with _ | _
  · rw [finishItem_going hgoing] at hmember
    exact Or.inl hmember
  · obtain ⟨outcome, hended⟩ := Task.eq_ended hgoing
    rw [finishItem_ended hended] at hmember
    exact mem_endItem hmember

/-- What is noted below an item is noted of it. -/
theorem Note.Within.at {depth : Nat} {note : Note C}
    (hwithin : note.Within run id base depth) : note.At run id base depth := by
  rcases note with occurrence | occurrence | ⟨occurrence, entry⟩
  · obtain ⟨path, hsame, -, hbound⟩ := hwithin
    exact ⟨path, hsame, hbound⟩
  · exact hwithin
  · obtain ⟨path, hsame, -, hbound⟩ := hwithin
    exact ⟨path, hsame, hbound⟩

/-- What is noted of an item lies below its map. -/
private theorem Note.At.within {index depth : Nat} {note : Note C}
    (hnoted : note.At run id (base ++ [index]) depth) : note.Within run id base (depth + 1) := by
  have hshift : ∀ path : List Nat, base ++ [index] ++ path = base ++ index :: path := by
    intro path
    rw [List.append_assoc, List.singleton_append]
  rcases note with occurrence | occurrence | ⟨occurrence, entry⟩
  · obtain ⟨path, hsame, hbound⟩ := hnoted
    exact ⟨index :: path, by rw [hsame, hshift], by simp, by rw [List.length_cons]; omega⟩
  · obtain ⟨path, hsame, hbound⟩ := hnoted
    exact ⟨index :: path, by rw [hsame, hshift], by rw [List.length_cons, hbound]⟩
  · obtain ⟨path, hsame, hbound⟩ := hnoted
    exact ⟨index :: path, by rw [hsame, hshift], by simp, by rw [List.length_cons]; omega⟩

/-- A poll of an item changes the recorder by what it notes, and notes what its body does, and its
own run and success. -/
theorem itemPoll_notes [DecidableEq C] {fields : Map C} {bodyRun : BodyRun C} {item : Value C}
    {depth : Nat}
    (hnoted : ∀ {derived path act task store progress},
      bodyRun derived ⟨ofPath run id base, true⟩ path act task store = some progress →
        progress.store = replay progress.notes store ∧
          ∀ note ∈ progress.notes, note.Within run id base depth)
    (hpolled : ItemPoll fields bodyRun state item ⟨ofPath run id base, true⟩ store path act task
      progress) :
    progress.store = replay progress.notes store ∧
      ∀ note ∈ progress.notes, note.At run id base depth := by
  have hown : ∃ path, ofPath run id base = ofPath run id (base ++ path) ∧ path.length ≤ depth :=
    ⟨[], by rw [List.append_nil], Nat.zero_le _⟩
  cases hpolled with
  | reused => exact ⟨rfl, by simp⟩
  | underivable => exact ⟨rfl, by simp⟩
  | @first derived inner _ _ htaken =>
      obtain ⟨hreplays, hwithin⟩ := hnoted htaken
      have hseen : ({ inner with notes := .ran (ofPath run id base) :: inner.notes } :
          Progress C).store = replay (.ran (ofPath run id base) :: inner.notes) store := hreplays
      refine ⟨finishItem_replays rfl hseen, ?_⟩
      intro note hmember
      rcases mem_finishItem hmember with hold | ⟨entry, rfl⟩
      · rcases List.mem_cons.mp hold with rfl | hbelow
        · exact hown
        · exact (hwithin note hbelow).at
      · exact hown
  | @later derived _ _ _ inner _ _ htaken =>
      obtain ⟨hreplays, hwithin⟩ := hnoted htaken
      refine ⟨finishItem_replays rfl hreplays, ?_⟩
      intro note hmember
      rcases mem_finishItem hmember with hold | ⟨entry, rfl⟩
      · exact (hwithin note hold).at
      · exact hown

/-- A poll of a node changes the recorder by what it notes, and notes nothing but what lies at or
below the items of the node. -/
theorem run_notes [DecidableEq C] {node : Node C}
    (hpolled : node.run config state ⟨ofPath run id base, true⟩ path act task store =
      some progress) :
    progress.store = replay progress.notes store ∧
      ∀ note ∈ progress.notes, note.Within run id base node.depth := by
  induction node generalizing state base path act task store progress with
  | host =>
      unfold Node.run at hpolled
      split at hpolled <;> cases hpolled <;> exact ⟨rfl, by simp⟩
  | call =>
      unfold Node.run at hpolled
      split at hpolled
      · split at hpolled
        · cases hpolled
          exact ⟨rfl, by simp⟩
        · cases hpolled
          refine ⟨rfl, ?_⟩
          intro note hmember
          cases List.mem_singleton.mp hmember
          exact ⟨[], by rw [List.append_nil], rfl⟩
      · cases hpolled
        exact ⟨rfl, by simp⟩
      · cases hpolled
  | map fields body hstep =>
      cases run_map_poll hpolled with
      | unplanned => exact ⟨rfl, by simp⟩
      | begins => exact ⟨rfl, by simp⟩
      | admits => exact ⟨rfl, by simp⟩
      | collects => exact ⟨rfl, by simp⟩
      | @item prepared width tasks index path act item itemCtx task inner hplanned hlisted hstarted
          hpolled =>
          obtain ⟨items, -, -, rfl⟩ := Map.plan_get hplanned hlisted
          obtain ⟨hreplays, hnoted⟩ := itemPoll_notes (fun htaken => hstep htaken) hpolled
          unfold Progress.into
          split
          · exact ⟨hreplays, fun note hmember => (hnoted note hmember).within⟩
          · exact ⟨hreplays, fun note hmember => (hnoted note hmember).within⟩

/-- What is noted of an item leaves the other items of its map alone. -/
theorem replay_apart {index other depth : Nat} {notes : List (Note C)}
    (hnoted : ∀ note ∈ notes, note.At run id (base ++ [index]) depth) (hapart : other ≠ index)
    (store : PendingWrites C) :
    replay notes store (ofPath run id (base ++ [other])) =
      store (ofPath run id (base ++ [other])) := by
  induction notes generalizing store with
  | nil => rfl
  | cons note rest hstep =>
      have hlater := hstep (fun other hmember => hnoted other (List.mem_cons_of_mem _ hmember))
        (note.write store)
      refine hlater.trans ?_
      have hown := hnoted note List.mem_cons_self
      rcases note with occurrence | occurrence | ⟨occurrence, entry⟩
      · rfl
      · obtain ⟨path, rfl, -⟩ := hown
        refine if_neg ?_
        rintro ⟨hbelow, -⟩
        rw [OccurrenceKey.startsWith_iff] at hbelow
        have hinside := OccurrenceKey.prefix_of_ofPath (by simp) hbelow
        rw [List.append_assoc, List.prefix_append_right_inj] at hinside
        obtain ⟨rest, hsame⟩ := hinside
        exact hapart (by simpa using (congrArg List.head? hsame).symm)
      · obtain ⟨path, rfl, -⟩ := hown
        refine Function.update_of_ne ?_ ..
        intro hsame
        have hpaths := (OccurrenceKey.ofPath_inj hsame).2
        rw [List.append_assoc, List.append_cancel_left_eq] at hpaths
        exact hapart (by simpa using congrArg List.head? hpaths)

end Notes

/-- What a superstep can note: runs and successes of its nodes and of their items, and calls of
graphs where the maps of a node end. -/
def Note.Of (graph : Graph C) (run : OccurrenceKey) (present : List NodeId) : Note C → Prop
  | .ran occurrence | .finished occurrence _ => ∃ id ∈ present, ∃ node path,
      graph.node id = some node ∧ occurrence = ofPath run id path ∧ path.length ≤ node.depth
  | .restarted occurrence => ∃ id ∈ present, ∃ node path,
      graph.node id = some node ∧ occurrence = ofPath run id path ∧ path.length = node.depth

section Superstep

variable {graph : Graph C} {run : OccurrenceKey} {present : List NodeId}

/-- An occurrence below another names the same node. -/
private theorem same_node {id other : NodeId} {path deeper : List Nat}
    (hbelow : ofPath run id path <+: ofPath run other deeper) : id = other := by
  obtain ⟨index, hhere⟩ := OccurrenceKey.segment_ofPath run id path
  obtain ⟨index', hthere⟩ := OccurrenceKey.segment_ofPath run other deeper
  have hsame : (⟨id, index⟩ : Segment) = ⟨other, index'⟩ := by
    obtain ⟨rest, hwhole⟩ := hbelow
    have hbound : run.length < (ofPath run id path).length := (List.getElem?_eq_some_iff.mp hhere).1
    rw [← hwhole, List.getElem?_append_left hbound, hhere] at hthere
    exact Option.some.inj hthere
  cases hsame
  rfl

/-- No node or item lies inside a called graph of the superstep. -/
theorem not_restarted {notes : List (Note C)} (hnoted : ∀ note ∈ notes, note.Of graph run present)
    {id : NodeId} {node : Node C} {path : List Nat} (hknown : graph.node id = some node)
    (hshallow : path.length ≤ node.depth) : restarted notes (ofPath run id path) = false := by
  refine List.any_eq_false.mpr fun note hmember => ?_
  rcases note with occurrence | occurrence | ⟨occurrence, own⟩
  · simp
  · obtain ⟨other, -, node', path', hknown', rfl, hdeep⟩ := hnoted _ hmember
    simp only [Bool.and_eq_true, OccurrenceKey.startsWith_iff, decide_eq_true_eq, not_and, not_lt]
    intro hbelow
    cases same_node hbelow
    rw [hknown] at hknown'
    cases hknown'
    rw [OccurrenceKey.length_ofPath, OccurrenceKey.length_ofPath]
    omega
  · simp

/-- Nothing that finishes in a superstep lies inside one of its calls. -/
theorem separate_of {notes : List (Note C)} (hnoted : ∀ note ∈ notes, note.Of graph run present) :
    Separate notes := by
  intro key entry hfinished
  obtain ⟨id, -, node, path, hknown, rfl, hshallow⟩ := hnoted _ hfinished
  exact not_restarted hnoted hknown hshallow

variable [DecidableEq C] {config : Config C} {state : State C} {store : PendingWrites C}

omit [DecidableEq C] in
private theorem Note.At.of {id : NodeId} {node : Node C} {note : Note C} (hhere : id ∈ present)
    (hknown : graph.node id = some node) (hnoted : note.At run id [] node.depth) :
    note.Of graph run present := by
  rcases note with occurrence | occurrence | ⟨occurrence, entry⟩
  · obtain ⟨path, hsame, hbound⟩ := hnoted
    exact ⟨id, hhere, node, path, hknown, hsame, hbound⟩
  · obtain ⟨path, hsame, hbound⟩ := hnoted
    exact ⟨id, hhere, node, path, hknown, hsame, hbound⟩
  · obtain ⟨path, hsame, hbound⟩ := hnoted
    exact ⟨id, hhere, node, path, hknown, hsame, hbound⟩

omit [DecidableEq C] in
private theorem keepNode_replays {ctx : Context} {progress : Progress C}
    (hrecording : ctx.recording = true) (hreplays : progress.store = replay progress.notes store) :
    (keepNode ctx progress).store = replay (keepNode ctx progress).notes store := by
  unfold keepNode
  split
  · dsimp only
    rw [replay_concat, ← hreplays, Context.record, Context.keep, if_pos hrecording]
    rfl
  · exact hreplays

omit [DecidableEq C] in
/-- A node notes nothing more but its success. -/
theorem mem_keepNode {ctx : Context} {progress : Progress C} {note : Note C}
    (hmember : note ∈ (keepNode ctx progress).notes) :
    note ∈ progress.notes ∨ ∃ entry, note = .finished ctx.occurrence entry := by
  unfold keepNode at hmember
  split at hmember
  · rcases List.mem_append.mp hmember with hold | hnew
    · exact Or.inl hold
    · exact Or.inr ⟨_, List.mem_singleton.mp hnew⟩
  · exact Or.inl hmember

omit [DecidableEq C] in
theorem subset_keepNode {ctx : Context} {progress : Progress C} :
    progress.notes ⊆ (keepNode ctx progress).notes := by
  unfold keepNode
  split
  · exact List.subset_append_left _ _
  · exact List.Subset.refl _

/-- A poll of a node of the superstep changes the recorder by what it notes, which lies at or below
the node. -/
theorem nodePoll_at {id : NodeId} {node : Node C} {path : List Nat} {act : Act C} {task : Task C}
    {progress : Progress C}
    (hpolled : NodePoll config node state (Context.forNode ⟨run, true⟩ id) store path act task
      progress) :
    progress.store = replay progress.notes store ∧
      ∀ note ∈ progress.notes, note.At run id [] node.depth := by
  have hown : ∃ path, ofPath run id [] = ofPath run id ([] ++ path) ∧ path.length ≤ node.depth :=
    ⟨[], rfl, Nat.zero_le _⟩
  cases hpolled with
  | reused => exact ⟨rfl, by simp⟩
  | @first inner _ htaken =>
      have hran : node.run config state ⟨ofPath run id [], true⟩ [] .poll .waiting store =
          some inner := htaken
      obtain ⟨hreplays, hwithin⟩ := run_notes hran
      have hseen : ({ inner with notes := .ran (ofPath run id []) :: inner.notes } :
          Progress C).store = replay (.ran (ofPath run id []) :: inner.notes) store := hreplays
      refine ⟨keepNode_replays rfl hseen, ?_⟩
      intro note hmember
      rcases mem_keepNode hmember with hold | ⟨entry, rfl⟩
      · rcases List.mem_cons.mp hold with rfl | hbelow
        · exact hown
        · exact (hwithin note hbelow).at
      · exact hown
  | @later path act task inner _ htaken =>
      have hran : node.run config state ⟨ofPath run id [], true⟩ path act task store =
          some inner := htaken
      obtain ⟨hreplays, hwithin⟩ := run_notes hran
      refine ⟨keepNode_replays rfl hreplays, ?_⟩
      intro note hmember
      rcases mem_keepNode hmember with hold | ⟨entry, rfl⟩
      · exact (hwithin note hold).at
      · exact hown

/-- A poll of a node of the superstep changes the recorder by what it notes. -/
theorem nodePoll_notes {id : NodeId} {node : Node C} {path : List Nat} {act : Act C} {task : Task C}
    {progress : Progress C} (hhere : id ∈ present) (hknown : graph.node id = some node)
    (hpolled : NodePoll config node state (Context.forNode ⟨run, true⟩ id) store path act task
      progress) :
    progress.store = replay progress.notes store ∧
      ∀ note ∈ progress.notes, note.Of graph run present := by
  obtain ⟨hreplays, hnoted⟩ := nodePoll_at hpolled
  exact ⟨hreplays, fun note hmember => (hnoted note hmember).of hhere hknown⟩

omit [DecidableEq C] in
/-- What is noted of a node leaves the other nodes alone. -/
theorem replay_other {id other : NodeId} {base : List Nat} {depth : Nat} {notes : List (Note C)}
    (hnoted : ∀ note ∈ notes, note.At run id base depth) (hapart : other ≠ id)
    (store : PendingWrites C) (path : List Nat) :
    replay notes store (ofPath run other path) = store (ofPath run other path) := by
  induction notes generalizing store with
  | nil => rfl
  | cons note rest hstep =>
      have hlater := hstep (fun other hmember => hnoted other (List.mem_cons_of_mem _ hmember))
        (note.write store)
      refine hlater.trans ?_
      have hown := hnoted note List.mem_cons_self
      rcases note with occurrence | occurrence | ⟨occurrence, entry⟩
      · rfl
      · obtain ⟨below, rfl, -⟩ := hown
        refine if_neg ?_
        rintro ⟨hinside, -⟩
        rw [OccurrenceKey.startsWith_iff] at hinside
        exact hapart (same_node hinside).symm
      · obtain ⟨below, rfl, -⟩ := hown
        refine Function.update_of_ne ?_ ..
        intro hsame
        exact hapart (OccurrenceKey.ofPath_inj hsame).1

/-- How a superstep stands to the recorder it was given: what it noted is what was written since,
and each of its present nodes has its task. -/
structure Recorded (graph : Graph C) (run : OccurrenceKey) (present : List NodeId)
    (store : PendingWrites C) (driving : Driving C) : Prop where
  replays : driving.store = replay driving.notes store
  noted : ∀ note ∈ driving.notes, note.Of graph run present
  paired : driving.tasks.length = present.length

omit [DecidableEq C] in
theorem Recorded.take {driving : Driving C} (hrecorded : Recorded graph run present store driving)
    (command : Command C) : Recorded graph run present store (driving.take command) := by
  rcases command with ⟨key, input⟩ | _ | _ | _
  · exact ⟨hrecorded.replays, hrecorded.noted, hrecorded.paired⟩
  · exact ⟨hrecorded.replays, hrecorded.noted, hrecorded.paired⟩
  · exact hrecorded
  · exact hrecorded

theorem Recorded.advance {driving next : Driving C} {position : Nat} {path : List Nat} {act : Act C}
    (hrecorded : Recorded graph run present store driving)
    (hadvanced : driving.advance graph config state ⟨run, true⟩ present position path act =
      some next) : Recorded graph run present store next := by
  obtain ⟨id, task, node, progress, hlocated, -, hknown, hpolled, rfl⟩ := advance_eq_some hadvanced
  obtain ⟨hstored, hnoted⟩ := nodePoll_notes (List.mem_of_getElem? hlocated) hknown hpolled
  refine ⟨?_, ?_, ?_⟩
  · rw [replay_append, ← hrecorded.replays]
    exact hstored
  · intro note hmember
    rcases List.mem_append.mp hmember with hold | hnew
    · exact hrecorded.noted note hold
    · exact hnoted note hnew
  · rw [List.length_set]
    exact hrecorded.paired

omit [DecidableEq C] in
theorem Recorded.drained {driving : Driving C} (hrecorded : Recorded graph run present store driving)
    (commands : List (Command C)) :
    Recorded graph run present store (drainAfterStep driving commands).1 := by
  induction commands generalizing driving with
  | nil => exact hrecorded
  | cons command rest hstep =>
      rcases command with ⟨key, input⟩ | _ | _ | _
      · exact hstep (hrecorded.take _)
      · exact hstep (hrecorded.take _)
      · exact hstep (hrecorded.take _)
      · exact hrecorded

/-- A superstep stands so to its recorder when it has been driven and drained. -/
theorem superstep_recorded {here : Standing C} {schedule : Schedule C} {stepped : Stepped C}
    (htaken : superstep graph config ⟨run, true⟩ here schedule = some stepped) :
    Recorded graph run (here.active.filter fun id => (graph.node id).isSome) here.store
      stepped.driven := by
  obtain ⟨driven, result, hdrove, hstopped⟩ := superstep_driven htaken
  have hstart : Recorded graph run (here.active.filter fun id => (graph.node id).isSome) here.store
      driven := by
    refine drive_preserves _ (fun _ _ _ _ _ => Recorded.advance)
      (fun _ command hrecorded => hrecorded.take command) ⟨rfl, by simp, ?_⟩ hdrove
    rw [List.length_map]
  rcases hstopped with ⟨-, hsame, -⟩ | ⟨results, -, hsame, -⟩
  · rw [hsame]
    exact hstart
  · rw [hsame]
    exact hstart.drained _

end Superstep

end LlmGraph.Superstep
