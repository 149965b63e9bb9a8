/- digest: What the occurrences of a deterministic node return when they succeed, and that the polls of
   a node, on a recorder that holds nothing else, record and come to exactly that. -/

import LlmGraph.Superstep.Map

set_option autoImplicit false
set_option relaxedAutoImplicit false

namespace LlmGraph.Superstep

open OccurrenceKey (ofPath)

variable {C : Type} [Conversation C]

/-- What a host, a called graph or a captured item returns when it succeeds, by the path of its
occurrence. -/
abbrev Oracle (C : Type) [Conversation C] := List Nat → List (Update C)

/-- Whether the failure of an item is captured. -/
def Map.captures (fields : Map C) : Bool :=
  match fields.onItemFailure with
  | .capture _ => true
  | .finish | .failFast => false

/-- What an item returns: a captured one as a whole, another what its body does. -/
def Map.itemYields (fields : Map C) (oracle : Oracle C)
    (bodyYields : State C → List Nat → List (Update C)) (state : State C) (path : List Nat)
    (item : Value C) : List (Update C) :=
  if fields.captures then oracle path
  else
    match state.derive fields.item item with
    | .error _ => []
    | .ok derived => bodyYields derived path

namespace Node

/-- What a node returns at a path: a map what its items do, in list order. -/
def yields (oracle : Oracle C) : Node C → State C → List Nat → List (Update C)
  | .host _, _, base => oracle base
  | .call _ _, _, base => oracle base
  | .map fields body, state, base =>
      match state.list fields.list with
      | .error _ => []
      | .ok items => items.zipIdx.flatMap fun (item, index) =>
          fields.itemYields oracle (fun derived path => body.yields oracle derived path) state
            (base ++ [index]) item

/-- What is recorded of an item of a node, by its path below the node. -/
def expects (oracle : Oracle C) : Node C → State C → List Nat → List Nat →
    Option (PendingEntry C)
  | .map fields body, state, base, index :: rest =>
      match state.list fields.list with
      | .error _ => none
      | .ok items =>
          match items[index]? with
          | none => none
          | some item =>
              if rest.isEmpty then
                some ⟨fields.itemYields oracle (body.yields oracle) state (base ++ [index]) item,
                  some item⟩
              else
                match state.derive fields.item item with
                | .error _ => none
                | .ok derived => body.expects oracle derived (base ++ [index]) rest
  | _, _, _, _ => none

/-- The occurrences that return what their own code makes: hosts, called graphs and captured
items. -/
def atomic : Node C → List Nat → Bool
  | .host _, path => path.isEmpty
  | .call _ _, path => path.isEmpty
  | .map _ _, [] => false
  | .map fields body, _ :: rest => (rest.isEmpty && fields.captures) || body.atomic rest

/-- A run has come to nothing but what its node returns. -/
def Sound (oracle : Oracle C) : Node C → State C → List Nat → Task C → Prop
  | .map fields body, state, base, .mapping tasks =>
      ∀ items, state.list fields.list = .ok items → tasks.length ≤ items.length ∧
        ∀ (index : Nat) (item : Value C) (task : Task C), items[index]? = some item →
          tasks[index]? = some task →
            (∀ updates, task = .ended (.ok updates) → updates =
              fields.itemYields oracle (body.yields oracle) state (base ++ [index]) item) ∧
            (∀ text, task ≠ .ended (.panicked text)) ∧
            (task.isEnded = false → ∀ derived, state.derive fields.item item = .ok derived →
              body.Sound oracle derived (base ++ [index]) task)
  | .map fields body, state, base, .ended (.ok updates) =>
      updates = (Node.map fields body).yields oracle state base
  | _, _, _, _ => True

end Node

/-- A note of what finished says what is expected of its occurrence. -/
def Note.Holds (expects : List Nat → Option (PendingEntry C)) (run : OccurrenceKey) (id : NodeId)
    (base : List Nat) : Note C → Prop
  | .finished occurrence entry =>
      ∃ path, occurrence = ofPath run id (base ++ path) ∧ expects path = some entry
  | .ran _ | .restarted _ => True

/-- What a note says of a host, a called graph or a captured item that succeeded is what it always
returns there. -/
def Note.Honest (atomic : List Nat → Bool) (oracle : Oracle C) (run : OccurrenceKey) (id : NodeId)
    (base : List Nat) : Note C → Prop
  | .finished occurrence entry =>
      ∀ path, occurrence = ofPath run id (base ++ path) → atomic path = true →
        entry.updates = oracle (base ++ path)
  | .ran _ | .restarted _ => True

section Maps

variable {oracle : Oracle C} {fields : Map C} {body : Node C} {state derived : State C}
  {base : List Nat} {items : List (Value C)} {index : Nat} {item : Value C}

/-- What is expected of an item of a map. -/
theorem expects_item (hlisted : state.list fields.list = .ok items)
    (hgiven : items[index]? = some item) :
    (Node.map fields body).expects oracle state base [index] =
      some ⟨fields.itemYields oracle (body.yields oracle) state (base ++ [index]) item,
        some item⟩ := by
  rw [Node.expects, hlisted]
  dsimp only
  rw [hgiven]
  rfl

/-- What is expected below an item is what its body expects. -/
theorem expects_below {path : List Nat} (hlisted : state.list fields.list = .ok items)
    (hgiven : items[index]? = some item) (hderives : state.derive fields.item item = .ok derived)
    (hbelow : path ≠ []) :
    (Node.map fields body).expects oracle state base (index :: path) =
      body.expects oracle derived (base ++ [index]) path := by
  have hinside : path.isEmpty = false := by
    simpa using hbelow
  rw [Node.expects, hlisted]
  dsimp only
  rw [hgiven]
  dsimp only
  rw [hinside, hderives]
  rfl

/-- Nothing is expected of a node itself. -/
theorem expects_nil (node : Node C) : node.expects oracle state base [] = none := by
  cases node <;> rfl

/-- A run that has not been polled has come to nothing. -/
theorem sound_waiting (node : Node C) : node.Sound oracle state base .waiting := by
  cases node <;> exact trivial

/-- The updates that a map collects are those of its items, in list order. -/
private theorem collect_yields {tasks : List (Task C)} {updates : List (Update C)} {from_ : Nat}
    (yields : Value C → Nat → List (Update C)) (hall : tasks.all Task.isEnded = true)
    (hwhole : tasks.length = items.length)
    (hends : ∀ (index : Nat) (item : Value C) (task : Task C), items[index]? = some item →
      tasks[index]? = some task → (∀ own, task = .ended (.ok own) → own = yields item (from_ + index)) ∧
        ∀ text, task ≠ .ended (.panicked text))
    (hcollected : collect tasks = .ok updates) :
    updates = (items.zipIdx from_).flatMap fun pair => yields pair.1 pair.2 := by
  induction tasks generalizing items updates from_ with
  | nil =>
      cases hcollected
      cases items with
      | nil => rfl
      | cons => cases hwhole
  | cons task rest hstep =>
      cases items with
      | nil => cases hwhole
      | cons item items =>
          rw [List.all_cons, Bool.and_eq_true] at hall
          obtain ⟨hown, hcalm⟩ := hends 0 item task rfl rfl
          rcases task with _ | _ | _ | outcome
          · cases hall.1
          · cases hall.1
          · cases hall.1
          · rcases outcome with first | error | text
            · unfold collect at hcollected
              split at hcollected
              · rename_i others hlater
                cases hcollected
                have hsame := hown first rfl
                rw [Nat.add_zero] at hsame
                have htail := @hstep items others (from_ + 1) hall.2 (Nat.succ.inj hwhole)
                  (fun index item task hgiven hfound => by
                    obtain ⟨hok, hquiet⟩ := hends (index + 1) item task hgiven hfound
                    refine ⟨fun updates hsuccess => ?_, hquiet⟩
                    rw [hok updates hsuccess, Nat.add_right_comm, Nat.add_assoc])
                  hlater
                rw [List.zipIdx_cons, List.flatMap_cons, ← htail, ← hsame]
              · rename_i hfailed
                exact absurd hcollected (hfailed _)
            · cases hcollected
            · exact absurd rfl (hcalm text)

/-- A map that collects updates has no item that failed. -/
private theorem collect_unfailed {tasks : List (Task C)} {updates : List (Update C)}
    (hall : tasks.all Task.isEnded = true)
    (hcalm : ∀ (index : Nat) (text : String), tasks[index]? ≠ some (.ended (.panicked text)))
    (hcollected : collect tasks = .ok updates) (index : Nat) (error : NodeError C) :
    tasks[index]? ≠ some (.ended (.error error)) := by
  induction tasks generalizing updates index with
  | nil => simp
  | cons task rest hstep =>
      rw [List.all_cons, Bool.and_eq_true] at hall
      rcases task with _ | _ | _ | outcome
      · cases hall.1
      · cases hall.1
      · cases hall.1
      · rcases outcome with first | failure | text
        · unfold collect at hcollected
          split at hcollected
          · rename_i others hlater
            cases index with
            | zero => exact fun hsame => by cases hsame
            | succ index => exact hstep hall.2 (fun index => hcalm (index + 1)) hlater index
          · rename_i hfailed
            exact absurd hcollected (hfailed _)
        · cases hcollected
        · exact absurd rfl (hcalm 0 text)

/-- A map that collects updates has run all its items, and collects what they return. -/
private theorem collects_sound {prepared : List (Value C × Context)} {tasks : List (Task C)}
    (hlisted : state.list fields.list = .ok items) (hwhole : prepared.length = items.length)
    (hsound : (Node.map fields body).Sound oracle state base (.mapping tasks))
    (hexhausted : fields.exhausted prepared tasks = true) :
    (Node.map fields body).Sound oracle state base (.ended (collect tasks)) := by
  rw [Map.exhausted, Bool.and_eq_true, Bool.or_eq_true, decide_eq_true_eq] at hexhausted
  obtain ⟨hall, hcomplete⟩ := hexhausted
  obtain ⟨hbound, hends⟩ := hsound items hlisted
  have hcalm : ∀ (index : Nat) (text : String),
      tasks[index]? ≠ some (.ended (.panicked text)) := by
    intro index text hfound
    have hinside := (List.getElem?_eq_some_iff.mp hfound).1
    have hgiven := List.getElem?_eq_getElem (hinside.trans_le hbound)
    exact (hends index _ _ hgiven hfound).2.1 text rfl
  rcases hcollected : collect tasks with updates | error | text
  · have hlength : tasks.length = items.length := by
      rcases hcomplete with hcomplete | hstopped
      · exact hcomplete.trans hwhole
      · obtain ⟨-, index, error, hfailed⟩ := Map.stopped_iff.mp hstopped
        exact absurd hfailed (collect_unfailed hall hcalm hcollected index error)
    show updates = (Node.map fields body).yields oracle state base
    rw [Node.yields, hlisted]
    refine collect_yields (fun item index => fields.itemYields oracle
      (fun derived path => body.yields oracle derived path) state (base ++ [index]) item) hall hlength
      (fun index item task hgiven hfound => ?_) hcollected
    obtain ⟨hown, hquiet, -⟩ := hends index item task hgiven hfound
    rw [Nat.zero_add]
    exact ⟨hown, hquiet⟩
  · exact trivial
  · exact trivial

/-- What an item ends with, when it succeeds, is what it returns: a leaf or a captured item because
it is honest, another map because its body is sound. -/
private theorem itemOutcome_yields {run : OccurrenceKey} {id : NodeId} {outcome : RawOutcome C}
    {updates : List (Update C)} (hderives : state.derive fields.item item = .ok derived)
    (hsound : body.Sound oracle derived (base ++ [index]) (.ended outcome))
    (hhonest : Note.Honest (Node.map fields body).atomic oracle run id base
      (.finished (ofPath run id (base ++ [index])) ⟨updates, some item⟩))
    (hends : fields.itemOutcome state derived outcome = .ok updates) :
    updates = fields.itemYields oracle (body.yields oracle) state (base ++ [index]) item := by
  have hatomic : (Node.map fields body).atomic [index] = true →
      updates = oracle (base ++ [index]) := hhonest [index] rfl
  rw [Map.itemYields]
  by_cases hcaptures : fields.captures = true
  · rw [if_pos hcaptures]
    exact hatomic (by simp [Node.atomic, hcaptures])
  · rw [if_neg hcaptures, hderives]
    dsimp only
    cases body with
    | host check => exact hatomic (by simp [Node.atomic])
    | call check start => exact hatomic (by simp [Node.atomic])
    | map inner below =>
        have hsame : outcome = .ok updates := by
          rcases outcome with own | error | text
          · rw [checked_ok hends]
          · unfold Map.itemOutcome at hends
            unfold Map.captures at hcaptures
            dsimp only at hends
            split at hends
            · rename_i hpolicy
              rw [hpolicy] at hcaptures
              exact absurd rfl hcaptures
            · cases hends
            · cases hends
          · cases hends
        rw [hsame] at hsound
        exact hsound

end Maps

section Polls

/-- What holds of each item started, and of one not polled, holds after the next one starts. -/
private theorem forall_admitted {tasks : List (Task C)} {items : List (Value C)}
    {holds : Nat → Value C → Task C → Prop}
    (hends : ∀ (index : Nat) (item : Value C) (task : Task C), items[index]? = some item →
      tasks[index]? = some task → holds index item task)
    (hfresh : ∀ index item, holds index item .waiting) (index : Nat) (item : Value C)
    (task : Task C) (hgiven : items[index]? = some item)
    (hfound : (tasks ++ [.waiting])[index]? = some task) : holds index item task := by
  rcases Nat.lt_or_ge index tasks.length with hold | hnew
  · rw [List.getElem?_append_left hold] at hfound
    exact hends index item task hgiven hfound
  · rw [List.getElem?_append_right hnew] at hfound
    have hmember := List.mem_of_getElem? hfound
    rw [List.mem_singleton.mp hmember]
    exact hfresh index item

variable [DecidableEq C] {oracle : Oracle C} {config : Config C} {run : OccurrenceKey} {id : NodeId}

section Item

variable {fields : Map C} {body : Node C} {state derived : State C} {base : List Nat}
  {items : List (Value C)} {index : Nat} {item : Value C}

omit [DecidableEq C] in
private theorem append_item (base : List Nat) (index : Nat) (path : List Nat) :
    base ++ [index] ++ path = base ++ index :: path := by
  rw [List.append_assoc, List.singleton_append]

omit [DecidableEq C] in
/-- What is honest below a map is honest below its item. -/
private theorem Note.Honest.below {note : Note C}
    (hhonest : note.Honest (Node.map fields body).atomic oracle run id base) :
    note.Honest body.atomic oracle run id (base ++ [index]) := by
  rcases note with occurrence | occurrence | ⟨occurrence, entry⟩
  · exact trivial
  · exact trivial
  · intro path hsame hatomic
    rw [append_item] at hsame ⊢
    exact hhonest (index :: path) hsame (by rw [Node.atomic, hatomic, Bool.or_true])

omit [DecidableEq C] in
/-- What holds below an item holds below its map. -/
private theorem Note.Holds.above {note : Note C} (hlisted : state.list fields.list = .ok items)
    (hgiven : items[index]? = some item) (hderives : state.derive fields.item item = .ok derived)
    (hholds : note.Holds (body.expects oracle derived (base ++ [index])) run id (base ++ [index])) :
    note.Holds ((Node.map fields body).expects oracle state base) run id base := by
  rcases note with occurrence | occurrence | ⟨occurrence, entry⟩
  · exact trivial
  · exact trivial
  · obtain ⟨path, hsame, hexpected⟩ := hholds
    have hbelow : path ≠ [] := by
      rintro rfl
      rw [expects_nil] at hexpected
      cases hexpected
    refine ⟨index :: path, ?_, ?_⟩
    · rw [hsame, append_item]
    · rw [expects_below hlisted hgiven hderives hbelow]
      exact hexpected

omit [DecidableEq C] in
/-- A recorder that holds what a map expects holds what the body of an item expects. -/
private theorem held_below {store : PendingWrites C} (hlisted : state.list fields.list = .ok items)
    (hgiven : items[index]? = some item)
    (hheld : ∀ path entry, store (ofPath run id (base ++ path)) = some entry → path ≠ [] →
      (Node.map fields body).expects oracle state base path = some entry)
    (hderives : state.derive fields.item item = .ok derived) (path : List Nat)
    (entry : PendingEntry C) (hfound : store (ofPath run id (base ++ [index] ++ path)) = some entry)
    (hinside : path ≠ []) : body.expects oracle derived (base ++ [index]) path = some entry := by
  rw [append_item] at hfound
  have hexpected := hheld (index :: path) entry hfound (by simp)
  rw [expects_below hlisted hgiven hderives hinside] at hexpected
  exact hexpected

omit [DecidableEq C] in
private theorem subset_finishItem {progress : Progress C} {ctx : Context} :
    progress.notes ⊆ (fields.finishItem state derived item ctx progress).notes := by
  rcases hgoing : progress.task.isEnded with _ | _
  · rw [finishItem_going hgoing]
    exact List.Subset.refl _
  · obtain ⟨outcome, hended⟩ := Task.eq_ended hgoing
    rw [finishItem_ended hended, Progress.endItem.eq_def]
    split
    · exact List.subset_append_left _ _
    · exact List.Subset.refl _

omit [DecidableEq C] in
/-- An item that has been polled is sound, and so is what it notes, as its body is. -/
private theorem finishItem_sound {progress finished : Progress C}
    (hlisted : state.list fields.list = .ok items) (hgiven : items[index]? = some item)
    (hderives : state.derive fields.item item = .ok derived)
    (hsound : body.Sound oracle derived (base ++ [index]) progress.task)
    (hnoted : ∀ note ∈ progress.notes,
      note.Holds ((Node.map fields body).expects oracle state base) run id base)
    (hmade : finished = fields.finishItem state derived item
      ⟨ofPath run id (base ++ [index]), true⟩ progress)
    (hhonest : ∀ note ∈ finished.notes,
      note.Honest (Node.map fields body).atomic oracle run id base) :
    (∀ updates, finished.task = .ended (.ok updates) → updates =
        fields.itemYields oracle (body.yields oracle) state (base ++ [index]) item) ∧
      (finished.task.isEnded = false → ∀ derived, state.derive fields.item item = .ok derived →
        body.Sound oracle derived (base ++ [index]) finished.task) ∧
      ∀ note ∈ finished.notes,
        note.Holds ((Node.map fields body).expects oracle state base) run id base := by
  rcases hgoing : progress.task.isEnded with _ | _
  · rw [finishItem_going hgoing] at hmade
    subst hmade
    refine ⟨fun updates hended => ?_, fun _ own hfound => ?_, hnoted⟩
    · rw [hended] at hgoing
      cases hgoing
    · rw [hderives] at hfound
      cases hfound
      exact hsound
  · obtain ⟨outcome, hended⟩ := Task.eq_ended hgoing
    rw [hended] at hsound
    rw [finishItem_ended hended] at hmade
    rcases hends : fields.itemOutcome state derived outcome with updates | error | text
    · rw [hends] at hmade
      subst hmade
      have hsame := itemOutcome_yields hderives hsound
        (hhonest _ (List.mem_append_right _ List.mem_cons_self)) hends
      refine ⟨?_, fun hgoing => (by cases hgoing), ?_⟩
      · intro own hsuccess
        cases hsuccess
        exact hsame
      · intro note hmember
        rcases List.mem_append.mp hmember with hold | hnew
        · exact hnoted note hold
        · cases List.mem_singleton.mp hnew
          refine ⟨[index], rfl, ?_⟩
          rw [expects_item hlisted hgiven, ← hsame]
    · rw [hends] at hmade
      subst hmade
      exact ⟨fun own hsuccess => (by cases hsuccess), fun hgoing => (by cases hgoing), hnoted⟩
    · rw [hends] at hmade
      subst hmade
      exact ⟨fun own hsuccess => (by cases hsuccess), fun hgoing => (by cases hgoing), hnoted⟩

/-- A poll of an item keeps it sound, and what it notes is expected, as it is of its body. -/
private theorem itemPoll_sound {path : List Nat} {act : Act C} {task : Task C}
    {store : PendingWrites C} {progress : Progress C}
    (hstep : ∀ {derived path act task store progress},
      body.run config derived ⟨ofPath run id (base ++ [index]), true⟩ path act task store =
          some progress →
        body.Sound oracle derived (base ++ [index]) task →
        (∀ path entry, store (ofPath run id (base ++ [index] ++ path)) = some entry → path ≠ [] →
          body.expects oracle derived (base ++ [index]) path = some entry) →
        (∀ note ∈ progress.notes, note.Honest body.atomic oracle run id (base ++ [index])) →
        body.Sound oracle derived (base ++ [index]) progress.task ∧ ∀ note ∈ progress.notes,
          note.Holds (body.expects oracle derived (base ++ [index])) run id (base ++ [index]))
    (hlisted : state.list fields.list = .ok items) (hgiven : items[index]? = some item)
    (hsound : (∀ updates, task = .ended (.ok updates) → updates =
        fields.itemYields oracle (body.yields oracle) state (base ++ [index]) item) ∧
      (∀ text, task ≠ .ended (.panicked text)) ∧
      (task.isEnded = false → ∀ derived, state.derive fields.item item = .ok derived →
        body.Sound oracle derived (base ++ [index]) task))
    (hheld : ∀ path entry, store (ofPath run id (base ++ path)) = some entry → path ≠ [] →
      (Node.map fields body).expects oracle state base path = some entry)
    (hpolled : ItemPoll fields (body.run config) state item ⟨ofPath run id (base ++ [index]), true⟩
      store path act task progress)
    (hhonest : ∀ note ∈ progress.notes,
      note.Honest (Node.map fields body).atomic oracle run id base) :
    (∀ updates, progress.task = .ended (.ok updates) → updates =
        fields.itemYields oracle (body.yields oracle) state (base ++ [index]) item) ∧
      (progress.task.isEnded = false → ∀ derived, state.derive fields.item item = .ok derived →
        body.Sound oracle derived (base ++ [index]) progress.task) ∧
      ∀ note ∈ progress.notes,
        note.Holds ((Node.map fields body).expects oracle state base) run id base := by
  cases hpolled with
  | @reused updates hfound =>
      refine ⟨?_, fun hgoing => (by cases hgoing), by simp⟩
      intro own hsuccess
      have hheldHere : store (ofPath run id (base ++ [index])) = some ⟨updates, some item⟩ :=
        PendingWrites.matching_some _ hfound
      have hexpected := hheld [index] _ hheldHere (by simp)
      rw [expects_item hlisted hgiven] at hexpected
      rw [checked_ok (Task.ended.inj hsuccess)]
      exact (congrArg PendingEntry.updates (Option.some.inj hexpected)).symm
  | underivable => exact ⟨fun own hsame => (by cases hsame), fun hgoing => (by cases hgoing), by simp⟩
  | @first derived inner _ hderives htaken =>
      have hhonestInner : ∀ note ∈ inner.notes,
          note.Honest body.atomic oracle run id (base ++ [index]) := fun note hmember =>
        (hhonest note (subset_finishItem (List.mem_cons_of_mem _ hmember))).below
      obtain ⟨hsound', hnoted⟩ := hstep htaken (sound_waiting body)
        (held_below hlisted hgiven hheld hderives) hhonestInner
      refine finishItem_sound hlisted hgiven hderives ?_ ?_ rfl hhonest
      · exact hsound'
      · intro note hmember
        rcases List.mem_cons.mp hmember with rfl | hold
        · exact trivial
        · exact (hnoted note hold).above hlisted hgiven hderives
  | @later derived path act task inner hstarted hderives htaken =>
      have hgoing : task.isEnded = false := by
        rcases hended : task.isEnded with _ | _
        · rfl
        · obtain ⟨outcome, rfl⟩ := Task.eq_ended hended
          rw [run_ended] at htaken
          cases htaken
      have hhonestInner : ∀ note ∈ inner.notes,
          note.Honest body.atomic oracle run id (base ++ [index]) := fun note hmember =>
        (hhonest note (subset_finishItem hmember)).below
      obtain ⟨hsound', hnoted⟩ := hstep htaken (hsound.2.2 hgoing derived hderives)
        (held_below hlisted hgiven hheld hderives)
        hhonestInner
      refine finishItem_sound hlisted hgiven hderives hsound' ?_ rfl hhonest
      intro note hmember
      exact (hnoted note hmember).above hlisted hgiven hderives

end Item

/-- A poll of a node keeps it sound and notes what is expected, when the recorder holds nothing else
and what hosts, called graphs and captured items return is what they always do. -/
theorem run_sound {node : Node C} {state : State C} {base path : List Nat} {act : Act C}
    {task : Task C} {store : PendingWrites C} {progress : Progress C}
    (hpolled : node.run config state ⟨ofPath run id base, true⟩ path act task store = some progress)
    (hsound : node.Sound oracle state base task)
    (hheld : ∀ path entry, store (ofPath run id (base ++ path)) = some entry → path ≠ [] →
      node.expects oracle state base path = some entry)
    (hhonest : ∀ note ∈ progress.notes, note.Honest node.atomic oracle run id base) :
    node.Sound oracle state base progress.task ∧
      ∀ note ∈ progress.notes, note.Holds (node.expects oracle state base) run id base := by
  induction node generalizing state base path act task store progress with
  | host check =>
      unfold Node.run at hpolled
      split at hpolled <;> cases hpolled <;> exact ⟨trivial, by simp⟩
  | call check start =>
      unfold Node.run at hpolled
      split at hpolled
      · split at hpolled
        · cases hpolled
          exact ⟨trivial, by simp⟩
        · cases hpolled
          refine ⟨trivial, fun note hmember => ?_⟩
          cases List.mem_singleton.mp hmember
          exact trivial
      · cases hpolled
        exact ⟨trivial, by simp⟩
      · cases hpolled
  | map fields body hstep =>
      cases run_map_poll hpolled with
      | unplanned => exact ⟨trivial, by simp⟩
      | begins => exact ⟨fun items hlisted => ⟨Nat.zero_le _, by simp⟩, by simp⟩
      | admits hplanned hpulls =>
          refine ⟨fun items hlisted => ?_, by simp⟩
          obtain ⟨hmore, -⟩ := Map.Extends.admit hpulls
          rw [Map.plan_length hplanned hlisted] at hmore
          obtain ⟨-, hends⟩ := hsound items hlisted
          refine ⟨by rw [List.length_append, List.length_singleton]; omega, ?_⟩
          refine forall_admitted hends fun index item => ⟨?_, ?_, ?_⟩
          · exact fun updates hsame => by cases hsame
          · exact fun text hsame => by cases hsame
          · exact fun _ derived _ => sound_waiting body
      | collects hplanned hexhausted =>
          obtain ⟨items, hlisted, -, -⟩ := Map.plan_ok hplanned
          exact ⟨collects_sound hlisted (Map.plan_length hplanned hlisted) hsound hexhausted, by simp⟩
      | @item prepared width tasks index path act item itemCtx task inner hplanned hfound hstarted
          htaken =>
          obtain ⟨items, hlisted, hgiven, rfl⟩ := Map.plan_get hplanned hfound
          obtain ⟨hbound, hends⟩ := hsound items hlisted
          have hsameNotes : (inner.into tasks index).notes = inner.notes := by
            unfold Progress.into
            split <;> rfl
          rw [hsameNotes] at hhonest ⊢
          obtain ⟨hyields, hgoing, hnoted⟩ := itemPoll_sound
            (fun htaken => hstep htaken) hlisted hgiven
            (hends index item task hgiven hstarted) hheld htaken hhonest
          refine ⟨?_, hnoted⟩
          unfold Progress.into
          split
          · exact trivial
          · rename_i hcalm
            intro own hagain
            rw [hlisted] at hagain
            cases hagain
            refine ⟨by rw [List.length_set]; exact hbound, ?_⟩
            intro other item' task' hgiven' hfound'
            rw [List.getElem?_set] at hfound'
            split at hfound'
            · rename_i hsame
              subst hsame
              rw [hgiven] at hgiven'
              cases hgiven'
              split at hfound'
              · cases hfound'
                exact ⟨hyields, hcalm, hgoing⟩
              · cases hfound'
            · exact hends other item' task' hgiven' hfound'

/-- Only what the recorder does not hold is run. -/
theorem run_ran {node : Node C} {state : State C} {base path : List Nat} {act : Act C}
    {task : Task C} {store : PendingWrites C} {progress : Progress C}
    (hpolled : node.run config state ⟨ofPath run id base, true⟩ path act task store = some progress)
    (hheld : ∀ path entry, store (ofPath run id (base ++ path)) = some entry → path ≠ [] →
      node.expects oracle state base path = some entry) :
    ∀ occurrence, .ran occurrence ∈ progress.notes → store occurrence = none := by
  induction node generalizing state base path act task store progress with
  | host check =>
      unfold Node.run at hpolled
      split at hpolled <;> cases hpolled <;> exact fun _ hmember => by cases hmember
  | call check start =>
      unfold Node.run at hpolled
      split at hpolled
      · split at hpolled
        · cases hpolled
          exact fun _ hmember => by cases hmember
        · cases hpolled
          intro occurrence hmember
          cases List.mem_singleton.mp hmember
      · cases hpolled
        exact fun _ hmember => by cases hmember
      · cases hpolled
  | map fields body hstep =>
      cases run_map_poll hpolled with
      | unplanned => exact fun _ hmember => by cases hmember
      | begins => exact fun _ hmember => by cases hmember
      | admits => exact fun _ hmember => by cases hmember
      | collects => exact fun _ hmember => by cases hmember
      | @item prepared width tasks index path act item itemCtx task inner hplanned hfound hstarted
          htaken =>
          obtain ⟨items, hlisted, hgiven, rfl⟩ := Map.plan_get hplanned hfound
          have hsameNotes : (inner.into tasks index).notes = inner.notes := by
            unfold Progress.into
            split <;> rfl
          rw [hsameNotes]
          intro occurrence hmember
          cases htaken with
          | reused => cases hmember
          | underivable => cases hmember
          | @first derived inner hmissing hderives htaken =>
              rcases mem_finishItem hmember with hold | ⟨entry, hsame⟩
              · rcases List.mem_cons.mp hold with hown | hlater
                · cases hown
                  rcases hhere : store (ofPath run id (base ++ [index])) with _ | entry
                  · rfl
                  · have hexpected := hheld [index] entry hhere (by simp)
                    rw [expects_item hlisted hgiven] at hexpected
                    cases hexpected
                    exact absurd hhere (PendingWrites.matching_none _ hmissing _)
                · exact hstep htaken (held_below hlisted hgiven hheld hderives) occurrence hlater
              · cases hsame
          | @later derived path act task inner _ hderives htaken =>
              rcases mem_finishItem hmember with hold | ⟨entry, hsame⟩
              · exact hstep htaken (held_below hlisted hgiven hheld hderives) occurrence hold
              · cases hsame

end Polls

end LlmGraph.Superstep
