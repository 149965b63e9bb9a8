/- digest: The runs below a node of a superstep, path by path: what a poll tells of them, and that what
   has ended does not end again. -/

import LlmGraph.Superstep.Items

set_option autoImplicit false
set_option relaxedAutoImplicit false

namespace LlmGraph.Superstep

open OccurrenceKey (ofPath)

variable {C : Type} [Conversation C]

/-- The run at a path of item indices. -/
def Task.part : List Nat → Task C → Option (Task C)
  | [], task => some task
  | index :: path, .mapping items =>
      match items[index]? with
      | some task => task.part path
      | none => none
  | _ :: _, _ => none

namespace Node

/-- The maps of the node end in a called graph. -/
def calls : Node C → Bool
  | .host _ => false
  | .call _ _ => true
  | .map _ body => body.calls

/-- The item at a path of indices; the node itself has none. -/
def itemAt : Node C → State C → List Nat → Option (Value C)
  | .map fields body, state, index :: path =>
      match state.list fields.list with
      | .error _ => none
      | .ok items =>
          match items[index]? with
          | none => none
          | some item =>
              match path, state.derive fields.item item with
              | [], _ => some item
              | path, .ok derived => body.itemAt derived path
              | _, .error _ => none
  | _, _, _ => none

theorem itemAt_nil (node : Node C) (state : State C) : node.itemAt state [] = none := by
  cases node <;> rfl

section ItemAt

variable {fields : Map C} {body : Node C} {state derived : State C} {items : List (Value C)}
  {index : Nat} {item : Value C}

theorem itemAt_item (hlisted : state.list fields.list = .ok items)
    (hitem : items[index]? = some item) :
    (Node.map fields body).itemAt state [index] = some item := by
  simp only [itemAt, hlisted, hitem]

theorem itemAt_below (hlisted : state.list fields.list = .ok items)
    (hitem : items[index]? = some item) (hderived : state.derive fields.item item = .ok derived)
    {path : List Nat} (hpath : path ≠ []) :
    (Node.map fields body).itemAt state (index :: path) = body.itemAt derived path := by
  cases path with
  | nil => exact absurd rfl hpath
  | cons next path => simp only [itemAt, hlisted, hitem, hderived]

end ItemAt

end Node

section Part

variable {task : Task C} {path : List Nat} {outcome : RawOutcome C}

/-- Nothing runs below what has ended. -/
theorem part_ended (hpart : (Task.ended outcome).part path = some task) :
    path = [] ∧ task = .ended outcome := by
  cases path with
  | nil => exact ⟨rfl, (Option.some.inj hpart).symm⟩
  | cons index path => cases hpart

theorem part_waiting (hpart : (Task.waiting : Task C).part path = some task) :
    path = [] ∧ task = .waiting := by
  cases path with
  | nil => exact ⟨rfl, (Option.some.inj hpart).symm⟩
  | cons index path => cases hpart

theorem part_running (hpart : (Task.running : Task C).part path = some task) :
    path = [] ∧ task = .running := by
  cases path with
  | nil => exact ⟨rfl, (Option.some.inj hpart).symm⟩
  | cons index path => cases hpart

theorem part_item {items : List (Task C)} {index : Nat} (hitem : items[index]? = some task)
    (path : List Nat) : (Task.mapping items).part (index :: path) = task.part path := by
  simp only [Task.part, hitem]

/-- What runs below a map runs below one of its items. -/
theorem part_mapping {items : List (Task C)} {index : Nat}
    (hpart : (Task.mapping items).part (index :: path) = some task) :
    ∃ item, items[index]? = some item ∧ item.part path = some task := by
  rw [Task.part] at hpart
  split at hpart
  · rename_i item hitem
    exact ⟨item, hitem, hpart⟩
  · cases hpart

end Part

/-- No run lies deeper than that. -/
def Task.Within (task : Task C) (depth : Nat) : Prop :=
  ∀ path part, task.part path = some part → path.length ≤ depth

theorem within_ended (outcome : RawOutcome C) (depth : Nat) :
    (Task.ended outcome).Within depth := by
  intro path part hpart
  rw [(part_ended hpart).1]
  exact Nat.zero_le _

theorem within_running (depth : Nat) : (Task.running : Task C).Within depth := by
  intro path part hpart
  rw [(part_running hpart).1]
  exact Nat.zero_le _

theorem within_waiting (depth : Nat) : (Task.waiting : Task C).Within depth := by
  intro path part hpart
  rw [(part_waiting hpart).1]
  exact Nat.zero_le _

/-- The runs below a map lie one deeper than those of its items. -/
theorem within_mapping {items : List (Task C)} {depth : Nat} :
    (Task.mapping items).Within (depth + 1) ↔ ∀ item ∈ items, item.Within depth := by
  constructor
  · intro hwithin item hmem path part hpart
    obtain ⟨index, hitem⟩ := List.mem_iff_getElem?.mp hmem
    have hbound := hwithin (index :: path) part ((part_item hitem path).trans hpart)
    rw [List.length_cons] at hbound
    omega
  · intro hitems path part hpart
    cases path with
    | nil => exact Nat.zero_le _
    | cons index path =>
        obtain ⟨item, hitem, hbelow⟩ := part_mapping hpart
        have hbound := hitems item (List.mem_of_getElem? hitem) path part hbelow
        rw [List.length_cons]
        omega

/-- What a poll has told of the runs that are seen: an entry is noted where one has succeeded, and
where one succeeds its entry is noted, or was there; a called graph is noted where it runs. -/
structure Tells (node : Node C) (seen : List Nat → Prop) (witness : List Nat → Option (Value C))
    (key : List Nat → OccurrenceKey) (task : Task C) (store : PendingWrites C)
    (progress : Progress C) : Prop where
  finished : ∀ occurrence entry, .finished occurrence entry ∈ progress.notes →
    ∃ path updates, seen path ∧ occurrence = key path ∧
      progress.task.part path = some (.ended (.ok updates)) ∧ entry = ⟨updates, witness path⟩
  succeeded : ∀ path updates, seen path → progress.task.part path = some (.ended (.ok updates)) →
    task.part path = some (.ended (.ok updates)) ∨
      .finished (key path) ⟨updates, witness path⟩ ∈ progress.notes ∨
      store (key path) = some ⟨updates, witness path⟩
  restarted : ∀ occurrence, .restarted occurrence ∈ progress.notes →
    ∃ path, occurrence = key path ∧ node.calls = true ∧ path.length = node.depth ∧
      progress.task.part path = some .running
  called : ∀ path, node.calls = true → path.length = node.depth →
    progress.task.part path = some .running →
    task.part path = some .running ∨ .restarted (key path) ∈ progress.notes
  within : task.Within node.depth → progress.task.Within node.depth

namespace Tells

variable {node : Node C} {seen : List Nat → Prop} {witness : List Nat → Option (Value C)}
  {key : List Nat → OccurrenceKey} {task : Task C} {store : PendingWrites C} {progress : Progress C}

/-- A poll that notes nothing, after which no run stands anew where it has succeeded, nor a called
graph where it runs. -/
theorem silent (hnotes : progress.notes = [])
    (hsucceeded : ∀ path updates, seen path →
      progress.task.part path = some (.ended (.ok updates)) →
        task.part path = some (.ended (.ok updates)))
    (hcalled : node.calls = true → ∀ path, path.length = node.depth →
      progress.task.part path = some .running → task.part path = some .running)
    (hwithin : task.Within node.depth → progress.task.Within node.depth) :
    Tells node seen witness key task store progress where
  finished occurrence entry hmem := by
    rw [hnotes] at hmem
    cases hmem
  succeeded path updates hseen hpart := .inl (hsucceeded path updates hseen hpart)
  restarted occurrence hmem := by
    rw [hnotes] at hmem
    cases hmem
  called path hcalls hlength hpart := .inl (hcalled hcalls path hlength hpart)
  within := hwithin

/-- That a run has been polled for the first time is no success. -/
theorem ran (htells : Tells node seen witness key task store progress)
    (occurrence : OccurrenceKey) :
    Tells node seen witness key task store
      { progress with notes := .ran occurrence :: progress.notes } where
  finished other entry hmem := by
    rcases List.mem_cons.mp hmem with hran | hold
    · cases hran
    · exact htells.finished other entry hold
  succeeded path updates hseen hpart := by
    rcases htells.succeeded path updates hseen hpart with hbefore | hnoted | hheld
    · exact .inl hbefore
    · exact .inr (.inl (List.mem_cons_of_mem _ hnoted))
    · exact .inr (.inr hheld)
  restarted other hmem := by
    rcases List.mem_cons.mp hmem with hran | hold
    · cases hran
    · exact htells.restarted other hold
  called path hcalls hlength hpart :=
    (htells.called path hcalls hlength hpart).imp id (List.mem_cons_of_mem _)
  within := htells.within

/-- A run that has ended has noted neither a success below it nor a called graph. -/
theorem unnoted {outcome : RawOutcome C} (htells : Tells node (· ≠ []) witness key task store progress)
    (hended : progress.task = .ended outcome) :
    (∀ occurrence entry, .finished occurrence entry ∉ progress.notes) ∧
      ∀ occurrence, .restarted occurrence ∉ progress.notes := by
  constructor
  · intro occurrence entry hmem
    obtain ⟨path, updates, hpath, -, hpart, -⟩ := htells.finished occurrence entry hmem
    rw [hended] at hpart
    exact hpath (part_ended hpart).1
  · intro occurrence hmem
    obtain ⟨path, -, -, -, hpart⟩ := htells.restarted occurrence hmem
    rw [hended] at hpart
    cases (part_ended hpart).2

/-- A run goes on. -/
theorem goes {other : List Nat → Option (Value C)}
    (htells : Tells node (· ≠ []) witness key task store progress)
    (hwitness : ∀ path, path ≠ [] → other path = witness path)
    (hgoing : progress.task.isEnded = false) :
    Tells node (fun _ => True) other key task store progress where
  finished occurrence entry hmem := by
    obtain ⟨path, updates, hpath, hkey, hpart, hentry⟩ := htells.finished occurrence entry hmem
    exact ⟨path, updates, trivial, hkey, hpart, by rw [hentry, hwitness path hpath]⟩
  succeeded path updates _ hpart := by
    have hpath : path ≠ [] := by
      rintro rfl
      have hsame : progress.task = .ended (.ok updates) := Option.some.inj hpart
      rw [hsame] at hgoing
      cases hgoing
    rw [hwitness path hpath]
    exact htells.succeeded path updates hpath hpart
  restarted := htells.restarted
  called := htells.called
  within := htells.within

/-- A run ends: what it ends with is all there is to see. -/
theorem ends {outcome final : RawOutcome C} {other : List Nat → Option (Value C)}
    {finished : Progress C} (htells : Tells node (· ≠ []) witness key task store progress)
    (hended : progress.task = .ended outcome) (htask : finished.task = .ended final)
    (hnotes : finished.notes = progress.notes ∧ (∀ updates, final ≠ .ok updates) ∨
      ∃ updates, final = .ok updates ∧
        finished.notes = progress.notes ++ [.finished (key []) ⟨updates, other []⟩]) :
    Tells node (fun _ => True) other key task store finished := by
  obtain ⟨hnone, hcalm⟩ := htells.unnoted hended
  refine ⟨?_, ?_, ?_, ?_, fun _ => htask ▸ within_ended final _⟩
  · intro occurrence entry hmem
    rcases hnotes with ⟨hsame, -⟩ | ⟨updates, rfl, hnoted⟩
    · rw [hsame] at hmem
      exact absurd hmem (hnone occurrence entry)
    · rw [hnoted] at hmem
      rcases List.mem_append.mp hmem with hold | hnew
      · exact absurd hold (hnone occurrence entry)
      · cases List.mem_singleton.mp hnew
        exact ⟨[], updates, trivial, rfl, by rw [htask]; rfl, rfl⟩
  · intro path updates _ hpart
    rw [htask] at hpart
    obtain ⟨rfl, hsame⟩ := part_ended hpart
    cases hsame
    rcases hnotes with ⟨-, hfailed⟩ | ⟨own, hown, hnoted⟩
    · exact absurd rfl (hfailed updates)
    · cases hown
      rw [hnoted]
      exact .inr (.inl (List.mem_append_right _ List.mem_cons_self))
  · intro occurrence hmem
    have hold : .restarted occurrence ∈ progress.notes := by
      rcases hnotes with ⟨hsame, -⟩ | ⟨updates, -, hnoted⟩
      · rw [hsame] at hmem
        exact hmem
      · rw [hnoted] at hmem
        rcases List.mem_append.mp hmem with hold | hnew
        · exact hold
        · cases List.mem_singleton.mp hnew
    exact absurd hold (hcalm occurrence)
  · intro path _ _ hpart
    rw [htask] at hpart
    cases (part_ended hpart).2

end Tells

section Polls

variable [DecidableEq C] {config : Config C} {run : OccurrenceKey} {id : NodeId} {base : List Nat}
  {path : List Nat} {act : Act C} {task : Task C} {state : State C} {store : PendingWrites C}
  {progress : Progress C}

omit [DecidableEq C] in
/-- What a poll of its body tells of an item, it tells of it when the item has been finished. -/
private theorem finishItem_tells {fields : Map C} {node : Node C} {derived : State C}
    {item : Value C} {ctx : Context} {witness other : List Nat → Option (Value C)}
    {key : List Nat → OccurrenceKey} (htells : Tells node (· ≠ []) witness key task store progress)
    (hkey : ctx.occurrence = key []) (hitem : other [] = some item)
    (hwitness : ∀ path, path ≠ [] → other path = witness path) :
    Tells node (fun _ => True) other key task store
      (fields.finishItem state derived item ctx progress) := by
  cases hgoing : progress.task.isEnded with
  | false =>
      rw [finishItem_going hgoing]
      exact htells.goes hwitness hgoing
  | true =>
      obtain ⟨outcome, hended⟩ := Task.eq_ended hgoing
      rw [finishItem_ended hended]
      cases hfinal : fields.itemOutcome state derived outcome with
      | ok updates =>
          refine htells.ends hended rfl (.inr ⟨updates, rfl, ?_⟩)
          rw [Progress.endItem, hkey, hitem]
      | error error => exact htells.ends hended rfl (.inl ⟨rfl, fun _ => by simp⟩)
      | panicked text => exact htells.ends hended rfl (.inl ⟨rfl, fun _ => by simp⟩)

/-- A poll of an item tells of its body's runs and of its own. -/
private theorem itemPoll_tells {fields : Map C} {body : Node C} {items : List (Value C)}
    {index : Nat} {item : Value C} (hlisted : state.list fields.list = .ok items)
    (hitem : items[index]? = some item)
    (hbody : ∀ {derived path act task store progress},
      body.run config derived ⟨ofPath run id (base ++ [index]), true⟩ path act task store =
        some progress →
      Tells body (· ≠ []) (body.itemAt derived) (fun path => ofPath run id (base ++ [index] ++ path))
        task store progress)
    (hpolled : ItemPoll fields (body.run config) state item
      ⟨ofPath run id (base ++ [index]), true⟩ store path act task progress) :
    Tells body (fun _ => True) (fun path => (Node.map fields body).itemAt state (index :: path))
      (fun path => ofPath run id (base ++ [index] ++ path)) task store progress := by
  have hkey : ofPath run id (base ++ [index]) = ofPath run id (base ++ [index] ++ []) := by
    rw [List.append_nil]
  have hown : (Node.map fields body).itemAt state [index] = some item :=
    Node.itemAt_item hlisted hitem
  cases hpolled with
  | @reused updates hfound =>
      have hheld := store.matching_some hfound
      refine ⟨by simp, ?_, by simp, ?_, fun _ => within_ended _ _⟩
      · intro path own _ hpart
        obtain ⟨rfl, hsame⟩ := part_ended hpart
        have hchecked : checked state updates = .ok own := (Task.ended.inj hsame).symm
        cases checked_ok hchecked
        refine .inr (.inr ?_)
        rw [← hkey, hown]
        exact hheld
      · intro path _ _ hpart
        cases (part_ended hpart).2
  | underivable =>
      refine .silent rfl ?_ ?_ fun _ => within_ended _ _
      · intro path updates _ hpart
        cases (part_ended hpart).2
      · intro _ path _ hpart
        cases (part_ended hpart).2
  | @first derived inner _ hderived htaken =>
      exact finishItem_tells ((hbody htaken).ran _) hkey hown
        fun path hpath => Node.itemAt_below hlisted hitem hderived hpath
  | @later derived path act task inner _ hderived htaken =>
      exact finishItem_tells (hbody htaken) hkey hown
        fun path hpath => Node.itemAt_below hlisted hitem hderived hpath

omit [DecidableEq C] in
/-- A poll of an item tells the same of the items of its map. -/
private theorem into_tells {fields : Map C} {body : Node C} {tasks : List (Task C)} {index : Nat}
    (hstarted : tasks[index]? = some task)
    (htells : Tells body (fun _ => True)
      (fun path => (Node.map fields body).itemAt state (index :: path))
      (fun path => ofPath run id (base ++ [index] ++ path)) task store progress) :
    Tells (.map fields body) (· ≠ []) ((Node.map fields body).itemAt state)
      (fun path => ofPath run id (base ++ path)) (.mapping tasks) store
      (progress.into tasks index) := by
  have hshift (path : List Nat) : base ++ [index] ++ path = base ++ index :: path := by
    rw [List.append_assoc, List.singleton_append]
  unfold Progress.into
  split
  · rename_i text hpanicked
    refine ⟨?_, ?_, ?_, ?_, fun _ => within_ended _ _⟩
    · intro occurrence entry hmem
      obtain ⟨path, updates, -, -, hpart, -⟩ := htells.finished occurrence entry hmem
      rw [hpanicked] at hpart
      cases (part_ended hpart).2
    · intro path updates _ hpart
      cases (part_ended hpart).2
    · intro occurrence hmem
      obtain ⟨path, -, -, -, hpart⟩ := htells.restarted occurrence hmem
      rw [hpanicked] at hpart
      cases (part_ended hpart).2
    · intro path _ _ hpart
      cases (part_ended hpart).2
  · have hset : (tasks.set index progress.task)[index]? = some progress.task :=
      List.getElem?_set_self (List.getElem?_eq_some_iff.mp hstarted).1
    have hapart {other : Nat} (hne : other ≠ index) {path : List Nat} {part : Task C}
        (hpart : (Task.mapping (tasks.set index progress.task)).part (other :: path) = some part) :
        (Task.mapping tasks).part (other :: path) = some part := by
      obtain ⟨own, hother, hown⟩ := part_mapping hpart
      rw [List.getElem?_set_ne (Ne.symm hne)] at hother
      rw [part_item hother]
      exact hown
    refine ⟨?_, ?_, ?_, ?_, ?_⟩
    · intro occurrence entry hmem
      obtain ⟨path, updates, -, hkey, hpart, hentry⟩ := htells.finished occurrence entry hmem
      refine ⟨index :: path, updates, List.cons_ne_nil _ _, ?_, ?_, hentry⟩
      · rw [hkey, hshift]
      · exact (part_item hset path).trans hpart
    · intro path updates hpath hpart
      cases path with
      | nil => exact absurd rfl hpath
      | cons other path =>
          by_cases hsame : other = index
          · subst hsame
            rw [part_item hset] at hpart
            rw [part_item hstarted, ← hshift]
            exact htells.succeeded path updates trivial hpart
          · exact .inl (hapart hsame hpart)
    · intro occurrence hmem
      obtain ⟨path, hkey, hcalls, hlength, hpart⟩ := htells.restarted occurrence hmem
      refine ⟨index :: path, ?_, hcalls, ?_, ?_⟩
      · rw [hkey, hshift]
      · rw [List.length_cons, hlength, Node.depth]
      · exact (part_item hset path).trans hpart
    · intro path hcalls hlength hpart
      cases path with
      | nil => cases hlength
      | cons other path =>
          by_cases hsame : other = index
          · subst hsame
            rw [part_item hset] at hpart
            rw [part_item hstarted, ← hshift]
            exact htells.called path hcalls (Nat.succ.inj hlength) hpart
          · exact .inl (hapart hsame hpart)
    · intro hwithin
      have hitems := within_mapping.mp hwithin
      refine within_mapping.mpr fun item hmem => ?_
      rcases List.mem_or_eq_of_mem_set hmem with hold | rfl
      · exact hitems item hold
      · exact htells.within (hitems task (List.mem_of_getElem? hstarted))

/-- A poll of a run tells of the items below it. -/
theorem run_tells {node : Node C}
    (hpolled : node.run config state ⟨ofPath run id base, true⟩ path act task store =
      some progress) :
    Tells node (· ≠ []) (node.itemAt state) (fun path => ofPath run id (base ++ path)) task store
      progress := by
  induction node generalizing state base path act task store progress with
  | host check =>
      unfold Node.run at hpolled
      split at hpolled
      · cases hpolled
        refine .silent rfl ?_ (fun hcalls => by cases hcalls) fun _ => within_running _
        exact fun path updates hpath hpart => absurd (part_running hpart).1 hpath
      · cases hpolled
        refine .silent rfl ?_ (fun hcalls => by cases hcalls) fun _ => within_ended _ _
        exact fun path updates hpath hpart => absurd (part_ended hpart).1 hpath
      · cases hpolled
  | call check start =>
      have hends (outcome : RawOutcome C) : Tells (.call check start) (· ≠ [])
          ((Node.call check start).itemAt state) (fun path => ofPath run id (base ++ path)) task store
          ⟨.ended outcome, store, []⟩ := by
        refine .silent rfl ?_ ?_ fun _ => within_ended _ _
        · exact fun path updates hpath hpart => absurd (part_ended hpart).1 hpath
        · intro _ path _ hpart
          cases (part_ended hpart).2
      unfold Node.run at hpolled
      split at hpolled
      · split at hpolled
        · cases hpolled
          exact hends _
        · cases hpolled
          refine ⟨by simp, ?_, ?_, ?_, fun _ => within_running _⟩
          · exact fun path updates hpath hpart => absurd (part_running hpart).1 hpath
          · intro occurrence hmem
            cases List.mem_singleton.mp hmem
            exact ⟨[], by rw [List.append_nil], rfl, rfl, rfl⟩
          · intro path _ hlength _
            cases List.length_eq_zero_iff.mp hlength
            rw [List.append_nil]
            exact .inr List.mem_cons_self
      · cases hpolled
        exact hends _
      · cases hpolled
  | map fields body ih =>
      have hends (outcome : RawOutcome C) : Tells (.map fields body) (· ≠ [])
          ((Node.map fields body).itemAt state) (fun path => ofPath run id (base ++ path)) task store
          ⟨.ended outcome, store, []⟩ := by
        refine .silent rfl ?_ ?_ fun _ => within_ended _ _
        · exact fun path updates hpath hpart => absurd (part_ended hpart).1 hpath
        · intro _ path _ hpart
          cases (part_ended hpart).2
      cases run_map_poll hpolled with
      | unplanned => exact hends _
      | collects => exact hends _
      | begins =>
          refine .silent rfl ?_ ?_ fun _ => within_mapping.mpr (by simp)
          · intro path updates hpath hpart
            cases path with
            | nil => exact absurd rfl hpath
            | cons index path =>
                obtain ⟨item, hitem, -⟩ := part_mapping hpart
                simp at hitem
          · intro _ path hlength hpart
            cases path with
            | nil => cases hlength
            | cons index path =>
                obtain ⟨item, hitem, -⟩ := part_mapping hpart
                simp at hitem
      | @admits prepared width tasks =>
          -- the new item waits
          have hbefore {index : Nat} {path : List Nat} {part : Task C} (hmoved : part ≠ .waiting)
              (hpart : (Task.mapping (tasks ++ [.waiting])).part (index :: path) = some part) :
              (Task.mapping tasks).part (index :: path) = some part := by
            obtain ⟨item, hitem, hbelow⟩ := part_mapping hpart
            rcases Nat.lt_or_ge index tasks.length with hold | hnew
            · rw [List.getElem?_append_left hold] at hitem
              rw [part_item hitem]
              exact hbelow
            · have hmem := List.mem_of_getElem? ((List.getElem?_append_right hnew).symm.trans hitem)
              cases List.mem_singleton.mp hmem
              exact absurd (part_waiting hbelow).2 hmoved
          refine .silent rfl ?_ ?_ ?_
          · intro path updates hpath hpart
            cases path with
            | nil => exact absurd rfl hpath
            | cons index path => exact hbefore (by simp) hpart
          · intro _ path hlength hpart
            cases path with
            | nil => cases hlength
            | cons index path => exact hbefore (by simp) hpart
          · intro hwithin
            refine within_mapping.mpr fun item hmem => ?_
            rcases List.mem_append.mp hmem with hold | hnew
            · exact within_mapping.mp hwithin item hold
            · rw [List.mem_singleton.mp hnew]
              exact within_waiting _
      | @item prepared width tasks index path act item itemCtx task inner hplanned hlisted hstarted
          hitem =>
          obtain ⟨items, hitems, hat, rfl⟩ := Map.plan_get hplanned hlisted
          exact into_tells hstarted
            (itemPoll_tells hitems hat (fun htaken => ih htaken) hitem)

/-- A poll of a node of the superstep tells of its items and of itself. -/
theorem nodePoll_tells {node : Node C}
    (hpolled : NodePoll config node state (Context.forNode ⟨run, true⟩ id) store path act task
      progress) :
    Tells node (fun _ => True) (node.itemAt state) (ofPath run id) task store progress := by
  have hkeeps {inner : Progress C}
      (htells : Tells node (· ≠ []) (node.itemAt state) (ofPath run id) task store inner) :
      Tells node (fun _ => True) (node.itemAt state) (ofPath run id) task store
        (keepNode (Context.forNode ⟨run, true⟩ id) inner) := by
    cases hgoing : inner.task.isEnded with
    | false =>
        have hsame : keepNode (Context.forNode ⟨run, true⟩ id) inner = inner := by
          unfold keepNode
          split
          · rename_i hended
            rw [hended] at hgoing
            cases hgoing
          · rfl
        rw [hsame]
        exact htells.goes (fun _ _ => rfl) hgoing
    | true =>
        obtain ⟨outcome, hended⟩ := Task.eq_ended hgoing
        refine htells.ends hended ((keepNode_task _ _).trans hended) ?_
        rw [keepNode, hended]
        cases outcome with
        | ok updates =>
            refine .inr ⟨updates, rfl, ?_⟩
            rw [Node.itemAt_nil]
            rfl
        | error error => exact .inl ⟨rfl, fun _ => by simp⟩
        | panicked text => exact .inl ⟨rfl, fun _ => by simp⟩
  cases hpolled with
  | @reused updates hfound =>
      have hheld := store.matching_some hfound
      refine ⟨by simp, ?_, by simp, ?_, fun _ => within_ended _ _⟩
      · intro path own _ hpart
        obtain ⟨rfl, hsame⟩ := part_ended hpart
        cases hsame
        rw [Node.itemAt_nil]
        exact .inr (.inr hheld)
      · intro path _ _ hpart
        cases (part_ended hpart).2
  | @first inner _ htaken =>
      have htells : Tells node (· ≠ []) (node.itemAt state) (ofPath run id) _ store inner :=
        @run_tells _ _ _ _ _ _ [] _ _ _ _ _ _ _ htaken
      exact hkeeps (htells.ran _)
  | @later path act task inner _ htaken =>
      have htells : Tells node (· ≠ []) (node.itemAt state) (ofPath run id) _ store inner :=
        @run_tells _ _ _ _ _ _ [] _ _ _ _ _ _ _ htaken
      exact hkeeps htells

end Polls

/-- Where the way to a run ends: the rest of the way, and what it has ended with. -/
def Task.endOn : List Nat → Task C → Option (List Nat × RawOutcome C)
  | path, .ended outcome => some (path, outcome)
  | index :: path, .mapping items =>
      match items[index]? with
      | some task => task.endOn path
      | none => none
  | _, _ => none

/-- What has ended has ended so for good, or a map above it has ended. -/
def Task.Grows (task later : Task C) : Prop :=
  ∀ path rest outcome, task.endOn path = some (rest, outcome) →
    ∃ rest' outcome', later.endOn path = some (rest', outcome') ∧
      (rest' = rest ∧ outcome' = outcome ∨ rest.length < rest'.length)

section Grows

variable {task middle later : Task C} {path rest : List Nat} {outcome : RawOutcome C}

theorem endOn_ended (path : List Nat) (outcome : RawOutcome C) :
    (Task.ended outcome).endOn path = some (path, outcome) := by
  cases path <;> rfl

theorem endOn_item {items : List (Task C)} {index : Nat} (hitem : items[index]? = some task)
    (path : List Nat) : (Task.mapping items).endOn (index :: path) = task.endOn path := by
  simp only [Task.endOn, hitem]

theorem endOn_mapping {items : List (Task C)} {index : Nat}
    (hend : (Task.mapping items).endOn (index :: path) = some (rest, outcome)) :
    ∃ item, items[index]? = some item ∧ item.endOn path = some (rest, outcome) := by
  rw [Task.endOn] at hend
  split at hend
  · rename_i item hitem
    exact ⟨item, hitem, hend⟩
  · cases hend

/-- What has ended at a path is the end of the way to it. -/
theorem endOn_part (hpart : task.part path = some (.ended outcome)) :
    task.endOn path = some ([], outcome) := by
  induction path generalizing task with
  | nil =>
      cases Option.some.inj hpart
      rfl
  | cons index path ih =>
      cases task with
      | mapping items =>
          obtain ⟨item, hitem, hbelow⟩ := part_mapping hpart
          rw [endOn_item hitem]
          exact ih hbelow
      | waiting => cases hpart
      | running => cases hpart
      | ended => cases hpart

/-- The way to a run ends above it, and strictly below what has not ended. -/
theorem endOn_length (hgoing : task.isEnded = false)
    (hend : task.endOn path = some (rest, outcome)) : rest.length < path.length := by
  induction path generalizing task with
  | nil =>
      cases task with
      | ended => cases hgoing
      | waiting => cases hend
      | running => cases hend
      | mapping => cases hend
  | cons index path ih =>
      cases task with
      | mapping items =>
          obtain ⟨item, hitem, hbelow⟩ := endOn_mapping hend
          cases hitem_ : item.isEnded with
          | true =>
              obtain ⟨own, rfl⟩ := Task.eq_ended hitem_
              rw [endOn_ended] at hbelow
              cases hbelow
              exact Nat.lt_succ_self _
          | false => exact Nat.lt_succ_of_lt (ih hitem_ hbelow)
      | waiting => cases hend
      | running => cases hend
      | ended => cases hgoing

namespace Task.Grows

theorem refl (task : Task C) : task.Grows task :=
  fun _ rest outcome hend => ⟨rest, outcome, hend, .inl ⟨rfl, rfl⟩⟩

theorem trans (hfirst : task.Grows middle) (hsecond : middle.Grows later) : task.Grows later := by
  intro path rest outcome hend
  obtain ⟨rest', outcome', hmiddle, hless⟩ := hfirst path rest outcome hend
  obtain ⟨rest'', outcome'', hlater, hless'⟩ := hsecond path rest' outcome' hmiddle
  refine ⟨rest'', outcome'', hlater, ?_⟩
  rcases hless with ⟨rfl, rfl⟩ | hless
  · exact hless'
  · rcases hless' with ⟨rfl, -⟩ | hless'
    · exact .inr hless
    · exact .inr (hless.trans hless')

/-- A run may end that has not. -/
theorem ends (hgoing : task.isEnded = false) (outcome : RawOutcome C) :
    task.Grows (.ended outcome) := by
  intro path rest own hend
  exact ⟨path, outcome, endOn_ended path outcome, .inr (endOn_length hgoing hend)⟩

theorem of_waiting (later : Task C) : (Task.waiting : Task C).Grows later := by
  intro path rest outcome hend
  cases path <;> cases hend

theorem of_running (later : Task C) : (Task.running : Task C).Grows later := by
  intro path rest outcome hend
  cases path <;> cases hend

/-- A map grows with its items. -/
theorem mapping {items others : List (Task C)}
    (hitems : ∀ (index : Nat) (item : Task C), items[index]? = some item →
      ∃ other, others[index]? = some other ∧ item.Grows other) :
    (Task.mapping items).Grows (.mapping others) := by
  intro path rest outcome hend
  cases path with
  | nil => cases hend
  | cons index path =>
      obtain ⟨item, hitem, hbelow⟩ := endOn_mapping hend
      obtain ⟨other, hother, hgrows⟩ := hitems index item hitem
      rw [endOn_item hother]
      exact hgrows path rest outcome hbelow

/-- What has ended at a path does not end again as something else. -/
theorem same (hgrows : task.Grows later) {other : RawOutcome C}
    (hpart : task.part path = some (.ended outcome))
    (hlater : later.part path = some (.ended other)) : other = outcome := by
  obtain ⟨rest, own, hend, hless⟩ := hgrows path [] outcome (endOn_part hpart)
  rw [endOn_part hlater] at hend
  cases hend
  rcases hless with ⟨-, rfl⟩ | hless
  · rfl
  · exact absurd hless (Nat.lt_irrefl _)

end Task.Grows

section Runs

variable [DecidableEq C] {config : Config C} {state : State C} {ctx : Context} {act : Act C}
  {store : PendingWrites C} {progress : Progress C}

private theorem itemPoll_grows {fields : Map C} {body : Node C} {item : Value C}
    (hbody : ∀ {derived ctx path act task store progress},
      body.run config derived ctx path act task store = some progress → task.Grows progress.task)
    (hpolled : ItemPoll fields (body.run config) state item ctx store path act task progress) :
    task.Grows progress.task := by
  cases hpolled with
  | reused => exact .of_waiting _
  | underivable => exact .of_waiting _
  | first => exact .of_waiting _
  | @later derived path act task inner _ _ htaken =>
      have hgrows := hbody htaken
      cases hgoing : inner.task.isEnded with
      | false =>
          rw [finishItem_going hgoing]
          exact hgrows
      | true =>
          obtain ⟨outcome, hended⟩ := Task.eq_ended hgoing
          have hopen : task.isEnded = false := by
            cases task with
            | ended own =>
                rw [run_ended] at htaken
                cases htaken
            | waiting => rfl
            | running => rfl
            | mapping => rfl
          rw [finishItem_ended hended]
          cases fields.itemOutcome state derived outcome <;> exact .ends hopen _

/-- A poll lets no run that has ended end again. -/
theorem run_grows {node : Node C}
    (hpolled : node.run config state ctx path act task store = some progress) :
    task.Grows progress.task := by
  induction node generalizing state ctx path act task store progress with
  | host check =>
      unfold Node.run at hpolled
      split at hpolled
      · exact .of_waiting _
      · exact .of_running _
      · cases hpolled
  | call check start =>
      unfold Node.run at hpolled
      split at hpolled
      · exact .of_waiting _
      · exact .of_running _
      · cases hpolled
  | map fields body ih =>
      cases run_map_poll hpolled with
      | unplanned => exact .of_waiting _
      | begins => exact .of_waiting _
      | collects => exact .ends rfl _
      | @admits prepared width tasks =>
          refine .mapping fun index item hitem => ⟨item, ?_, .refl item⟩
          rw [List.getElem?_append_left (List.getElem?_eq_some_iff.mp hitem).1]
          exact hitem
      | @item prepared width tasks index path act item itemCtx task inner _ _ hstarted hitem =>
          have hgrows := itemPoll_grows (fun htaken => ih htaken) hitem
          unfold Progress.into
          split
          · exact .ends rfl _
          · refine .mapping fun other item hother => ?_
            by_cases hsame : index = other
            · subst hsame
              rw [hstarted, Option.some.injEq] at hother
              subst hother
              exact ⟨inner.task, List.getElem?_set_self (List.getElem?_eq_some_iff.mp hstarted).1,
                hgrows⟩
            · refine ⟨item, ?_, .refl item⟩
              rw [List.getElem?_set_ne hsame]
              exact hother

theorem nodePoll_grows {node : Node C}
    (hpolled : NodePoll config node state ctx store path act task progress) :
    task.Grows progress.task := by
  cases hpolled with
  | reused => exact .of_waiting _
  | first => exact .of_waiting _
  | later _ htaken =>
      rw [keepNode_task]
      exact run_grows htaken

end Runs

end Grows

end LlmGraph.Superstep
