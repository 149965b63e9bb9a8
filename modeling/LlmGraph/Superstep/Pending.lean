/- digest: Occurrences of nodes and map items, the pending entries recorded under them, and what a
   context does with the recorder of its run. -/

import Mathlib.Data.List.Basic
import LlmGraph.Superstep.State

set_option autoImplicit false
set_option relaxedAutoImplicit false

namespace LlmGraph.Superstep

/-- One step of an occurrence path: a node, and the item index when the node repeats a body over
a list. -/
structure Segment where
  node : NodeId
  index : Option Nat
  deriving DecidableEq, Repr

/-- The path of a node occurrence through nested runs, outermost first. -/
abbrev OccurrenceKey := List Segment

namespace OccurrenceKey

/-- `starts_with`: the other key is this occurrence or one of its ancestors. -/
def startsWith (key above : OccurrenceKey) : Bool := above.isPrefixOf key

def child (key : OccurrenceKey) (segment : Segment) : OccurrenceKey := key ++ [segment]

/-- The occurrence of an item of the node this key ends with: the last segment takes the index,
and where it already has one the same node is pushed again. -/
def item (key : OccurrenceKey) (index : Nat) : Option OccurrenceKey :=
  match key.getLast? with
  | none => none
  | some last =>
      let segments := if last.index.isNone then key.dropLast else key
      some (segments ++ [⟨last.node, some index⟩])

@[simp] theorem startsWith_iff (key above : OccurrenceKey) :
    key.startsWith above = true ↔ above <+: key := List.isPrefixOf_iff_prefix

/-- The occurrence of a node or of an item of its map, however deep: the indices of the items on
the way. -/
def ofPath (run : OccurrenceKey) (node : NodeId) : List Nat → OccurrenceKey
  | [] => run ++ [⟨node, none⟩]
  | path => run ++ path.map fun index => ⟨node, some index⟩

variable {run : OccurrenceKey} {node other : NodeId} {path deeper : List Nat}

theorem ofPath_cons (run : OccurrenceKey) (node : NodeId) (index : Nat) (path : List Nat) :
    ofPath run node (index :: path) =
      run ++ (index :: path).map fun index => (⟨node, some index⟩ : Segment) := rfl

/-- Items of items push the same node again. -/
theorem item_ofPath (run : OccurrenceKey) (node : NodeId) (path : List Nat) (index : Nat) :
    (ofPath run node path).item index = some (ofPath run node (path ++ [index])) := by
  rcases path.eq_nil_or_concat with rfl | ⟨before, last, rfl⟩
  · simp [ofPath, item]
  · have hshape : ∀ path : List Nat, path ≠ [] → ofPath run node path =
        run ++ path.map fun index => (⟨node, some index⟩ : Segment) := by
      intro path hnonempty
      cases path with
      | nil => exact absurd rfl hnonempty
      | cons => rfl
    rw [hshape _ (by simp), hshape _ (by simp), item, List.concat_eq_append, List.map_append,
      ← List.append_assoc]
    simp

theorem length_ofPath (run : OccurrenceKey) (node : NodeId) (path : List Nat) :
    (ofPath run node path).length = run.length + max 1 path.length := by
  cases path with
  | nil => simp [ofPath]
  | cons => simp [ofPath]

/-- The first segment below the run names the node. -/
theorem segment_ofPath (run : OccurrenceKey) (node : NodeId) (path : List Nat) :
    ∃ index, (ofPath run node path)[run.length]? = some ⟨node, index⟩ := by
  cases path with
  | nil => exact ⟨none, by simp [ofPath]⟩
  | cons index => exact ⟨some index, by simp [ofPath]⟩

theorem startsWith_ofPath (run : OccurrenceKey) (node : NodeId) (path : List Nat) :
    (ofPath run node path).startsWith run = true := by
  rw [startsWith_iff]
  cases path <;> exact List.prefix_append _ _

/-- An occurrence is that of one node, at one path. -/
theorem ofPath_inj (hsame : ofPath run node path = ofPath run other deeper) :
    node = other ∧ path = deeper := by
  have hinjective : Function.Injective fun index => (⟨other, some index⟩ : Segment) := by
    intro a b hequal
    simpa using hequal
  cases path with
  | nil =>
      cases deeper with
      | nil => simpa [ofPath] using hsame
      | cons => simp [ofPath] at hsame
  | cons first rest =>
      cases deeper with
      | nil => simp [ofPath] at hsame
      | cons =>
          rw [ofPath_cons, ofPath_cons, List.append_cancel_left_eq] at hsame
          have hnames : node = other := by
            have hfirst := congrArg (fun key => (key.head?).map Segment.node) hsame
            simpa using hfirst
          subst hnames
          exact ⟨rfl, List.map_injective_iff.mpr hinjective hsame⟩

/-- An occurrence lies at or below that of an item only where the path does. -/
theorem prefix_of_ofPath (hitem : path ≠ [])
    (hbelow : ofPath run node path <+: ofPath run node deeper) :
    path <+: deeper := by
  have hinjective : Function.Injective fun index => (⟨node, some index⟩ : Segment) := by
    intro a b hequal
    simpa using hequal
  cases path with
  | nil => exact absurd rfl hitem
  | cons first rest =>
      cases deeper with
      | nil =>
          obtain ⟨more, hwhole⟩ := hbelow
          simp [ofPath] at hwhole
      | cons =>
          rw [ofPath_cons, ofPath_cons, List.prefix_append_right_inj] at hbelow
          obtain ⟨sublist, hwithin, hsame⟩ := List.prefix_map_iff.mp hbelow
          rw [List.map_injective_iff.mpr hinjective hsame]
          exact hwithin

end OccurrenceKey

variable {C : Type} [Conversation C]

/-- The updates a finished occurrence returned, and for a map item the item it ran on. -/
structure PendingEntry (C : Type) [Conversation C] where
  updates : List (Update C)
  witness : Option (Value C)

/-- The entries of finished occurrences whose superstep is still open. -/
def PendingWrites (C : Type) [Conversation C] := OccurrenceKey → Option (PendingEntry C)

namespace PendingWrites

variable (writes : PendingWrites C)

def empty : PendingWrites C := fun _ => none

def insert (occurrence : OccurrenceKey) (entry : PendingEntry C) : PendingWrites C :=
  Function.update writes occurrence (some entry)

def remove (occurrence : OccurrenceKey) : PendingWrites C :=
  Function.update writes occurrence none

/-- The updates recorded for an occurrence when its witness is the given one. -/
def matching [DecidableEq C] (occurrence : OccurrenceKey) (witness : Option (Value C)) :
    Option (List (Update C)) :=
  match writes occurrence with
  | some entry => if entry.witness = witness then some entry.updates else none
  | none => none

/-- The entries at or below an occurrence. -/
def under (above : OccurrenceKey) : PendingWrites C := fun key =>
  if key.startsWith above then writes key else none

/-- Drops the entries strictly below an occurrence; its own entry stays. -/
def dropBelow (occurrence : OccurrenceKey) : PendingWrites C := fun key =>
  if key.startsWith occurrence ∧ occurrence.length < key.length then none else writes key

/-- Drops the entries of the occurrences of `nodes` run directly under `run`, whatever their item
index, and everything nested in them. -/
def dropNodes (run : OccurrenceKey) (nodes : List NodeId) : PendingWrites C := fun key =>
  if key.startsWith run then
    match key[run.length]? with
    | some segment => if segment.node ∈ nodes then none else writes key
    | none => writes key
  else writes key

@[ext]
theorem ext {first second : PendingWrites C} (hsame : ∀ key, first key = second key) :
    first = second := funext hsame

/-- What is recorded under an occurrence is found there, on the same item. -/
theorem matching_some [DecidableEq C] {occurrence : OccurrenceKey} {witness : Option (Value C)}
    {updates : List (Update C)} (hfound : writes.matching occurrence witness = some updates) :
    writes occurrence = some ⟨updates, witness⟩ := by
  unfold matching at hfound
  split at hfound
  · rename_i entry hheld
    split at hfound
    · rename_i hsame
      cases hfound
      rw [hheld, ← hsame]
    · cases hfound
  · cases hfound

theorem matching_none [DecidableEq C] {occurrence : OccurrenceKey} {witness : Option (Value C)}
    (hmissing : writes.matching occurrence witness = none) (updates : List (Update C)) :
    writes occurrence ≠ some ⟨updates, witness⟩ := by
  intro hheld
  simp [matching, hheld] at hmissing

end PendingWrites

/-- A context: the occurrence it stands for, and whether its run records. -/
structure Context where
  occurrence : OccurrenceKey
  recording : Bool

namespace Context

variable (ctx : Context)

def child (segment : Segment) : Context := { ctx with occurrence := ctx.occurrence.child segment }

def forNode (node : NodeId) : Context := ctx.child ⟨node, none⟩

def withOccurrence (occurrence : OccurrenceKey) : Context := { ctx with occurrence := occurrence }

/-- What an earlier attempt recorded for this occurrence. -/
def recorded [DecidableEq C] (store : PendingWrites C) : Option (List (Update C)) :=
  if ctx.recording then store.matching ctx.occurrence none else none

/-- What an earlier attempt recorded for this map item, only when it ran on the same item. -/
def recordedItem [DecidableEq C] (store : PendingWrites C) (item : Value C) :
    Option (List (Update C)) :=
  if ctx.recording then store.matching ctx.occurrence (some item) else none

def keep (store : PendingWrites C) (entry : PendingEntry C) : PendingWrites C :=
  if ctx.recording then store.insert ctx.occurrence entry else store

/-- `record` and `record_unseen`, which differ in what the observer sees. -/
def record (store : PendingWrites C) (updates : List (Update C)) : PendingWrites C :=
  ctx.keep store ⟨updates, none⟩

def recordItem (store : PendingWrites C) (item : Value C) (updates : List (Update C)) :
    PendingWrites C :=
  ctx.keep store ⟨updates, some item⟩

/-- `restart_whole`: the entries strictly below this occurrence are removed; the called graph that
runs there records nothing, so it leaves the recorder as it is. -/
def restartWhole (store : PendingWrites C) : PendingWrites C := store.dropBelow ctx.occurrence

def pendingHere (store : PendingWrites C) : PendingWrites C := store.under ctx.occurrence

def dropPending (store : PendingWrites C) (nodes : List NodeId) : PendingWrites C :=
  store.dropNodes ctx.occurrence nodes

def forgetNode (store : PendingWrites C) (node : NodeId) : PendingWrites C :=
  store.remove (ctx.occurrence.child ⟨node, none⟩)

end Context

end LlmGraph.Superstep
