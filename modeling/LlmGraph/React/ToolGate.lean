/- digest: The gate that limits the tool calls running at once: its places, the queue of the waits
   and the places handed to them, over every order of polls and drops. -/

import Mathlib.Data.Finset.Card
import Mathlib.Logic.Function.Basic
import LlmGraph.Contract.Instance
import LlmGraph.Lib.History

set_option autoImplicit false
set_option relaxedAutoImplicit false

namespace LlmGraph.React

open Contract (Poll)
open Lib (Throughout)

/-- Wakers of a runtime: each wakes one task, and `will_wake` is true only of wakers of one task. -/
class Wakers (W : Type) where
  Task : Type
  task : W → Task
  willWake : W → W → Bool
  honest : ∀ held new, willWake held new = true → task held = task new

/-- A waker told by the number of its task. -/
instance : Wakers Contract.Waker := ⟨Nat, id, fun held new => held == new, by simp⟩

/-- The places and waiters of a gate; the ids count the waits from zero. -/
structure GateState (W : Type) where
  free : Nat
  next : Nat
  queue : List (Nat × W)
  handed : Finset Nat

variable {W : Type}

namespace GateState

def new (width : Nat) : GateState W := ⟨width, 0, [], ∅⟩

/-- Give a place back: to the first waiter, whose waker is to be woken, or to the free places. -/
def release (state : GateState W) : GateState W × Option W :=
  match state.queue with
  | (id, waker) :: rest =>
      ({ state with queue := rest, handed := insert id state.handed }, some waker)
  | [] => ({ state with free := state.free + 1 }, none)

def ids (state : GateState W) : List Nat := state.queue.map Prod.fst

end GateState

/-- The waker of the last poll takes the place of the one queued under the id. -/
def rewake [Wakers W] (id : Nat) (cx : W) : List (Nat × W) → List (Nat × W)
  | [] => []
  | (queued, waker) :: rest =>
      if queued = id then (queued, if Wakers.willWake waker cx then waker else cx) :: rest
      else (queued, waker) :: rewake id cx rest

namespace Enter

/-- One poll of a wait: the gate after it, the id under which the wait queues from then on, and
whether it has its pass. -/
def poll [Wakers W] (queued : Option Nat) (cx : W) (state : GateState W) :
    GateState W × Option Nat × Poll Unit :=
  match queued with
  | none =>
      if 0 < state.free then ({ state with free := state.free - 1 }, none, .Ready ())
      else
        ({ state with next := state.next + 1, queue := state.queue ++ [(state.next, cx)] },
          some state.next, .Pending)
  | some id =>
      if id ∈ state.handed then
        ({ state with handed := state.handed.erase id }, none, .Ready ())
      else ({ state with queue := rewake id cx state.queue }, some id, .Pending)

/-- A wait dropped in the queue leaves it; one dropped after it was handed a place passes it on. -/
def drop (queued : Option Nat) (state : GateState W) : GateState W × Option W :=
  match queued with
  | none => (state, none)
  | some id =>
      if id ∈ state.handed then
        GateState.release { state with handed := state.handed.erase id }
      else ({ state with queue := state.queue.eraseP (·.1 = id) }, none)

end Enter

/-! The gate with the waits and passes that came out of it. -/

/-- A wait that is not dropped: the lease it borrows the gate from, the id it queues under, and the
task that polled it last. -/
structure Wait (W : Type) [Wakers W] where
  owner : Nat
  queued : Option Nat
  task : Option (Wakers.Task W)

/-- What comes to pass at a gate, waits being told by the order of their first polls. -/
inductive Notice (W : Type) [Wakers W] where
  | First (wait : Nat)
  | Granted (wait : Nat)
  | Left (wait : Nat)
  | Woken (task : Wakers.Task W)

/-- A gate in use: its waits, the owners of its live passes, how many waits were begun and polled,
the place in the order of first polls of each queued id, and what happened, newest first. -/
structure Crowd (W : Type) [Wakers W] where
  width : Nat
  state : GateState W
  waits : Nat → Option (Wait W)
  passes : List Nat
  entered : Nat
  arrived : Nat
  ticket : Nat → Nat
  log : List (Notice W)

/-- What is done at a gate: a new wait, a poll of one, and drops of a wait and of a pass. -/
inductive GateOp (W : Type) where
  | Enter (owner : Nat)
  | Poll (wait : Nat) (cx : W)
  | DropEnter (wait : Nat)
  | DropPass (owner : Nat)

namespace Crowd

variable [Wakers W]

def new (width : Nat) : Crowd W :=
  ⟨width, .new width, fun _ => none, [], 0, 0, fun _ => 0, []⟩

/-- What a release tells: the first waiter is granted the place and its task is woken. -/
def told (crowd : Crowd W) (state : GateState W) (woken : Option W) : List (Notice W) :=
  match state.queue, woken with
  | (id, _) :: _, some waker => [.Woken (Wakers.task waker), .Granted (crowd.ticket id)]
  | _, _ => []

def enter (crowd : Crowd W) (owner : Nat) : Crowd W :=
  { crowd with
    waits := Function.update crowd.waits crowd.entered (some ⟨owner, none, none⟩)
    entered := crowd.entered + 1 }

/-- The first poll of a wait takes a free place or queues; a later one takes the place that the wait
was handed, or goes on waiting. -/
def poll (crowd : Crowd W) (handle : Nat) (wait : Wait W) (cx : W) : Crowd W :=
  let (state, queued, polled) := Enter.poll wait.queued cx crowd.state
  let crowd' := { crowd with
    state := state
    waits := Function.update crowd.waits handle
      (some { wait with queued := queued, task := some (Wakers.task cx) })
    passes := if polled = .Ready () then wait.owner :: crowd.passes else crowd.passes }
  if wait.queued = none then
    { crowd' with
      arrived := crowd.arrived + 1
      ticket := if polled = .Ready () then crowd.ticket
        else Function.update crowd.ticket crowd.state.next crowd.arrived
      log := (if polled = .Ready () then [.Granted crowd.arrived] else []) ++
        .First crowd.arrived :: crowd.log }
  else crowd'

def dropEnter (crowd : Crowd W) (handle : Nat) (wait : Wait W) : Crowd W :=
  let (state, woken) := Enter.drop wait.queued crowd.state
  let left := match wait.queued with
    | some id => if id ∈ crowd.state.handed then [] else [.Left (crowd.ticket id)]
    | none => []
  { crowd with
    state := state
    waits := Function.update crowd.waits handle none
    log := crowd.told crowd.state woken ++ left ++ crowd.log }

def dropPass (crowd : Crowd W) (owner : Nat) : Crowd W :=
  let (state, woken) := crowd.state.release
  { crowd with
    state := state
    passes := crowd.passes.erase owner
    log := crowd.told crowd.state woken ++ crowd.log }

/-- One operation on the gate, when what it is done to is there. -/
def step (crowd : Crowd W) : GateOp W → Option (Crowd W)
  | .Enter owner => some (crowd.enter owner)
  | .Poll handle cx => (crowd.waits handle).map (crowd.poll handle · cx)
  | .DropEnter handle => (crowd.waits handle).map (crowd.dropEnter handle)
  | .DropPass owner => if owner ∈ crowd.passes then some (crowd.dropPass owner) else none

def run (crowd : Crowd W) : List (GateOp W) → Option (Crowd W)
  | [] => some crowd
  | op :: rest => (crowd.step op).bind (·.run rest)

end Crowd

/-! What holds at a gate at every moment. -/

section Queue

variable [Wakers W] {id other : Nat} {cx waker : W} {queue : List (Nat × W)}

@[simp] theorem rewake_ids : (rewake id cx queue).map Prod.fst = queue.map Prod.fst := by
  induction queue with
  | nil => rfl
  | cons entry rest ih =>
    rw [rewake]
    split
    · rfl
    · simp only [List.map_cons, ih]

private theorem rewake_other (hne : other ≠ id) (hmem : (other, waker) ∈ rewake id cx queue) :
    (other, waker) ∈ queue := by
  induction queue with
  | nil => exact hmem
  | cons entry rest ih =>
    rw [rewake] at hmem
    split at hmem
    · rename_i hsame
      rcases List.mem_cons.mp hmem with heq | hrest
      · exact absurd ((Prod.mk.inj heq).1.trans hsame) hne
      · exact List.mem_cons_of_mem _ hrest
    · rcases List.mem_cons.mp hmem with heq | hrest
      · exact heq ▸ List.mem_cons_self
      · exact List.mem_cons_of_mem _ (ih hrest)

/-- A wait that is polled again is queued with a waker that wakes the task of that poll. -/
private theorem rewake_own (hnodup : (queue.map Prod.fst).Nodup)
    (hmem : (id, waker) ∈ rewake id cx queue) : Wakers.task waker = Wakers.task cx := by
  induction queue with
  | nil => cases hmem
  | cons entry rest ih =>
    rw [List.map_cons, List.nodup_cons] at hnodup
    obtain ⟨hfirst, hrestNodup⟩ := hnodup
    rw [rewake] at hmem
    split at hmem
    · rename_i hsame
      rcases List.mem_cons.mp hmem with heq | hrest
      · rw [(Prod.mk.inj heq).2]
        split
        · rename_i hwill
          exact Wakers.honest _ _ hwill
        · rfl
      · exact absurd (List.mem_map_of_mem (f := Prod.fst) hrest) (hsame ▸ hfirst)
    · rename_i hne
      rcases List.mem_cons.mp hmem with heq | hrest
      · exact absurd (Prod.mk.inj heq).1.symm hne
      · exact ih hrestNodup hrest

omit [Wakers W] in
private theorem map_fst_eraseP :
    (queue.eraseP (·.1 = id)).map Prod.fst = (queue.map Prod.fst).erase id := by
  induction queue with
  | nil => rfl
  | cons entry rest ih =>
    by_cases hsame : entry.1 = id
    · rw [List.eraseP_cons_of_pos (by simpa using hsame), List.map_cons, hsame,
        List.erase_cons_head]
    · rw [List.eraseP_cons_of_neg (by simpa using hsame), List.map_cons, List.map_cons,
        List.erase_cons_tail (by simpa using hsame), ih]

end Queue

/-- How a notice stands to the earlier ones: waits are numbered by their first polls, and a place is
granted once, to a wait all of whose forerunners were granted one or left. -/
def InTurn [Wakers W] : Notice W → List (Notice W) → Prop
  | .First wait, past => .First wait ∉ past ∧ ∀ earlier < wait, .First earlier ∈ past
  | .Granted wait, past => .First wait ∈ past ∧ .Granted wait ∉ past ∧ .Left wait ∉ past ∧
      ∀ earlier < wait, .Granted earlier ∈ past ∨ .Left earlier ∈ past
  | _, _ => True

namespace Crowd

variable [Wakers W]

/-- Every place is free, held by a pass, handed to a wait, or one of the `spare` ones in between. -/
structure Places (spare : Nat) (crowd : Crowd W) : Prop where
  sum : crowd.state.free + crowd.passes.length + crowd.state.handed.card + spare = crowd.width
  idle : 0 < crowd.state.free → crowd.state.queue = []

/-- Each id of the queue, and each that was handed a place, is the one of one wait, and the queue
holds a waker of the task that polled the wait last. -/
structure Queued (crowd : Crowd W) : Prop where
  sorted : crowd.state.ids.Pairwise (· < ·)
  below : ∀ id, id ∈ crowd.state.ids ∨ id ∈ crowd.state.handed → id < crowd.state.next
  apart : ∀ id ∈ crowd.state.ids, id ∉ crowd.state.handed
  waits : ∀ id, id ∈ crowd.state.ids ∨ id ∈ crowd.state.handed ↔
    ∃ handle wait, crowd.waits handle = some wait ∧ wait.queued = some id
  one : ∀ handle other wait wait' id, crowd.waits handle = some wait →
    crowd.waits other = some wait' → wait.queued = some id → wait'.queued = some id →
    handle = other
  awake : ∀ handle wait id waker, crowd.waits handle = some wait → wait.queued = some id →
    (id, waker) ∈ crowd.state.queue → wait.task = some (Wakers.task waker)
  unborn : ∀ handle, crowd.entered ≤ handle → crowd.waits handle = none

/-- Waits queue in the order of their first polls, and each that was polled is queued, was granted a
place, or left. -/
structure Told (crowd : Crowd W) : Prop where
  tickets : ∀ id other, id < other → other < crowd.state.next →
    crowd.ticket id < crowd.ticket other
  known : ∀ id < crowd.state.next, crowd.ticket id < crowd.arrived
  first : ∀ wait, .First wait ∈ crowd.log ↔ wait < crowd.arrived
  served : ∀ wait < crowd.arrived, (∃ id ∈ crowd.state.ids, crowd.ticket id = wait) ∨
    .Granted wait ∈ crowd.log ∨ .Left wait ∈ crowd.log
  waiting : ∀ id ∈ crowd.state.ids, .Granted (crowd.ticket id) ∉ crowd.log ∧
    .Left (crowd.ticket id) ∉ crowd.log
  past : ∀ wait, .Granted wait ∈ crowd.log ∨ .Left wait ∈ crowd.log → wait < crowd.arrived
  ordered : Throughout InTurn crowd.log

structure Sound (spare : Nat) (crowd : Crowd W) : Prop where
  places : Places spare crowd
  queued : Queued crowd
  told : Told crowd

namespace Sound

theorem new (width : Nat) : Sound 0 (Crowd.new width : Crowd W) where
  places := ⟨by simp [Crowd.new, GateState.new], fun _ => rfl⟩
  queued := {
    sorted := List.Pairwise.nil
    below := by simp [Crowd.new, GateState.new, GateState.ids]
    apart := by simp [Crowd.new, GateState.new, GateState.ids]
    waits := by simp [Crowd.new, GateState.new, GateState.ids]
    one := by simp [Crowd.new]
    awake := by simp [Crowd.new]
    unborn := fun _ _ => rfl }
  told := {
    tickets := fun _ _ _ hbelow => absurd hbelow (Nat.not_lt_zero _)
    known := fun _ hbelow => absurd hbelow (Nat.not_lt_zero _)
    first := by simp [Crowd.new]
    served := fun _ hbelow => absurd hbelow (Nat.not_lt_zero _)
    waiting := by simp [Crowd.new, GateState.new, GateState.ids]
    past := by simp [Crowd.new]
    ordered := trivial }

end Sound

/-! A place given back. -/

/-- The gate after a place that nobody holds is given back. -/
def give (crowd : Crowd W) : Crowd W :=
  let (state, woken) := crowd.state.release
  { crowd with state := state, log := crowd.told crowd.state woken ++ crowd.log }

variable {crowd : Crowd W}

theorem give_idle (hidle : crowd.state.queue = []) :
    crowd.give = { crowd with state := { crowd.state with free := crowd.state.free + 1 } } := by
  simp only [give, GateState.release, hidle, told, List.nil_append]

theorem give_next {id : Nat} {waker : W} {rest : List (Nat × W)}
    (hqueue : crowd.state.queue = (id, waker) :: rest) :
    crowd.give = { crowd with
      state := { crowd.state with queue := rest, handed := insert id crowd.state.handed }
      log := .Woken (Wakers.task waker) :: .Granted (crowd.ticket id) :: crowd.log } := by
  simp only [give, GateState.release, hqueue, told, List.cons_append, List.nil_append]

theorem dropPass_eq (owner : Nat) :
    crowd.dropPass owner = give { crowd with passes := crowd.passes.erase owner } := rfl

theorem dropEnter_handed {handle id : Nat} {wait : Wait W} (hid : wait.queued = some id)
    (hhanded : id ∈ crowd.state.handed) :
    crowd.dropEnter handle wait = give { crowd with
      state := { crowd.state with handed := crowd.state.handed.erase id }
      waits := Function.update crowd.waits handle none } := by
  simp only [dropEnter, Enter.drop, hid, hhanded, if_true, List.append_nil]
  rfl

private theorem told_none (state : GateState W) : crowd.told state none = [] := by
  cases hqueue : state.queue with
  | nil => simp [told, hqueue]
  | cons entry rest => simp [told, hqueue]

theorem dropEnter_queued {handle id : Nat} {wait : Wait W} (hid : wait.queued = some id)
    (hwaits : id ∉ crowd.state.handed) :
    crowd.dropEnter handle wait = { crowd with
      state := { crowd.state with queue := crowd.state.queue.eraseP (·.1 = id) }
      waits := Function.update crowd.waits handle none
      log := .Left (crowd.ticket id) :: crowd.log } := by
  simp only [dropEnter, Enter.drop, hid, hwaits, if_false, told_none, List.nil_append,
    List.cons_append]

theorem dropEnter_idle {handle : Nat} {wait : Wait W} (hid : wait.queued = none) :
    crowd.dropEnter handle wait =
      { crowd with waits := Function.update crowd.waits handle none } := by
  simp only [dropEnter, Enter.drop, hid, told_none, List.nil_append]

theorem poll_take {handle : Nat} {wait : Wait W} {cx : W} (hid : wait.queued = none)
    (hfree : 0 < crowd.state.free) :
    crowd.poll handle wait cx = { crowd with
      state := { crowd.state with free := crowd.state.free - 1 }
      waits := Function.update crowd.waits handle
        (some { wait with queued := none, task := some (Wakers.task cx) })
      passes := wait.owner :: crowd.passes
      arrived := crowd.arrived + 1
      log := .Granted crowd.arrived :: .First crowd.arrived :: crowd.log } := by
  simp only [poll, Enter.poll, hid, hfree, if_true, List.cons_append, List.nil_append]

theorem poll_queue {handle : Nat} {wait : Wait W} {cx : W} (hid : wait.queued = none)
    (hfull : ¬0 < crowd.state.free) :
    crowd.poll handle wait cx = { crowd with
      state := { crowd.state with
        next := crowd.state.next + 1
        queue := crowd.state.queue ++ [(crowd.state.next, cx)] }
      waits := Function.update crowd.waits handle
        (some { wait with queued := some crowd.state.next, task := some (Wakers.task cx) })
      arrived := crowd.arrived + 1
      ticket := Function.update crowd.ticket crowd.state.next crowd.arrived
      log := .First crowd.arrived :: crowd.log } := by
  simp only [poll, Enter.poll, hid, hfull, if_true, if_false, reduceCtorEq, List.nil_append]

theorem poll_claim {handle id : Nat} {wait : Wait W} {cx : W} (hid : wait.queued = some id)
    (hhanded : id ∈ crowd.state.handed) :
    crowd.poll handle wait cx = { crowd with
      state := { crowd.state with handed := crowd.state.handed.erase id }
      waits := Function.update crowd.waits handle
        (some { wait with queued := none, task := some (Wakers.task cx) })
      passes := wait.owner :: crowd.passes } := by
  simp only [poll, Enter.poll, hid, hhanded, if_true, if_false, reduceCtorEq]

theorem poll_again {handle id : Nat} {wait : Wait W} {cx : W} (hid : wait.queued = some id)
    (hwaits : id ∉ crowd.state.handed) :
    crowd.poll handle wait cx = { crowd with
      state := { crowd.state with queue := rewake id cx crowd.state.queue }
      waits := Function.update crowd.waits handle
        (some { wait with queued := some id, task := some (Wakers.task cx) }) } := by
  simp only [poll, Enter.poll, hid, hwaits, if_false, reduceCtorEq]

/-! Each operation keeps the invariants. -/

/-- The wait at the head of the queue is the next in turn. -/
private theorem Told.next_in_turn {id : Nat} {waker : W} {rest : List (Nat × W)}
    (htold : Told crowd) (hqueued : Queued crowd)
    (hqueue : crowd.state.queue = (id, waker) :: rest) :
    InTurn (.Granted (crowd.ticket id)) crowd.log := by
  have hids : crowd.state.ids = id :: rest.map Prod.fst := by
    rw [GateState.ids, hqueue, List.map_cons]
  have hhead : id ∈ crowd.state.ids := hids ▸ List.mem_cons_self
  have hknown := htold.known id (hqueued.below id (.inl hhead))
  obtain ⟨hgranted, hleft⟩ := htold.waiting id hhead
  refine ⟨(htold.first _).mpr hknown, hgranted, hleft, ?_⟩
  intro earlier hearlier
  rcases htold.served earlier (by omega) with ⟨other, hother, hticket⟩ | hdone
  · have hsorted := hqueued.sorted
    rw [hids] at hsorted hother
    rcases List.mem_cons.mp hother with rfl | hrest
    · omega
    · have hlt := List.rel_of_pairwise_cons hsorted hrest
      have hbelow := hqueued.below other (.inl (hids ▸ hother))
      have hturn := htold.tickets id other hlt hbelow
      omega
  · exact hdone

/-- A place that is given back goes to the first wait in the queue, or becomes free. -/
theorem Sound.give (hsound : Sound 1 crowd) : Sound 0 crowd.give := by
  obtain ⟨hplaces, hqueued, htold⟩ := hsound
  cases hqueue : crowd.state.queue with
  | nil =>
    rw [give_idle hqueue]
    have hsum := hplaces.sum
    exact {
      places := ⟨by dsimp only; omega, fun _ => hqueue⟩
      queued := ⟨hqueued.sorted, hqueued.below, hqueued.apart, hqueued.waits, hqueued.one,
        hqueued.awake, hqueued.unborn⟩
      told := ⟨htold.tickets, htold.known, htold.first, htold.served, htold.waiting, htold.past,
        htold.ordered⟩ }
  | cons entry rest =>
    obtain ⟨id, waker⟩ := entry
    rw [give_next hqueue]
    have hids : crowd.state.ids = id :: rest.map Prod.fst := by
      rw [GateState.ids, hqueue, List.map_cons]
    have hturn := htold.next_in_turn hqueued hqueue
    have hhead : id ∈ crowd.state.ids := hids ▸ List.mem_cons_self
    have hrestMem : ∀ other ∈ rest.map Prod.fst, other ∈ crowd.state.ids :=
      fun other hother => hids ▸ List.mem_cons_of_mem _ hother
    have hsorted := hqueued.sorted
    rw [hids, List.pairwise_cons] at hsorted
    have hsum := hplaces.sum
    refine ⟨⟨?_, ?_⟩, ⟨?_, ?_, ?_, ?_, ?_, ?_, ?_⟩, ⟨?_, ?_, ?_, ?_, ?_, ?_, ?_⟩⟩
    · have hcard := Finset.card_insert_of_notMem (hqueued.apart id hhead)
      dsimp only
      omega
    · intro hfree
      have hnil := hplaces.idle hfree
      rw [hqueue] at hnil
      cases hnil
    · exact hsorted.2
    · rintro other (hother | hother)
      · exact hqueued.below other (.inl (hrestMem other hother))
      · rcases Finset.mem_insert.mp hother with rfl | hhanded
        · exact hqueued.below _ (.inl hhead)
        · exact hqueued.below other (.inr hhanded)
    · intro other hother hmem
      rcases Finset.mem_insert.mp hmem with rfl | hhanded
      · exact absurd (hsorted.1 _ hother) (Nat.lt_irrefl _)
      · exact hqueued.apart other (hrestMem other hother) hhanded
    · intro other
      rw [← hqueued.waits other, hids, Finset.mem_insert, List.mem_cons]
      simp only [GateState.ids]
      tauto
    · exact hqueued.one
    · intro handle wait other waker' hwait hother hmem
      have hold : (other, waker') ∈ crowd.state.queue := hqueue ▸ List.mem_cons_of_mem _ hmem
      exact hqueued.awake handle wait other waker' hwait hother hold
    · exact hqueued.unborn
    · exact htold.tickets
    · exact htold.known
    · intro wait
      simpa using htold.first wait
    · intro wait hwait
      rcases htold.served wait hwait with ⟨other, hother, hticket⟩ | hgranted | hleft
      · rw [hids] at hother
        rcases List.mem_cons.mp hother with rfl | hrest
        · exact .inr (.inl (by simp [hticket]))
        · exact .inl ⟨other, hrest, hticket⟩
      · exact .inr (.inl (by simp [hgranted]))
      · exact .inr (.inr (by simp [hleft]))
    · intro other hother
      obtain ⟨hgranted, hleft⟩ := htold.waiting other (hrestMem other hother)
      have hlater := htold.tickets id other (hsorted.1 other hother)
        (hqueued.below other (.inl (hrestMem other hother)))
      have hne : crowd.ticket other ≠ crowd.ticket id := by omega
      simp [hgranted, hleft, hne]
    · intro wait hwait
      have hcase : wait = crowd.ticket id ∨ .Granted wait ∈ crowd.log ∨ .Left wait ∈ crowd.log := by
        simpa [or_assoc] using hwait
      rcases hcase with rfl | hold
      · exact htold.known id (hqueued.below id (.inl hhead))
      · exact htold.past wait hold
    · exact ⟨trivial, hturn, htold.ordered⟩

section Waits

variable {waits : Nat → Option (Wait W)} {handle : Nat} {wait : Wait W} {new : Option (Wait W)}

/-- A wait under the id is among the waits. -/
private def Under (waits : Nat → Option (Wait W)) (id : Nat) : Prop :=
  ∃ handle wait, waits handle = some wait ∧ wait.queued = some id

private theorem under_update {id : Nat} :
    Under (Function.update waits handle new) id ↔
      (∃ other wait, other ≠ handle ∧ waits other = some wait ∧ wait.queued = some id) ∨
        ∃ wait, new = some wait ∧ wait.queued = some id := by
  constructor
  · rintro ⟨other, wait, hwait, hid⟩
    by_cases hsame : other = handle
    · rw [hsame, Function.update_self] at hwait
      exact .inr ⟨wait, hwait, hid⟩
    · rw [Function.update_of_ne hsame] at hwait
      exact .inl ⟨other, wait, hsame, hwait, hid⟩
  · rintro (⟨other, wait, hne, hwait, hid⟩ | ⟨wait, hnew, hid⟩)
    · exact ⟨other, wait, by rwa [Function.update_of_ne hne], hid⟩
    · exact ⟨handle, wait, by rwa [Function.update_self], hid⟩

/-- A wait that changes takes its id out of the queue, keeps it, or brings a new one in. -/
private theorem Queued.under_change {id : Nat} (hqueued : Queued crowd)
    (hwait : crowd.waits handle = some wait) :
    Under (Function.update crowd.waits handle new) id ↔
      (Under crowd.waits id ∧ wait.queued ≠ some id) ∨
        ∃ wait', new = some wait' ∧ wait'.queued = some id := by
  rw [under_update]
  refine or_congr_left ⟨?_, ?_⟩
  · rintro ⟨other, wait', hne, hwait', hid⟩
    refine ⟨⟨other, wait', hwait', hid⟩, ?_⟩
    intro hown
    exact hne (hqueued.one other handle wait' wait id hwait' hwait hid hown)
  · rintro ⟨⟨other, wait', hwait', hid⟩, hne⟩
    refine ⟨other, wait', ?_, hwait', hid⟩
    rintro rfl
    rw [hwait, Option.some.injEq] at hwait'
    exact hne (hwait' ▸ hid)

/-- Ids stay with one wait when a wait takes none but its own or a new one. -/
private theorem Queued.one_change (hqueued : Queued crowd)
    (hnew : ∀ wait' id, new = some wait' → wait'.queued = some id →
      ∀ other found, other ≠ handle → crowd.waits other = some found → found.queued ≠ some id)
    (first other : Nat) (wait wait' : Wait W) (id : Nat)
    (hfirst : Function.update crowd.waits handle new first = some wait)
    (hother : Function.update crowd.waits handle new other = some wait')
    (hid : wait.queued = some id) (hid' : wait'.queued = some id) : first = other := by
  by_cases hone : first = handle
  · by_cases htwo : other = handle
    · rw [hone, htwo]
    · rw [hone, Function.update_self] at hfirst
      rw [Function.update_of_ne htwo] at hother
      exact absurd hid' (hnew wait id hfirst hid other wait' htwo hother)
  · rw [Function.update_of_ne hone] at hfirst
    by_cases htwo : other = handle
    · rw [htwo, Function.update_self] at hother
      exact absurd hid (hnew wait' id hother hid' first wait hone hfirst)
    · rw [Function.update_of_ne htwo] at hother
      exact hqueued.one first other wait wait' id hfirst hother hid hid'

private theorem Queued.unborn_change (hqueued : Queued crowd)
    (hwait : crowd.waits handle = some wait) (other : Nat) (hborn : crowd.entered ≤ other) :
    Function.update crowd.waits handle new other = none := by
  have hnone := hqueued.unborn other hborn
  have hne : other ≠ handle := by
    rintro rfl
    rw [hwait] at hnone
    cases hnone
  rw [Function.update_of_ne hne, hnone]

end Waits

theorem Sound.enter (hsound : Sound 0 crowd) (owner : Nat) : Sound 0 (crowd.enter owner) := by
  obtain ⟨hplaces, hqueued, htold⟩ := hsound
  have hfresh := hqueued.unborn crowd.entered (Nat.le_refl _)
  have hold : ∀ handle wait id,
      Function.update crowd.waits crowd.entered (some ⟨owner, none, none⟩) handle = some wait →
      wait.queued = some id → crowd.waits handle = some wait := by
    intro handle wait id hwait hid
    by_cases hsame : handle = crowd.entered
    · rw [hsame, Function.update_self, Option.some.injEq] at hwait
      rw [← hwait] at hid
      cases hid
    · rwa [Function.update_of_ne hsame] at hwait
  refine ⟨⟨hplaces.sum, hplaces.idle⟩, ⟨hqueued.sorted, hqueued.below, hqueued.apart, ?_, ?_, ?_,
    ?_⟩, ⟨htold.tickets, htold.known, htold.first, htold.served, htold.waiting, htold.past,
    htold.ordered⟩⟩
  · intro id
    refine (hqueued.waits id).trans ⟨?_, ?_⟩
    · rintro ⟨handle, wait, hwait, hid⟩
      refine ⟨handle, wait, ?_, hid⟩
      have hne : handle ≠ crowd.entered := by
        rintro rfl
        rw [hfresh] at hwait
        cases hwait
      exact (Function.update_of_ne hne ..).trans hwait
    · rintro ⟨handle, wait, hwait, hid⟩
      exact ⟨handle, wait, hold handle wait id hwait hid, hid⟩
  · intro handle other wait wait' id hwait hwait' hid hid'
    exact hqueued.one handle other wait wait' id (hold _ _ id hwait hid) (hold _ _ id hwait' hid')
      hid hid'
  · intro handle wait id waker hwait hid
    exact hqueued.awake handle wait id waker (hold _ _ id hwait hid) hid
  · intro handle hborn
    have hlt : crowd.entered < handle := hborn
    exact (Function.update_of_ne (by omega) ..).trans (hqueued.unborn handle (by omega))

/-- A wait that takes the place it was handed, or is dropped then, is under no id any more. -/
private theorem Queued.waits_without {handle id : Nat} {wait : Wait W} {new : Option (Wait W)}
    (hqueued : Queued crowd) (hwait : crowd.waits handle = some wait) (hid : wait.queued = some id)
    (hhanded : id ∈ crowd.state.handed) (hnew : ∀ wait', new = some wait' → wait'.queued = none)
    (other : Nat) :
    other ∈ crowd.state.ids ∨ other ∈ crowd.state.handed.erase id ↔
      Under (Function.update crowd.waits handle new) other := by
  rw [hqueued.under_change hwait, Under, ← hqueued.waits other, Finset.mem_erase, hid]
  have hgone : ¬∃ wait', new = some wait' ∧ wait'.queued = some other := by
    rintro ⟨wait', hsome, hother⟩
    rw [hnew wait' hsome] at hother
    cases hother
  simp only [hgone, or_false, ne_eq, Option.some.injEq]
  constructor
  · rintro (hmem | ⟨hne, hmem⟩)
    · exact ⟨.inl hmem, fun heq => hqueued.apart other hmem (heq ▸ hhanded)⟩
    · exact ⟨.inr hmem, fun heq => hne heq.symm⟩
  · rintro ⟨hmem | hmem, hne⟩
    · exact .inl hmem
    · exact .inr ⟨fun heq => hne heq.symm, hmem⟩

/-- Two waits in the queue were polled first at different moments. -/
private theorem Told.ticket_ne {id other : Nat} (htold : Told crowd) (hqueued : Queued crowd)
    (hid : id ∈ crowd.state.ids) (hother : other ∈ crowd.state.ids) (hne : id ≠ other) :
    crowd.ticket id ≠ crowd.ticket other := by
  have hbelow := hqueued.below id (.inl hid)
  have hbelow' := hqueued.below other (.inl hother)
  rcases Nat.lt_or_gt_of_ne hne with hlt | hgt
  · have hturn := htold.tickets id other hlt hbelow'
    omega
  · have hturn := htold.tickets other id hgt hbelow
    omega

section Poll

variable {handle : Nat} {wait : Wait W} {cx : W}

/-- A free place is taken by a first poll: nobody waits, so everybody before was served. -/
theorem Sound.take (hsound : Sound 0 crowd) (hwait : crowd.waits handle = some wait)
    (hid : wait.queued = none) (hfree : 0 < crowd.state.free) :
    Sound 0 (crowd.poll handle wait cx) := by
  obtain ⟨hplaces, hqueued, htold⟩ := hsound
  rw [poll_take hid hfree]
  have hsum := hplaces.sum
  have hnone : crowd.state.ids = [] := by
    rw [GateState.ids, hplaces.idle hfree, List.map_nil]
  have hserved : ∀ earlier < crowd.arrived,
      .Granted earlier ∈ crowd.log ∨ .Left earlier ∈ crowd.log := by
    intro earlier hearlier
    rcases htold.served earlier hearlier with ⟨id, hmem, -⟩ | hdone
    · rw [hnone] at hmem
      cases hmem
    · exact hdone
  refine ⟨⟨?_, fun _ => hplaces.idle hfree⟩, ⟨hqueued.sorted, hqueued.below, hqueued.apart, ?_,
    ?_, ?_, ?_⟩, ⟨htold.tickets, ?_, ?_, ?_, ?_, ?_, ?_⟩⟩
  · simp only [List.length_cons]
    omega
  · intro id
    refine (hqueued.waits id).trans (Iff.symm ((hqueued.under_change hwait).trans ?_))
    simp [hid, Under]
  · exact hqueued.one_change fun wait' id hnew hid' => by cases hnew; cases hid'
  · intro other wait' id waker hwait' hid' hmem
    rw [hplaces.idle hfree] at hmem
    cases hmem
  · exact hqueued.unborn_change hwait
  · intro id hbelow
    have hknown := htold.known id hbelow
    dsimp only
    omega
  · intro earlier
    have hfirst := htold.first earlier
    simp only [List.mem_cons, reduceCtorEq, Notice.First.injEq, false_or, hfirst]
    omega
  · intro earlier hearlier
    by_cases hlast : earlier = crowd.arrived
    · exact .inr (.inl (by simp [hlast]))
    · rcases hserved earlier (by dsimp only at hearlier; omega) with hgranted | hleft
      · exact .inr (.inl (by simp [hgranted]))
      · exact .inr (.inr (by simp [hleft]))
  · intro id hmem
    have hmem' : id ∈ crowd.state.ids := hmem
    rw [hnone] at hmem'
    cases hmem'
  · intro earlier hearlier
    have hcase : earlier = crowd.arrived ∨ .Granted earlier ∈ crowd.log ∨
        .Left earlier ∈ crowd.log := by
      simpa [or_assoc] using hearlier
    dsimp only
    rcases hcase with rfl | hold
    · omega
    · have hpast := htold.past earlier hold
      omega
  · have hfirst := htold.first crowd.arrived
    have hpast := htold.past crowd.arrived
    refine ⟨⟨List.mem_cons_self, ?_, ?_, ?_⟩, ⟨?_, ?_⟩, htold.ordered⟩
    · simp only [List.mem_cons, reduceCtorEq, false_or]
      exact fun hmem => absurd (hpast (.inl hmem)) (Nat.lt_irrefl _)
    · simp only [List.mem_cons, reduceCtorEq, false_or]
      exact fun hmem => absurd (hpast (.inr hmem)) (Nat.lt_irrefl _)
    · intro earlier hearlier
      simpa using hserved earlier hearlier
    · rw [hfirst]
      exact Nat.lt_irrefl _
    · exact fun earlier hearlier => (htold.first earlier).mpr hearlier

/-- With no free place a first poll queues, behind every wait that was polled before. -/
theorem Sound.queue (hsound : Sound 0 crowd) (hwait : crowd.waits handle = some wait)
    (hid : wait.queued = none) (hfull : ¬0 < crowd.state.free) :
    Sound 0 (crowd.poll handle wait cx) := by
  obtain ⟨hplaces, hqueued, htold⟩ := hsound
  rw [poll_queue hid hfull]
  have hids : ∀ id, id ∈ (crowd.state.queue ++ [(crowd.state.next, cx)]).map Prod.fst ↔
      id ∈ crowd.state.ids ∨ id = crowd.state.next := by
    intro id
    simp [GateState.ids]
  have hold : ∀ id ∈ crowd.state.ids,
      Function.update crowd.ticket crowd.state.next crowd.arrived id = crowd.ticket id := by
    intro id hmem
    have hbelow := hqueued.below id (.inl hmem)
    exact Function.update_of_ne (by omega) ..
  have hunused : ¬Under crowd.waits crowd.state.next := by
    intro hunder
    have hbelow := hqueued.below _ ((hqueued.waits crowd.state.next).mpr hunder)
    omega
  refine ⟨⟨hplaces.sum, fun hfree => absurd hfree hfull⟩, ⟨?_, ?_, ?_, ?_, ?_, ?_, ?_⟩,
    ⟨?_, ?_, ?_, ?_, ?_, ?_, ?_⟩⟩
  · have hlast : ∀ id ∈ crowd.state.ids, id < crowd.state.next :=
      fun id hmem => hqueued.below id (.inl hmem)
    have happend := List.pairwise_append.mpr ⟨hqueued.sorted,
      List.pairwise_singleton (· < ·) crowd.state.next, by simpa using hlast⟩
    simpa [GateState.ids] using happend
  · rintro id (hmem | hmem)
    · rcases (hids id).mp hmem with hmem | rfl
      · exact Nat.lt_succ_of_lt (hqueued.below id (.inl hmem))
      · exact Nat.lt_succ_self _
    · exact Nat.lt_succ_of_lt (hqueued.below id (.inr hmem))
  · intro id hmem hhanded
    rcases (hids id).mp hmem with hmem | rfl
    · exact hqueued.apart id hmem hhanded
    · exact Nat.lt_irrefl _ (hqueued.below _ (.inr hhanded))
  · intro id
    have hwaits := hqueued.waits id
    refine Iff.trans ?_ (hqueued.under_change hwait).symm
    simp only [GateState.ids, hids, Option.some.injEq, exists_eq_left', hid, ne_eq, reduceCtorEq,
      not_false_eq_true, and_true]
    rw [or_right_comm]
    refine (or_congr_left hwaits).trans ?_
    exact or_congr_right ⟨Eq.symm, Eq.symm⟩
  · refine hqueued.one_change fun wait' id hnew hid' other found hne hfound hunder => ?_
    cases hnew
    cases hid'
    exact hunused ⟨other, found, hfound, hunder⟩
  · intro other found id waker hfound hqueuedId hmem
    dsimp only at hfound
    by_cases hsame : other = handle
    · rw [hsame, Function.update_self, Option.some.injEq] at hfound
      subst hfound
      cases hqueuedId
      rcases List.mem_append.mp hmem with hmem | hlast
      · have hbelow := hqueued.below _ (.inl (List.mem_map_of_mem (f := Prod.fst) hmem))
        exact absurd hbelow (Nat.lt_irrefl _)
      · cases List.mem_singleton.mp hlast
        rfl
    · rw [Function.update_of_ne hsame] at hfound
      rcases List.mem_append.mp hmem with hmem | hlast
      · exact hqueued.awake other found id waker hfound hqueuedId hmem
      · cases List.mem_singleton.mp hlast
        exact absurd ⟨other, found, hfound, hqueuedId⟩ hunused
  · exact hqueued.unborn_change hwait
  · intro id other hlt hbelow
    dsimp only at hbelow
    have hid : id < crowd.state.next := by omega
    dsimp only
    rw [Function.update_of_ne (by omega)]
    by_cases hlast : other = crowd.state.next
    · rw [hlast, Function.update_self]
      exact htold.known id hid
    · rw [Function.update_of_ne hlast]
      exact htold.tickets id other hlt (by omega)
  · intro id hbelow
    dsimp only at hbelow ⊢
    by_cases hlast : id = crowd.state.next
    · rw [hlast, Function.update_self]
      omega
    · have hknown := htold.known id (by omega)
      rw [Function.update_of_ne hlast]
      omega
  · intro earlier
    have hfirst := htold.first earlier
    simp only [List.mem_cons, Notice.First.injEq, hfirst]
    omega
  · intro earlier hearlier
    by_cases hlast : earlier = crowd.arrived
    · exact .inl ⟨crowd.state.next, (hids _).mpr (.inr rfl),
        (Function.update_self ..).trans hlast.symm⟩
    · dsimp only at hearlier
      rcases htold.served earlier (by omega) with ⟨id, hmem, hticket⟩ | hdone
      · exact .inl ⟨id, (hids id).mpr (.inl hmem), (hold id hmem).trans hticket⟩
      · exact .inr (by simpa using hdone)
  · intro id hmem
    dsimp only
    rcases (hids id).mp hmem with hmem | rfl
    · rw [hold id hmem]
      simpa using htold.waiting id hmem
    · have hpast := htold.past crowd.arrived
      rw [Function.update_self]
      simp only [List.mem_cons, reduceCtorEq, false_or]
      exact ⟨fun hmem => absurd (hpast (.inl hmem)) (Nat.lt_irrefl _),
        fun hmem => absurd (hpast (.inr hmem)) (Nat.lt_irrefl _)⟩
  · intro earlier hearlier
    have hpast := htold.past earlier (by simpa using hearlier)
    exact Nat.lt_succ_of_lt hpast
  · refine ⟨⟨?_, fun earlier hearlier => (htold.first earlier).mpr hearlier⟩, htold.ordered⟩
    rw [htold.first]
    exact Nat.lt_irrefl _

/-- A wait that finds the place it was handed leaves with its pass. -/
theorem Sound.claim {id : Nat} (hsound : Sound 0 crowd) (hwait : crowd.waits handle = some wait)
    (hid : wait.queued = some id) (hhanded : id ∈ crowd.state.handed) :
    Sound 0 (crowd.poll handle wait cx) := by
  obtain ⟨hplaces, hqueued, htold⟩ := hsound
  rw [poll_claim hid hhanded]
  have hsum := hplaces.sum
  have hcard := Finset.card_erase_of_mem hhanded
  have hpos := Finset.card_pos.mpr ⟨id, hhanded⟩
  refine ⟨⟨?_, hplaces.idle⟩, ⟨hqueued.sorted, ?_, ?_, ?_, ?_, ?_, ?_⟩, ⟨htold.tickets,
    htold.known, htold.first, htold.served, htold.waiting, htold.past, htold.ordered⟩⟩
  · simp only [List.length_cons]
    omega
  · rintro other (hmem | hmem)
    · exact hqueued.below other (.inl hmem)
    · exact hqueued.below other (.inr (Finset.mem_of_mem_erase hmem))
  · intro other hmem hleft
    exact hqueued.apart other hmem (Finset.mem_of_mem_erase hleft)
  · exact hqueued.waits_without hwait hid hhanded (fun wait' hnew => by cases hnew; rfl)
  · exact hqueued.one_change fun wait' other hnew hid' => by cases hnew; cases hid'
  · intro other found id' waker hfound hunder hmem
    dsimp only at hfound
    by_cases hsame : other = handle
    · rw [hsame, Function.update_self, Option.some.injEq] at hfound
      subst hfound
      cases hunder
    · rw [Function.update_of_ne hsame] at hfound
      exact hqueued.awake other found id' waker hfound hunder hmem
  · exact hqueued.unborn_change hwait

/-- A wait polled in the queue stays at its place there. -/
theorem Sound.again {id : Nat} (hsound : Sound 0 crowd) (hwait : crowd.waits handle = some wait)
    (hid : wait.queued = some id) (hwaits : id ∉ crowd.state.handed) :
    Sound 0 (crowd.poll handle wait cx) := by
  obtain ⟨hplaces, hqueued, htold⟩ := hsound
  rw [poll_again hid hwaits]
  have hids : (rewake id cx crowd.state.queue).map Prod.fst = crowd.state.ids := rewake_ids
  have hnodup : (crowd.state.queue.map Prod.fst).Nodup :=
    hqueued.sorted.imp fun hlt => Nat.ne_of_lt hlt
  refine ⟨⟨hplaces.sum, ?_⟩, ⟨?_, ?_, ?_, ?_, ?_, ?_, ?_⟩, ⟨htold.tickets, htold.known,
    htold.first, ?_, ?_, htold.past, htold.ordered⟩⟩
  · intro hfree
    rw [hplaces.idle hfree]
    rfl
  · rw [GateState.ids, hids]
    exact hqueued.sorted
  · rw [GateState.ids, hids]
    exact hqueued.below
  · rw [GateState.ids, hids]
    exact hqueued.apart
  · intro other
    rw [GateState.ids, hids]
    refine (hqueued.waits other).trans (Iff.symm ((hqueued.under_change hwait).trans ?_))
    simp only [Option.some.injEq, exists_eq_left', hid, ne_eq]
    constructor
    · rintro (⟨hunder, -⟩ | rfl)
      · exact hunder
      · exact ⟨handle, wait, hwait, hid⟩
    · intro hunder
      by_cases hsame : id = other
      · exact .inr hsame
      · exact .inl ⟨hunder, hsame⟩
  · refine hqueued.one_change fun wait' other hnew hid' third found hne hfound hunder => ?_
    cases hnew
    cases hid'
    exact hne (hqueued.one third handle found wait id hfound hwait hunder hid)
  · intro other found id' waker hfound hunder hmem
    dsimp only at hfound
    by_cases hsame : other = handle
    · rw [hsame, Function.update_self, Option.some.injEq] at hfound
      subst hfound
      cases hunder
      exact congrArg some (rewake_own hnodup hmem).symm
    · rw [Function.update_of_ne hsame] at hfound
      have hne : id' ≠ id := by
        rintro rfl
        exact hsame (hqueued.one other handle found wait id' hfound hwait hunder hid)
      exact hqueued.awake other found id' waker hfound hunder (rewake_other hne hmem)
  · exact hqueued.unborn_change hwait
  · rw [GateState.ids, hids]
    exact htold.served
  · rw [GateState.ids, hids]
    exact htold.waiting

end Poll

section Drop

variable {handle : Nat} {wait : Wait W}

private theorem Queued.awake_gone (hqueued : Queued crowd) (other : Nat) (found : Wait W) (id : Nat)
    (waker : W) (hfound : Function.update crowd.waits handle none other = some found)
    (hunder : found.queued = some id) (hmem : (id, waker) ∈ crowd.state.queue) :
    found.task = some (Wakers.task waker) := by
  by_cases hsame : other = handle
  · rw [hsame, Function.update_self] at hfound
    cases hfound
  · rw [Function.update_of_ne hsame] at hfound
    exact hqueued.awake other found id waker hfound hunder hmem

/-- A wait that is not queued leaves nothing behind. -/
theorem Sound.drop_idle (hsound : Sound 0 crowd) (hwait : crowd.waits handle = some wait)
    (hid : wait.queued = none) : Sound 0 (crowd.dropEnter handle wait) := by
  obtain ⟨hplaces, hqueued, htold⟩ := hsound
  rw [dropEnter_idle hid]
  refine ⟨⟨hplaces.sum, hplaces.idle⟩, ⟨hqueued.sorted, hqueued.below, hqueued.apart, ?_, ?_,
    hqueued.awake_gone, ?_⟩, ⟨htold.tickets, htold.known, htold.first, htold.served,
    htold.waiting, htold.past, htold.ordered⟩⟩
  · intro id
    refine (hqueued.waits id).trans (Iff.symm ((hqueued.under_change hwait).trans ?_))
    simp [hid, Under]
  · exact hqueued.one_change fun wait' id hnew => by cases hnew
  · exact hqueued.unborn_change hwait

/-- The place of a wait that was handed one is given back when the wait is dropped. -/
theorem Sound.drop_handed {id : Nat} (hsound : Sound 0 crowd)
    (hwait : crowd.waits handle = some wait) (hid : wait.queued = some id)
    (hhanded : id ∈ crowd.state.handed) : Sound 0 (crowd.dropEnter handle wait) := by
  obtain ⟨hplaces, hqueued, htold⟩ := hsound
  rw [dropEnter_handed hid hhanded]
  have hsum := hplaces.sum
  have hcard := Finset.card_erase_of_mem hhanded
  have hpos := Finset.card_pos.mpr ⟨id, hhanded⟩
  apply Sound.give
  refine ⟨⟨?_, hplaces.idle⟩, ⟨hqueued.sorted, ?_, ?_, ?_, ?_, hqueued.awake_gone, ?_⟩,
    ⟨htold.tickets, htold.known, htold.first, htold.served, htold.waiting, htold.past,
    htold.ordered⟩⟩
  · dsimp only
    omega
  · rintro other (hmem | hmem)
    · exact hqueued.below other (.inl hmem)
    · exact hqueued.below other (.inr (Finset.mem_of_mem_erase hmem))
  · intro other hmem hleft
    exact hqueued.apart other hmem (Finset.mem_of_mem_erase hleft)
  · exact hqueued.waits_without hwait hid hhanded (fun wait' hnew => by cases hnew)
  · exact hqueued.one_change fun wait' other hnew => by cases hnew
  · exact hqueued.unborn_change hwait

/-- A wait dropped in the queue leaves the others there as they were. -/
theorem Sound.drop_queued {id : Nat} (hsound : Sound 0 crowd)
    (hwait : crowd.waits handle = some wait) (hid : wait.queued = some id)
    (hwaits : id ∉ crowd.state.handed) : Sound 0 (crowd.dropEnter handle wait) := by
  obtain ⟨hplaces, hqueued, htold⟩ := hsound
  rw [dropEnter_queued hid hwaits]
  have hnodup : crowd.state.ids.Nodup :=
    hqueued.sorted.imp fun hlt => Nat.ne_of_lt hlt
  have hmap : (crowd.state.queue.eraseP (·.1 = id)).map Prod.fst = crowd.state.ids.erase id :=
    map_fst_eraseP
  have hmem : ∀ other, other ∈ (crowd.state.queue.eraseP (·.1 = id)).map Prod.fst ↔
      other ≠ id ∧ other ∈ crowd.state.ids := by
    intro other
    rw [hmap, hnodup.mem_erase_iff]
  have hown : id ∈ crowd.state.ids := by
    rcases (hqueued.waits id).mpr ⟨handle, wait, hwait, hid⟩ with hmem | hhanded
    · exact hmem
    · exact absurd hhanded hwaits
  refine ⟨⟨hplaces.sum, ?_⟩, ⟨?_, ?_, ?_, ?_, ?_, ?_, ?_⟩, ⟨htold.tickets, htold.known,
    ?_, ?_, ?_, ?_, ?_⟩⟩
  · intro hfree
    simp [hplaces.idle hfree]
  · rw [GateState.ids, hmap]
    exact hqueued.sorted.sublist List.erase_sublist
  · rintro other (hother | hother)
    · exact hqueued.below other (.inl ((hmem other).mp hother).2)
    · exact hqueued.below other (.inr hother)
  · intro other hother
    exact hqueued.apart other ((hmem other).mp hother).2
  · intro other
    have hall := hqueued.waits other
    refine Iff.trans ?_ (hqueued.under_change hwait).symm
    simp only [GateState.ids, hmem, hid, ne_eq, Option.some.injEq, reduceCtorEq, false_and,
      exists_false, or_false]
    rw [Under, ← hall]
    constructor
    · rintro (⟨hne, hother⟩ | hhanded)
      · exact ⟨.inl hother, fun heq => hne heq.symm⟩
      · exact ⟨.inr hhanded, fun heq => hwaits (heq ▸ hhanded)⟩
    · rintro ⟨hother | hhanded, hne⟩
      · exact .inl ⟨fun heq => hne heq.symm, hother⟩
      · exact .inr hhanded
  · exact hqueued.one_change fun wait' other hnew => by cases hnew
  · intro other found id' waker hfound hunder hother
    exact hqueued.awake_gone other found id' waker hfound hunder (List.mem_of_mem_eraseP hother)
  · exact hqueued.unborn_change hwait
  · intro earlier
    simpa using htold.first earlier
  · intro earlier hearlier
    rcases htold.served earlier hearlier with ⟨other, hother, hticket⟩ | hgranted | hleft
    · by_cases hsame : other = id
      · exact .inr (.inr (by simp [← hticket, hsame]))
      · exact .inl ⟨other, (hmem other).mpr ⟨hsame, hother⟩, hticket⟩
    · exact .inr (.inl (by simp [hgranted]))
    · exact .inr (.inr (by simp [hleft]))
  · intro other hother
    obtain ⟨hne, hold⟩ := (hmem other).mp hother
    obtain ⟨hgranted, hleft⟩ := htold.waiting other hold
    have hapart := htold.ticket_ne hqueued hold hown hne
    simp [hgranted, hleft, hapart]
  · intro earlier hearlier
    have hcase : earlier = crowd.ticket id ∨ .Granted earlier ∈ crowd.log ∨
        .Left earlier ∈ crowd.log := by
      simp only [List.mem_cons, reduceCtorEq, Notice.Left.injEq, false_or] at hearlier
      tauto
    rcases hcase with rfl | hold
    · exact htold.known id (hqueued.below id (.inl hown))
    · exact htold.past earlier hold
  · exact ⟨trivial, htold.ordered⟩

/-- The place of a dropped pass is given back. -/
theorem Sound.drop_pass {owner : Nat} (hsound : Sound 0 crowd) (hheld : owner ∈ crowd.passes) :
    Sound 0 (crowd.dropPass owner) := by
  obtain ⟨hplaces, hqueued, htold⟩ := hsound
  rw [dropPass_eq]
  have hsum := hplaces.sum
  have hlength := List.length_erase_of_mem hheld
  have hpos := List.length_pos_of_mem hheld
  apply Sound.give
  refine ⟨⟨?_, hplaces.idle⟩, ⟨hqueued.sorted, hqueued.below, hqueued.apart, hqueued.waits,
    hqueued.one, hqueued.awake, hqueued.unborn⟩, ⟨htold.tickets, htold.known, htold.first,
    htold.served, htold.waiting, htold.past, htold.ordered⟩⟩
  dsimp only
  omega

end Drop

/-- Every operation keeps what holds at the gate. -/
theorem Sound.step {next : Crowd W} {op : GateOp W} (hsound : Sound 0 crowd)
    (hstep : crowd.step op = some next) : Sound 0 next := by
  cases op with
  | Enter owner =>
    cases hstep
    exact hsound.enter owner
  | Poll handle cx =>
    obtain ⟨wait, hwait, rfl⟩ := Option.map_eq_some_iff.mp hstep
    cases hid : wait.queued with
    | none =>
      by_cases hfree : 0 < crowd.state.free
      · exact hsound.take hwait hid hfree
      · exact hsound.queue hwait hid hfree
    | some id =>
      by_cases hhanded : id ∈ crowd.state.handed
      · exact hsound.claim hwait hid hhanded
      · exact hsound.again hwait hid hhanded
  | DropEnter handle =>
    obtain ⟨wait, hwait, rfl⟩ := Option.map_eq_some_iff.mp hstep
    cases hid : wait.queued with
    | none => exact hsound.drop_idle hwait hid
    | some id =>
      by_cases hhanded : id ∈ crowd.state.handed
      · exact hsound.drop_handed hwait hid hhanded
      · exact hsound.drop_queued hwait hid hhanded
  | DropPass owner =>
    simp only [Crowd.step, Option.ite_none_right_eq_some, Option.some.injEq] at hstep
    obtain ⟨hheld, rfl⟩ := hstep
    exact hsound.drop_pass hheld

theorem Sound.run {last : Crowd W} {ops : List (GateOp W)} (hsound : Sound 0 crowd)
    (hrun : crowd.run ops = some last) : Sound 0 last := by
  induction ops generalizing crowd with
  | nil =>
    cases hrun
    exact hsound
  | cons op rest ih =>
    obtain ⟨next, hstep, hrest⟩ := Option.bind_eq_some_iff.mp hrun
    exact ih (hsound.step hstep) hrest

/-- The operation gives a place back: that of a pass, or one handed to a wait that is dropped. -/
def GivesBack (crowd : Crowd W) : GateOp W → Prop
  | .DropPass owner => owner ∈ crowd.passes
  | .DropEnter handle => ∃ wait id, crowd.waits handle = some wait ∧ wait.queued = some id ∧
      id ∈ crowd.state.handed
  | _ => False

/-- The place goes to the first wait in the queue, and the task that polled that wait last is woken;
with nobody in the queue the place is free. -/
def Passed (crowd next : Crowd W) : Prop :=
  match crowd.state.queue with
  | [] => next.state.free = crowd.state.free + 1
  | (id, _) :: rest => next.state.queue = rest ∧ id ∈ next.state.handed ∧
      ∃ handle wait task, next.waits handle = some wait ∧ wait.queued = some id ∧
        wait.task = some task ∧
        next.log = .Woken task :: .Granted (crowd.ticket id) :: crowd.log

/-- What a place given back does, seen from the gate just before: no wait in the queue changed. -/
private theorem Queued.passed {held : Crowd W} (hqueued : Queued crowd)
    (hqueue : held.state.queue = crowd.state.queue) (hfree : held.state.free = crowd.state.free)
    (hticket : held.ticket = crowd.ticket) (hlog : held.log = crowd.log)
    (hwaits : ∀ id ∈ crowd.state.ids, ∀ handle wait, crowd.waits handle = some wait →
      wait.queued = some id → held.waits handle = some wait) : crowd.Passed held.give := by
  rw [Passed]
  cases hcase : crowd.state.queue with
  | nil =>
    rw [give_idle (hqueue.trans hcase)]
    exact congrArg (· + 1) hfree
  | cons entry rest =>
    obtain ⟨id, waker⟩ := entry
    have hids : id ∈ crowd.state.ids := by
      rw [GateState.ids, hcase]
      exact List.mem_cons_self
    have hhead : (id, waker) ∈ crowd.state.queue := by
      rw [hcase]
      exact List.mem_cons_self
    obtain ⟨handle, wait, hwait, hid⟩ := (hqueued.waits id).mp (.inl hids)
    have htask := hqueued.awake handle wait id waker hwait hid hhead
    rw [give_next (hqueue.trans hcase)]
    refine ⟨rfl, Finset.mem_insert_self .., handle, wait, Wakers.task waker,
      hwaits id hids handle wait hwait hid, hid, htask, ?_⟩
    rw [hticket, hlog]

/-- A place given back is never lost. -/
theorem Sound.gives_back {next : Crowd W} {op : GateOp W} (hsound : Sound 0 crowd)
    (hstep : crowd.step op = some next) (hgives : crowd.GivesBack op) : crowd.Passed next := by
  cases op with
  | Enter owner => exact hgives.elim
  | Poll handle cx => exact hgives.elim
  | DropEnter handle =>
    obtain ⟨wait, id, hwait, hid, hhanded⟩ := hgives
    obtain ⟨found, hfound, rfl⟩ := Option.map_eq_some_iff.mp hstep
    rw [hwait, Option.some.injEq] at hfound
    subst hfound
    rw [dropEnter_handed hid hhanded]
    refine hsound.queued.passed rfl rfl rfl rfl ?_
    intro other hother handle' wait' hwait' hid'
    have hne : handle' ≠ handle := by
      rintro rfl
      rw [hwait, Option.some.injEq] at hwait'
      rw [← hwait', hid, Option.some.injEq] at hid'
      exact hsound.queued.apart other hother (hid' ▸ hhanded)
    exact (Function.update_of_ne hne ..).trans hwait'
  | DropPass owner =>
    simp only [Crowd.step, Option.ite_none_right_eq_some, Option.some.injEq] at hstep
    obtain ⟨-, rfl⟩ := hstep
    rw [dropPass_eq]
    exact hsound.queued.passed rfl rfl rfl rfl fun _ _ _ _ hwait _ => hwait

/-- What a poll gives its wait.  It is ready with a place that is free at its first poll, or with the
place that it was handed: the place is its pass then, and it is under no id.  Otherwise it waits:
under the id that it has, or from its first poll on under a new one at the end of the queue. -/
structure Polled (crowd next : Crowd W) (handle : Nat) (wait : Wait W) (polled : Poll Unit) :
    Prop where
  ready : polled = .Ready () ↔ wait.queued = none ∧ 0 < crowd.state.free ∨
    ∃ id ∈ crowd.state.handed, wait.queued = some id
  passed : polled = .Ready () → next.passes = wait.owner :: crowd.passes ∧
    next.state.handed = (wait.queued.elim crowd.state.handed crowd.state.handed.erase) ∧
    next.state.ids = crowd.state.ids ∧
    ∃ done, next.waits handle = some done ∧ done.queued = none
  waits : polled = .Pending → next.passes = crowd.passes ∧
    next.state.handed = crowd.state.handed ∧ next.state.free = crowd.state.free ∧
    ∃ id later, next.waits handle = some later ∧ later.queued = some id ∧
      next.state.ids = crowd.state.ids ++ wait.queued.elim [id] fun _ => []

/-- The poll of a wait that was handed a place gives it a pass. -/
theorem polled_of_step {next : Crowd W} {handle : Nat} {wait : Wait W} {cx : W}
    (hwait : crowd.waits handle = some wait) (hstep : crowd.step (.Poll handle cx) = some next) :
    crowd.Polled next handle wait (Enter.poll wait.queued cx crowd.state).2.2 := by
  obtain ⟨found, hfound, rfl⟩ := Option.map_eq_some_iff.mp hstep
  rw [hwait, Option.some.injEq] at hfound
  subst hfound
  cases hid : wait.queued with
  | none =>
    by_cases hfree : 0 < crowd.state.free
    · rw [poll_take hid hfree]
      refine ⟨?_, fun _ => ⟨rfl, ?_, rfl, _, Function.update_self .., rfl⟩, fun hpending => ?_⟩
      · simp [Enter.poll, hid, hfree]
      · rw [hid]
        rfl
      · simp [Enter.poll, hfree] at hpending
    · rw [poll_queue hid hfree]
      refine ⟨?_, fun hready => ?_, fun _ =>
        ⟨rfl, rfl, rfl, crowd.state.next, _, Function.update_self .., rfl, ?_⟩⟩
      · simp [Enter.poll, hid, hfree]
      · simp [Enter.poll, hfree] at hready
      · rw [hid, GateState.ids, List.map_append]
        rfl
  | some id =>
    by_cases hhanded : id ∈ crowd.state.handed
    · rw [poll_claim hid hhanded]
      refine ⟨?_, fun _ => ⟨rfl, ?_, rfl, _, Function.update_self .., rfl⟩, fun hpending => ?_⟩
      · simp [Enter.poll, hid, hhanded]
      · rw [hid]
        rfl
      · simp [Enter.poll, hhanded] at hpending
    · rw [poll_again hid hhanded]
      refine ⟨?_, fun hready => ?_, fun _ =>
        ⟨rfl, rfl, rfl, id, _, Function.update_self .., rfl, ?_⟩⟩
      · simp [Enter.poll, hid, hhanded]
      · simp [Enter.poll, hhanded] at hready
      · rw [hid, GateState.ids, rewake_ids, GateState.ids]
        exact (List.append_nil _).symm

/-! What an operation leaves as it was. -/

private theorem poll_width {handle : Nat} {wait : Wait W} {cx : W} :
    (crowd.poll handle wait cx).width = crowd.width := by
  rw [poll]
  by_cases hfirst : wait.queued = none
  · simp only [hfirst, if_true]
  · simp only [hfirst, if_false]

theorem step_width {next : Crowd W} {op : GateOp W} (hstep : crowd.step op = some next) :
    next.width = crowd.width := by
  cases op with
  | Enter owner =>
    cases hstep
    rfl
  | Poll handle cx =>
    obtain ⟨wait, -, rfl⟩ := Option.map_eq_some_iff.mp hstep
    exact poll_width
  | DropEnter handle =>
    obtain ⟨wait, -, rfl⟩ := Option.map_eq_some_iff.mp hstep
    rfl
  | DropPass owner =>
    simp only [Crowd.step, Option.ite_none_right_eq_some, Option.some.injEq] at hstep
    obtain ⟨-, rfl⟩ := hstep
    rfl

theorem run_width {last : Crowd W} {ops : List (GateOp W)} (hrun : crowd.run ops = some last) :
    last.width = crowd.width := by
  induction ops generalizing crowd with
  | nil =>
    cases hrun
    rfl
  | cons op rest ih =>
    obtain ⟨next, hstep, hrest⟩ := Option.bind_eq_some_iff.mp hrun
    rw [ih hrest, step_width hstep]

/-- The lease in whose name an operation is done, when what it is done to is there. -/
def ownerOf (crowd : Crowd W) : GateOp W → Option Nat
  | .Enter owner => some owner
  | .Poll handle _ => (crowd.waits handle).map Wait.owner
  | .DropEnter handle => (crowd.waits handle).map Wait.owner
  | .DropPass owner => some owner

/-- The owner of each wait and of each pass satisfies `P`. -/
structure Owned (P : Nat → Prop) (crowd : Crowd W) : Prop where
  waits : ∀ handle wait, crowd.waits handle = some wait → P wait.owner
  passes : ∀ owner ∈ crowd.passes, P owner

theorem poll_passes {handle : Nat} {wait : Wait W} {cx : W} :
    ∀ owner ∈ (crowd.poll handle wait cx).passes, owner = wait.owner ∨ owner ∈ crowd.passes := by
  intro owner hmem
  have hpasses : (crowd.poll handle wait cx).passes =
      if (Enter.poll wait.queued cx crowd.state).2.2 = .Ready () then wait.owner :: crowd.passes
      else crowd.passes := by
    rw [poll]
    by_cases hfirst : wait.queued = none
    · simp only [hfirst, if_true]
    · simp only [hfirst, if_false]
  rw [hpasses] at hmem
  split at hmem
  · exact List.mem_cons.mp hmem
  · exact .inr hmem

theorem poll_waits {handle : Nat} {wait : Wait W} {cx : W} :
    (crowd.poll handle wait cx).waits = Function.update crowd.waits handle
      (some ⟨wait.owner, (Enter.poll wait.queued cx crowd.state).2.1, some (Wakers.task cx)⟩) := by
  rw [poll]
  by_cases hfirst : wait.queued = none
  · simp only [hfirst, if_true]
  · simp only [hfirst, if_false]

/-- What comes to be at a gate is owned by the lease that uses it. -/
theorem Owned.step {P : Nat → Prop} {next : Crowd W} {op : GateOp W} {owner : Nat}
    (howned : Owned P crowd) (howner : crowd.ownerOf op = some owner) (hown : P owner)
    (hstep : crowd.step op = some next) : Owned P next := by
  have hgone : ∀ handle : Nat, ∀ other wait,
      Function.update crowd.waits handle none other = some wait → P wait.owner := by
    intro handle other wait hwait
    by_cases hsame : other = handle
    · rw [hsame, Function.update_self] at hwait
      cases hwait
    · rw [Function.update_of_ne hsame] at hwait
      exact howned.waits other wait hwait
  cases op with
  | Enter entering =>
    cases hstep
    cases howner
    refine ⟨?_, howned.passes⟩
    intro other wait hwait
    dsimp only [enter] at hwait
    by_cases hsame : other = crowd.entered
    · rw [hsame, Function.update_self, Option.some.injEq] at hwait
      exact hwait ▸ hown
    · rw [Function.update_of_ne hsame] at hwait
      exact howned.waits other wait hwait
  | Poll handle cx =>
    obtain ⟨wait, hwait, rfl⟩ := Option.map_eq_some_iff.mp hstep
    have hmine := howned.waits handle wait hwait
    refine ⟨?_, ?_⟩
    · intro other found hfound
      rw [poll_waits] at hfound
      by_cases hsame : other = handle
      · rw [hsame, Function.update_self, Option.some.injEq] at hfound
        exact hfound ▸ hmine
      · rw [Function.update_of_ne hsame] at hfound
        exact howned.waits other found hfound
    · intro other hmem
      rcases poll_passes other hmem with rfl | hold
      · exact hmine
      · exact howned.passes other hold
  | DropEnter handle =>
    obtain ⟨wait, -, rfl⟩ := Option.map_eq_some_iff.mp hstep
    exact ⟨hgone handle, howned.passes⟩
  | DropPass dropped =>
    simp only [Crowd.step, Option.ite_none_right_eq_some, Option.some.injEq] at hstep
    obtain ⟨-, rfl⟩ := hstep
    exact ⟨howned.waits, fun other hmem => howned.passes other (List.mem_of_mem_erase hmem)⟩

theorem Owned.imp {P Q : Nat → Prop} (howned : Owned P crowd)
    (hweaker : ∀ owner, P owner → Q owner) : Owned Q crowd :=
  ⟨fun handle wait hwait => hweaker _ (howned.waits handle wait hwait),
    fun owner hmem => hweaker _ (howned.passes owner hmem)⟩

end Crowd

end LlmGraph.React
