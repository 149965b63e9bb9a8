/- digest: A forest of cancellation tokens: triggers that walk down a subtree one lock at a time,
   children, waiters, and the references that keep a token alive. -/

import Mathlib.Logic.Function.Basic
import Mathlib.Logic.Relation
import LlmGraph.Contract.Instance

set_option autoImplicit false
set_option relaxedAutoImplicit false

namespace LlmGraph.Contract.Cancel

/-- A token, by the order of its making. -/
abbrev Id := Nat

def pruneSlack : Nat := 16

/-- The greatest `usize`. -/
def usizeMax : Nat := 2 ^ 64 - 1

def saturatingAdd (left right : Nat) : Nat := min (left + right) usizeMax

def saturatingMul (left right : Nat) : Nat := min (left * right) usizeMax

/-- What the lock of a token guards; the children are weak references. -/
structure Inner where
  triggered : Bool
  waiters : Waiters
  children : List Id

/-- A token.  `held` counts the references in the handles and views of the program, and `origin`
is the token whose child it was made as: neither is read by an operation on tokens. -/
structure Shared where
  triggered : Bool
  liveChildren : UInt64
  parent : Option Id
  inner : Inner
  held : Nat
  origin : Option Id

namespace Shared

def build (triggered : Bool) (parent : Option Id) : Shared where
  triggered := triggered
  liveChildren := 0
  parent := parent
  inner := ⟨triggered, .empty, []⟩
  held := 0
  origin := none

/-- `CancelToken::from_shared`: a handle and a view. -/
def fromShared (shared : Shared) : Shared := { shared with held := 2 }

end Shared

/-- A future that waits for its token; the key is the one its waker is registered under. -/
structure Triggered where
  shared : Id
  key : Option Nat

/-- A call of `trigger` on its way: the tokens it has still to fire, the one it has just fired, of
whose children the weak references are still to be upgraded, and the wakers it has drained. -/
structure Call where
  target : Id
  pending : List Id
  fired : Option Id
  children : List Id
  wakers : List Waker
  returned : Bool

/-- A reference about to be let go, or a token whose last reference is gone. -/
inductive Drop where
  | Reference (token : Id)
  | Token (token : Id)
  deriving DecidableEq

structure Forest where
  next : Id
  token : Id → Shared
  futures : List Triggered
  started : Nat
  call : Nat → Call
  dropping : List Drop
  woken : List Waker

/-- A step of the program, or of a call or a drop on its way. -/
inductive Action where
  | New
  | Clone (token : Id)
  | DropHandle (token : Id)
  | Child (token : Id)
  | Triggered (token : Id)
  | Poll (future : Nat) (waker : Waker)
  | DropFuture (future : Nat)
  | Trigger (token : Id)
  | Walk (call : Nat)
  | LetGo (drop : Nat)

namespace Call

def start (target : Id) : Call := ⟨target, [target], none, [], [], false⟩

/-- The call holds a reference to the token. -/
def Holds (call : Call) (id : Id) : Prop := id ∈ call.pending ∨ call.fired = some id

instance (call : Call) (id : Id) : Decidable (call.Holds id) :=
  inferInstanceAs (Decidable (_ ∨ _))

end Call

namespace Forest

def empty : Forest where
  next := 0
  token := fun _ => .build false none
  futures := []
  started := 0
  call := fun _ => .start 0
  dropping := []
  woken := []

/-- There is a strong reference to the token, of the program, a child, a future, a call of
`trigger` or a drop on its way. -/
def Live (forest : Forest) (id : Id) : Prop :=
  0 < (forest.token id).held ∨ (∃ child < forest.next, (forest.token child).parent = some id) ∨
    (∃ future ∈ forest.futures, future.shared = id) ∨
    (∃ index < forest.started, (forest.call index).Holds id) ∨ .Reference id ∈ forest.dropping

instance (forest : Forest) (id : Id) : Decidable (forest.Live id) :=
  inferInstanceAs (Decidable (_ ∨ _))

def set (forest : Forest) (id : Id) (shared : Shared) : Forest :=
  { forest with token := Function.update forest.token id shared }

def setCall (forest : Forest) (index : Nat) (call : Call) : Forest :=
  { forest with call := Function.update forest.call index call }

/-- A new token takes the next place. -/
def grow (forest : Forest) (shared : Shared) : Forest :=
  { forest.set forest.next shared.fromShared with next := forest.next + 1 }

section Places

variable (forest : Forest) (id other : Id) (shared : Shared) (index : Nat) (call : Call)

theorem set_token : (forest.set id shared).token other =
    if other = id then shared else forest.token other :=
  Function.update_apply forest.token id shared other

theorem setCall_call (other : Nat) : (forest.setCall index call).call other =
    if other = index then call else forest.call other :=
  Function.update_apply forest.call index call other

theorem grow_token : (forest.grow shared).token other =
    if other = forest.next then shared.fromShared else forest.token other :=
  Function.update_apply forest.token forest.next shared.fromShared other

@[simp] theorem set_next : (forest.set id shared).next = forest.next := rfl

@[simp] theorem set_futures : (forest.set id shared).futures = forest.futures := rfl

@[simp] theorem set_dropping : (forest.set id shared).dropping = forest.dropping := rfl

@[simp] theorem set_started : (forest.set id shared).started = forest.started := rfl

@[simp] theorem set_call : (forest.set id shared).call = forest.call := rfl

@[simp] theorem setCall_token : (forest.setCall index call).token = forest.token := rfl

@[simp] theorem setCall_next : (forest.setCall index call).next = forest.next := rfl

@[simp] theorem setCall_futures : (forest.setCall index call).futures = forest.futures := rfl

@[simp] theorem setCall_dropping : (forest.setCall index call).dropping = forest.dropping := rfl

@[simp] theorem setCall_started : (forest.setCall index call).started = forest.started := rfl

@[simp] theorem grow_next : (forest.grow shared).next = forest.next + 1 := rfl

@[simp] theorem grow_futures : (forest.grow shared).futures = forest.futures := rfl

@[simp] theorem grow_dropping : (forest.grow shared).dropping = forest.dropping := rfl

@[simp] theorem grow_started : (forest.grow shared).started = forest.started := rfl

@[simp] theorem grow_call : (forest.grow shared).call = forest.call := rfl

end Places

/-- The loop of `is_triggered` from a token up to its root. -/
def climb (forest : Forest) : Nat → Id → Bool
  | 0, _ => false
  | fuel + 1, id =>
      if (forest.token id).triggered then true
      else
        match (forest.token id).parent with
        | some parent => forest.climb fuel parent
        | none => false

/-- `is_triggered`: a parent is made before its child, so that the token bounds the loop. -/
def isTriggered (forest : Forest) (id : Id) : Bool := forest.climb (id + 1) id

/-- `fire`: the locked section that marks a token and takes its wakers and its children. -/
def fire (forest : Forest) (id : Id) : Forest × List Waker × List Id :=
  let shared := forest.token id
  if shared.inner.triggered then (forest, [], [])
  else
    let (waiters, wakers) := shared.inner.waiters.drain
    (forest.set id { shared with triggered := true, inner := ⟨true, waiters, []⟩ }, wakers,
      shared.inner.children)

/-- `child`: the locked section that prunes and attaches. -/
def child (forest : Forest) (id : Id) : Forest :=
  let shared := forest.token id
  let inner := shared.inner
  if inner.triggered then forest.grow { Shared.build true none with origin := some id }
  else
    let live := shared.liveChildren
    let children :=
      if saturatingAdd (saturatingMul live.toNat 2) pruneSlack ≤ inner.children.length then
        inner.children.filter fun child => forest.Live child
      else inner.children
    (forest.grow { Shared.build false (some id) with origin := some id }).set id
      { shared with
        liveChildren := live + 1, inner := { inner with children := children ++ [forest.next] } }

/-- `poll_triggered`, whose locked section decides: ready, or registered under the key. -/
def pollTriggered (forest : Forest) (id : Id) (key : Option Nat) (waker : Waker) :
    Forest × Option Nat × Bool :=
  if forest.isTriggered id then (forest, key, true)
  else
    let shared := forest.token id
    let (waiters, key) := shared.inner.waiters.register key waker
    (forest.set id { shared with inner := { shared.inner with waiters } }, some key, false)

def removeWaiter (forest : Forest) (id : Id) (key : Nat) : Forest :=
  let shared := forest.token id
  forest.set id
    { shared with inner := { shared.inner with waiters := shared.inner.waiters.remove key } }

/-- `release_parent`: a token whose last reference is gone takes its reference to its parent. -/
def releaseParent (forest : Forest) (id : Id) : Forest × Option Id :=
  let shared := forest.token id
  match shared.parent with
  | none => (forest, none)
  | some parent =>
      let released := forest.set id { shared with parent := none }
      let above := released.token parent
      (released.set parent { above with liveChildren := above.liveChildren - 1 }, some parent)

/-- The next step of a call of `trigger`. -/
def walk (forest : Forest) (index : Nat) : Option Forest :=
  let call := forest.call index
  if call.returned then none
  else
    match call.fired, call.children with
    | some _, child :: rest =>
        let pending := if forest.Live child then call.pending ++ [child] else call.pending
        some (forest.setCall index { call with pending, children := rest })
    | some fired, [] =>
        some { forest.setCall index { call with fired := none } with
          dropping := forest.dropping ++ [.Reference fired] }
    | none, _ =>
        match call.pending.getLast? with
        | some shared =>
            let (next, fired, children) := forest.fire shared
            some (next.setCall index
              { call with
                pending := call.pending.dropLast
                fired := some shared
                children := children
                wakers := call.wakers ++ fired })
        | none =>
            some { forest.setCall index { call with returned := true } with
              woken := forest.woken ++ call.wakers }

/-- The next step of a drop: the last reference to a token brings down the token, which gives up
its reference to its parent. -/
def letGo (forest : Forest) (index : Nat) : Option Forest :=
  match forest.dropping[index]? with
  | none => none
  | some (.Reference id) =>
      let gone := { forest with dropping := forest.dropping.eraseIdx index }
      if gone.Live id then some gone else some { gone with dropping := gone.dropping ++ [.Token id] }
  | some (.Token id) =>
      let gone := { forest with dropping := forest.dropping.eraseIdx index }
      match gone.releaseParent id with
      | (released, none) => some released
      | (released, some parent) =>
          some { released with dropping := released.dropping ++ [.Reference parent] }

/-- A step is taken by a holder of a reference to the token it is about. -/
def step (forest : Forest) : Action → Option Forest
  | .New => some (forest.grow (.build false none))
  | .Clone id =>
      let shared := forest.token id
      if 0 < shared.held then some (forest.set id { shared with held := shared.held + 1 }) else none
  | .DropHandle id =>
      let shared := forest.token id
      if 0 < shared.held then
        some { forest.set id { shared with held := shared.held - 1 } with
          dropping := forest.dropping ++ [.Reference id] }
      else none
  | .Child id => if 0 < (forest.token id).held then some (forest.child id) else none
  | .Triggered id =>
      if 0 < (forest.token id).held then
        some { forest with futures := forest.futures ++ [⟨id, none⟩] }
      else none
  | .Poll index waker =>
      match forest.futures[index]? with
      | none => none
      | some future =>
          let (next, key, _) := forest.pollTriggered future.shared future.key waker
          some { next with futures := next.futures.set index { future with key } }
  | .DropFuture index =>
      match forest.futures[index]? with
      | none => none
      | some future =>
          let next :=
            match future.key with
            | some key => forest.removeWaiter future.shared key
            | none => forest
          some { next with
            futures := next.futures.eraseIdx index
            dropping := next.dropping ++ [.Reference future.shared] }
  | .Trigger id =>
      if 0 < (forest.token id).held then
        some { forest.setCall forest.started (.start id) with started := forest.started + 1 }
      else none
  | .Walk index => if index < forest.started then forest.walk index else none
  | .LetGo index => forest.letGo index

/-- A step of the forest. -/
def Step (forest next : Forest) : Prop := ∃ action, forest.step action = some next

/-- What some steps lead to. -/
abbrev Steps (forest later : Forest) : Prop := Relation.ReflTransGen Step forest later

/-- A forest that the program can reach. -/
def Reachable (forest : Forest) : Prop := Steps empty forest

/-- The second token is the first, or was made as a child of a descendant of it. -/
def Descends (forest : Forest) (ancestor id : Id) : Prop :=
  Relation.ReflTransGen (fun above below => (forest.token below).origin = some above) ancestor id

end Forest

end LlmGraph.Contract.Cancel
