/- digest: The port to a thread store and what is documented of it, the store of the tests that follows
   it, and the operations that a run makes before it is cut. -/

import LlmGraph.Lib.Acts
import LlmGraph.Lib.Folds
import LlmGraph.React.Threads

set_option autoImplicit false
set_option relaxedAutoImplicit false

namespace LlmGraph.React

open Lib (Act)
open Superstep (GraphError)

/-- The error of a thread store, of the host's type, by its text. -/
abbrev ThreadError := String

/-- The store that an agent works in, the host's port, on the state that the host keeps. -/
structure ThreadStore (C σ : Type) where
  read : ThreadId → σ → Except ThreadError (Option (ThreadView C)) × σ
  write : ThreadId → Write → σ → Except ThreadError Unit × σ

variable {C D σ : Type} [Messages C]

/-- A read shows a thread as it stands. -/
structure ThreadView.Shows (view : ThreadView C) (thread : Thread D) : Prop where
  entries : React.entries view.conversation = thread.entries
  messages : view.messages = thread.shown

/-- The conversation of a view has the entries of the thread. -/
theorem Thread.view_shows (hlawful : Messages.Lawful C)
    (hnew : React.entries (Messages.new : C) = []) {thread : Thread D} {view : ThreadView C}
    (hview : thread.view C = .ok view) : view.Shows thread := by
  have hbuilt : ∀ (messages : List (Message D)) (start last : C),
      messages.foldlM (Message.render C) start = .ok last →
        React.entries last = React.entries start ++ messages.filterMap Message.entry := by
    intro messages
    induction messages with
    | nil =>
      intro start last hfold
      cases hfold
      simp
    | cons message rest hind =>
      intro start last hfold
      obtain ⟨middle, hfirst, hrest⟩ := Lib.foldlM_cons_ok.mp hfold
      have hlater := hind middle last hrest
      unfold Message.render at hfirst
      cases hentry : message.entry with
      | none =>
        rw [hentry] at hfirst
        cases hfirst
        rw [hlater, List.filterMap_cons_none hentry]
      | some entry =>
        rw [hentry] at hfirst
        have hpushed : React.entries middle = React.entries start ++ [entry] := by
          cases entry with
          | UserInput input => exact hlawful.pushInput start middle input hfirst
          | Turn turn => exact hlawful.pushTurn start middle turn hfirst
        rw [hlater, hpushed, List.filterMap_cons_some hentry, List.append_assoc]
        rfl
  unfold Thread.view at hview
  split at hview
  · cases hview
  · rename_i conversation hfold
    cases hview
    refine ⟨?_, rfl⟩
    have hentries := hbuilt thread.messages Messages.new conversation hfold
    rw [hnew, List.nil_append] at hentries
    exact hentries

variable [StepDrafts D]

/-- What is documented of a store: a read shows the thread as it stands and changes nothing; a write that
is answered is done, and one whose answer is an error is done or has written nothing. -/
structure ThreadStore.Documented (store : ThreadStore C σ) (threads : σ → Threads D) : Prop where
  kept : ∀ id host, threads (store.read id host).2 = threads host
  absent : ∀ id host, (store.read id host).1 = .ok none → threads host id = none
  shows : ∀ id host view, (store.read id host).1 = .ok (some view) →
    ∃ thread, threads host id = some thread ∧ view.Shows thread
  done : ∀ id write host, (store.write id write host).1 = .ok () →
    (threads host).write id write = (.ok (), threads (store.write id write host).2)
  refused : ∀ id write host error, (store.write id write host).1 = .error error →
    threads (store.write id write host).2 = threads host ∨
      threads (store.write id write host).2 = ((threads host).write id write).2

/-- The store of the tests: its threads, the calls of each operation so far, and those planned to
fail. -/
structure TestStore (D : Type) where
  threads : Threads D
  calls : Op → Nat
  fails : Op → Nat → Bool

def Write.op : Write → Op
  | create _ => .Create
  | storeInput _ => .StoreInput
  | openTurn _ _ => .OpenTurn
  | pushEvent _ _ => .PushEvent
  | pushResults _ _ _ => .PushResults
  | endTurn _ _ => .EndTurn

namespace TestStore

variable (store : TestStore D)

/-- An operation, counted; one that is planned to fail writes nothing. -/
def run {α : Type} (op : Op) (write : Threads D → Except StoreError α × Threads D) :
    Except ThreadError α × TestStore D :=
  let call := store.calls op + 1
  let counted := { store with calls := Function.update store.calls op call }
  if store.fails op call then (.error (StoreError.Injected op).display, counted)
  else
    let (answer, threads) := write store.threads
    (answer.mapError StoreError.display, { counted with threads := threads })

/-- The thread as it is read, none where the store has none. -/
def readThread (C : Type) [Messages C] (id : ThreadId) (threads : Threads D) :
    Except StoreError (Option (ThreadView C)) × Threads D :=
  match threads id with
  | none => (.ok none, threads)
  | some thread => ((thread.view C).map some, threads)

/-- The store of the tests as the port of an agent. -/
def port (C D : Type) [Messages C] [StepDrafts D] : ThreadStore C (TestStore D) where
  read id store := store.run .Read (readThread C id)
  write id write store := store.run write.op fun threads => threads.write id write

end TestStore

/-- The store of the tests is one as documented. -/
theorem TestStore.documented (hlawful : Messages.Lawful C)
    (hnew : entries (Messages.new : C) = []) :
    (TestStore.port C D).Documented TestStore.threads where
  kept := by
    intro id host
    unfold TestStore.port TestStore.run TestStore.readThread
    dsimp only
    split
    · rfl
    · split <;> rfl
  absent := by
    intro id host habsent
    unfold TestStore.port TestStore.run TestStore.readThread at habsent
    dsimp only at habsent
    split at habsent
    · cases habsent
    · split at habsent
      · assumption
      · rename_i thread hthread
        cases hview : thread.view C with
        | error error =>
          rw [hview] at habsent
          cases habsent
        | ok view =>
          rw [hview] at habsent
          cases habsent
  shows := by
    intro id host view hread
    unfold TestStore.port TestStore.run TestStore.readThread at hread
    dsimp only at hread
    split at hread
    · cases hread
    · split at hread
      · cases hread
      · rename_i thread hthread
        cases hview : thread.view C with
        | error error =>
          rw [hview] at hread
          cases hread
        | ok found =>
          rw [hview] at hread
          cases hread
          exact ⟨thread, hthread, thread.view_shows hlawful hnew hview⟩
  done := by
    intro id write host hdone
    unfold TestStore.port TestStore.run at hdone ⊢
    dsimp only at hdone ⊢
    split at hdone
    · cases hdone
    · rename_i hplanned
      rw [if_neg hplanned]
      cases hanswer : (host.threads.write id write).1 with
      | error error =>
        rw [hanswer] at hdone
        cases hdone
      | ok value =>
        exact Prod.ext hanswer rfl
  refused := by
    intro id write host error hrefused
    unfold TestStore.port TestStore.run
    dsimp only
    split
    · exact .inl rfl
    · exact .inr rfl

/-- Where a run stands with its store: what the host keeps, and the operations that are left to the run
before it is cut. -/
structure Desk (σ : Type) where
  store : σ
  left : Nat

/-- Why a node of a run stops: the run is cut, or the node fails. -/
inductive Halt (C : Type) [Messages C] where
  | Cut
  | Failed (error : GraphError C)

def threadFailed (error : ThreadError) : Halt C := .Failed (.Other s!"thread store error: {error}")

/-- One operation of the store; an error of it fails the node. -/
def ask {α : Type} (operation : σ → Except ThreadError α × σ) : Act (Desk σ) (Halt C) α := fun desk =>
  match desk.left with
  | 0 => (.stop .Cut, desk)
  | left + 1 =>
      match operation desk.store with
      | (.ok value, store) => (.done value, ⟨store, left⟩)
      | (.error error, store) => (.stop (threadFailed error), ⟨store, left⟩)

/-- What the node works out by itself. -/
def known {α : Type} (result : Except (GraphError C) α) : Act (Desk σ) (Halt C) α :=
  Act.ofExcept .Failed result

/-- What is known lets the node go on. -/
theorem known_bind {α β : Type} {result : Except (GraphError C) α} {value : α} (hok : result = .ok value)
    (next : α → Act (Desk σ) (Halt C) β) : (known result >>= next) = next value := by
  rw [hok]
  rfl

/-- The thread id of a text. -/
def ThreadId.new (value : String) : Except (GraphError C) ThreadId :=
  if hvalid : isUuidV7 value = true then .ok ⟨value, hvalid⟩
  else .error (.Other s!"{value.quote} is not a thread id: a UUIDv7 written as its text")

/-- A turn of a thread, as the nodes of a durable agent write it. -/
structure TurnWriter (C σ : Type) where
  store : ThreadStore C σ
  thread : ThreadId
  turn : TurnId

/-- The events of a step of one text block, stopped with a reason, without usage. -/
def textStepEvents (text : String) (stopReason : StopReason) : List StreamEvent :=
  [.BlockStart 0 .Text, .TextDelta 0 text, .BlockEnd 0, .Finish stopReason none]

namespace TurnWriter

variable (writer : TurnWriter C σ)

def write (write : Write) : Act (Desk σ) (Halt C) Unit := ask (writer.store.write writer.thread write)

def openTurn (author : Author) : Act (Desk σ) (Halt C) Unit :=
  writer.write (.openTurn writer.turn author)

def pushEvent (event : StreamEvent) : Act (Desk σ) (Halt C) Unit :=
  writer.write (.pushEvent writer.turn event)

/-- The events of a step, pushed one after the other until the store fails. -/
def pushEvents : List StreamEvent → Act (Desk σ) (Halt C) Unit
  | [] => pure ()
  | event :: rest => do
      writer.pushEvent event
      pushEvents rest

def pushResults (index : Nat) (results : List ToolResult) : Act (Desk σ) (Halt C) Unit :=
  writer.write (.pushResults writer.turn index results)

/-- A step that the library writes itself, streamed as a client would. -/
def pushTextStep (text : String) (stopReason : StopReason) : Act (Desk σ) (Halt C) Unit :=
  writer.pushEvents (textStepEvents text stopReason)

def endTurn (ending : TurnEnd) : Act (Desk σ) (Halt C) Unit :=
  writer.write (.endTurn writer.turn ending)

end TurnWriter

end LlmGraph.React
