/- digest: The threads that a store keeps: their messages with where each stands, steps folded from their
   stream events, the writes that are repeated safely, and the repair of a turn that did not complete. -/

import LlmGraph.React.Helpers

set_option autoImplicit false
set_option relaxedAutoImplicit false

namespace LlmGraph.React

/-- Where the hyphens stand in the text of a thread id. -/
def hyphens : List Nat := [8, 13, 18, 23]

def isHexDigit (letter : Char) : Bool :=
  letter.isDigit || ('a' ≤ letter && letter ≤ 'f') || ('A' ≤ letter && letter ≤ 'F')

/-- The hyphenated text of a UUID of version 7. -/
def isUuidV7 (text : String) : Bool :=
  text.toList.length == 36 &&
    (text.toList.zipIdx.all fun (letter, index) =>
      if hyphens.contains index then letter == '-' else isHexDigit letter) &&
    text.toList[14]? == some '7' &&
    (text.toList[19]?.any fun letter => ['8', '9', 'a', 'b', 'A', 'B'].contains letter)

/-- The id of a thread, kept as it is written. -/
structure ThreadId where
  text : String
  valid : isUuidV7 text = true
  deriving DecidableEq, Repr

/-- Who asks for an id or for a thread: the run and the occurrence of the agent. -/
structure Origin where
  run : String
  occurrence : List String
  deriving DecidableEq, Repr

/-- Where a message of a thread stands. -/
inductive MessageStatus where
  | Streaming
  | Completed
  | Failed
  | Cancelled
  deriving DecidableEq, Repr

/-- How an open turn ends. -/
inductive TurnEnd where
  | Completed
  | Failed
  | Cancelled
  deriving DecidableEq, Repr

def MessageStatus.debug : MessageStatus → String
  | Streaming => "Streaming"
  | Completed => "Completed"
  | Failed => "Failed"
  | Cancelled => "Cancelled"

def TurnEnd.status : TurnEnd → MessageStatus
  | Completed => .Completed
  | Failed => .Failed
  | Cancelled => .Cancelled

/-- A message of a thread as a read shows it. -/
structure ThreadMessage where
  id : String
  status : MessageStatus
  deriving DecidableEq, Repr

/-- A thread as a store reads it: its conversation, and its messages in order. -/
structure ThreadView (C : Type) where
  conversation : C
  messages : List ThreadMessage

def ThreadView.message {C : Type} (view : ThreadView C) (id : String) : Option ThreadMessage :=
  view.messages.find? fun message => message.id == id

/-- A block that is streamed: a text, or another kind by its name. -/
inductive BlockKind where
  | Text
  | Other (name : String)
  deriving DecidableEq, Repr

inductive StreamEvent where
  | BlockStart (index : Nat) (kind : BlockKind)
  | ToolCallStart (index : Nat) (id : ToolCallId) (name : ToolName)
  | TextDelta (index : Nat) (text : String)
  | ToolCallArgumentsDelta (index : Nat) (fragment : String)
  | Other (content : String)
  | BlockEnd (index : Nat)
  | Finish (stopReason : StopReason) (usage : Option Nat)
  deriving DecidableEq, Repr

def StreamEvent.isFinish : StreamEvent → Bool
  | Finish _ _ => true
  | _ => false

/-- What a store uses of the message library: the drafts that fold the events of a step, and what a turn
takes or refuses. -/
class StepDrafts (D : Type) where
  new : D
  apply : D → StreamEvent → Except MessageError D
  finish : D → Option String → Except MessageError Step
  pushStep : Turn → Step → Except MessageError Turn
  pushResult : Turn → ToolResult → Except MessageError Turn
  pushResults : Turn → List ToolResult → Except MessageError Turn

section Drafts

variable (D : Type) [StepDrafts D]

/-- The step that some events make, without a model, as stream events carry none. -/
def foldEvents (events : List StreamEvent) : Except MessageError Step :=
  match events.foldlM StepDrafts.apply (StepDrafts.new : D) with
  | .error error => .error error
  | .ok draft => StepDrafts.finish draft none

/-- The events that the repair folds with the index of the block left open, and whether one calls a
tool. -/
def applyCut : D × Option Nat × Bool → StreamEvent → Except MessageError (D × Option Nat × Bool)
  | (draft, opened, calls), event =>
      match StepDrafts.apply draft event with
      | .error error => .error error
      | .ok draft =>
          match event with
          | .BlockStart index _ => .ok (draft, some index, calls)
          | .ToolCallStart index _ _ => .ok (draft, some index, true)
          | .BlockEnd _ => .ok (draft, none, calls)
          | _ => .ok (draft, opened, calls)

/-- The stop reason of a step that the repair finishes when it calls no tool. -/
def interruptedStop : String := "interrupted"

/-- The text that a repaired turn answers an interrupted call with. -/
def interrupted : String := "The call was interrupted: its result was not recorded."

/-- The step that the events of an unfinished one make once its open block is closed and a finish is
added; none when it cannot be finished. -/
def finishCut (events : List StreamEvent) : Option Step :=
  match events.foldlM (applyCut D) (StepDrafts.new, none, false) with
  | .error _ => none
  | .ok (draft, opened, calls) =>
      match opened.toList.foldlM (fun draft index => StepDrafts.apply draft (.BlockEnd index)) draft with
      | .error _ => none
      | .ok draft =>
          match StepDrafts.apply draft
              (.Finish (if calls then .AwaitingToolResults else .Other interruptedStop) none) with
          | .error _ => none
          | .ok draft => (StepDrafts.finish draft none).toOption

/-- The pending calls of the last step, in order. -/
def interruptedCalls (turn : Turn) : List ToolCall :=
  match turn.awaits with
  | .AwaitingToolResults pending =>
      ((finalStep turn).map Step.toolCalls).getD [] |>.filter fun call => pending.contains call.id
  | _ => []

/-- Each pending call answered with the interrupted error result; a result that the turn refuses is
dropped. -/
def answerInterrupted (turn : Turn) : Turn :=
  (interruptedCalls turn).foldl (fun turn call =>
    match StepDrafts.pushResult D turn ⟨call.id, call.name, [.Text interrupted], true⟩ with
    | .ok next => next
    | .error _ => turn) turn

end Drafts

/-- An operation of a thread store. -/
inductive Op where
  | Read
  | Create
  | StoreInput
  | OpenTurn
  | PushEvent
  | PushResults
  | EndTurn
  deriving DecidableEq, Repr

def Op.debug : Op → String
  | Read => "Read"
  | Create => "Create"
  | StoreInput => "StoreInput"
  | OpenTurn => "OpenTurn"
  | PushEvent => "PushEvent"
  | PushResults => "PushResults"
  | EndTurn => "EndTurn"

/-- Why a store refused an operation. -/
inductive StoreError where
  | Absent (thread : ThreadId)
  | Conflict (what : String)
  | NotOpen (turn : TurnId)
  | Refused (why : String)
  | Injected (op : Op)
  deriving DecidableEq, Repr

def StoreError.display : StoreError → String
  | Absent thread => s!"thread {thread.text} is absent"
  | Conflict what => s!"conflict: {what}"
  | NotOpen turn => s!"turn {turn} is not open"
  | Refused why => s!"refused: {why}"
  | Injected op => s!"injected fault on {op.debug}"

/-- The step under way: the draft that folds it, and the events that it was given. -/
structure Draft (D : Type) where
  fold : D
  events : List StreamEvent
  deriving DecidableEq, Repr

/-- A turn of a thread: the items it holds so far, none before its first step, and the step under
way. -/
structure TurnRecord (D : Type) where
  id : TurnId
  author : Author
  status : MessageStatus
  items : List TurnItem
  draft : Option (Draft D)
  deriving DecidableEq, Repr

namespace TurnRecord

variable {D : Type}

/-- The turn as a conversation holds it. -/
def turn (record : TurnRecord D) : Option Turn :=
  if record.items.isEmpty then none else some ⟨record.id, some record.author, record.items⟩

variable [StepDrafts D]

/-- A step joins the turn, as its first one or as the turn takes it. -/
def join (record : TurnRecord D) (step : Step) : Except MessageError (TurnRecord D) :=
  match record.turn with
  | none => .ok { record with items := [.Step step] }
  | some turn =>
      match StepDrafts.pushStep D turn step with
      | .error error => .error error
      | .ok next => .ok { record with items := next.items }

/-- An event folded into the step under way; at its finish, the step joins the turn. -/
def fold (record : TurnRecord D) (event : StreamEvent) : Except StoreError Unit × TurnRecord D :=
  let draft := record.draft.getD ⟨StepDrafts.new, []⟩
  match StepDrafts.apply draft.fold event with
  | .error error => (.error (.Refused error), { record with draft := some draft })
  | .ok folded =>
      if event.isFinish then
        let ended := { record with draft := none }
        match StepDrafts.finish folded none with
        | .error error => (.error (.Refused error), ended)
        | .ok step =>
            match ended.join step with
            | .error error => (.error (.Refused error), ended)
            | .ok joined => (.ok (), joined)
      else (.ok (), { record with draft := some ⟨folded, draft.events ++ [event]⟩ })

/-- The results of a round pushed whole, as the item of an index. -/
def pushResults (record : TurnRecord D) (index : Nat) (results : List ToolResult) :
    Except StoreError (TurnRecord D) :=
  match record.items[index]? with
  | some (.ToolResults _) => .ok record
  | some (.Step _) => .error (.Conflict s!"item {index} of turn {record.id} is a step")
  | none =>
      if index ≠ record.items.length ∨ record.draft.isSome then
        .error (.Refused s!"turn {record.id} takes its next item at {record.items.length}")
      else if results.isEmpty then .error (.Refused "an empty tool results item")
      else
        match record.turn with
        | none => .error (.Refused s!"turn {record.id} has no step")
        | some turn =>
            match StepDrafts.pushResults D turn results with
            | .error error => .error (.Refused error)
            | .ok next => .ok { record with items := next.items }

/-- The turn with the step that its unfinished one makes, when it can be finished and the turn takes
it. -/
def keepCut (record : TurnRecord D) : TurnRecord D :=
  let kept := { record with draft := none }
  match record.draft.bind fun draft => finishCut D draft.events with
  | none => kept
  | some step =>
      match kept.join step with
      | .error _ => kept
      | .ok joined => joined

/-- A turn that did not complete: its unfinished step is kept or dropped, and every call without a result
is answered as interrupted. -/
def repair (record : TurnRecord D) : TurnRecord D :=
  match record.keepCut.turn with
  | none => record.keepCut
  | some turn => { record.keepCut with items := (answerInterrupted D turn).items }

/-- A turn ends once; ended that way already, it stays. -/
def finish (record : TurnRecord D) (ending : TurnEnd) : Except StoreError (TurnRecord D) :=
  if record.status = .Streaming then
    match ending with
    | .Completed =>
        if record.draft.isSome then .error (.Refused s!"turn {record.id} has a step under way")
        else .ok { record with status := .Completed }
    | .Failed => .ok { record.repair with status := .Failed }
    | .Cancelled => .ok { record.repair with status := .Cancelled }
  else if record.status = ending.status then .ok record
  else .error (.Conflict s!"turn {record.id} is already {record.status.debug}")

end TurnRecord

inductive Message (D : Type) where
  | Input (input : UserInput)
  | Turn (record : TurnRecord D)
  deriving DecidableEq, Repr

namespace Message

variable {D : Type}

def id : Message D → String
  | Input input => input.id
  | Turn record => record.id

/-- A user input is completed once stored. -/
def status : Message D → MessageStatus
  | Input _ => .Completed
  | Turn record => record.status

/-- The message as a read shows it. -/
def shown (message : Message D) : ThreadMessage := ⟨message.id, message.status⟩

/-- The entry that the message has in the conversation, if any. -/
def entry : Message D → Option Entry
  | Input input => some (.UserInput input)
  | Turn record => record.turn.map .Turn

/-- The message added to a conversation, if it has an entry there. -/
def render (C : Type) [Messages C] (c : C) (message : Message D) : Except MessageError C :=
  match message.entry with
  | none => .ok c
  | some (.UserInput input) => Messages.pushInput c input
  | some (.Turn turn) => Messages.pushTurn c turn

/-- The record of a turn put in its place. -/
def put (record : TurnRecord D) : Message D → Message D
  | Input input => .Input input
  | Turn held => if held.id = record.id then .Turn record else .Turn held

@[simp] theorem put_id (record : TurnRecord D) (message : Message D) :
    (message.put record).id = message.id := by
  cases message with
  | Input input => rfl
  | Turn held =>
    by_cases hid : held.id = record.id
    · rw [show put record (Turn held) = Turn record from if_pos hid]
      exact hid.symm
    · rw [show put record (Turn held) = Turn held from if_neg hid]

end Message

/-- A thread: its messages, each under an id of its own. -/
structure Thread (D : Type) where
  origin : Origin
  messages : List (Message D)
  distinct : (messages.map Message.id).Nodup

namespace Thread

variable {D : Type} (thread : Thread D)

def message (id : String) : Option (Message D) := thread.messages.find? fun message => message.id == id

def record (id : TurnId) : Option (TurnRecord D) :=
  match thread.message id with
  | some (.Turn record) => some record
  | _ => none

theorem fresh {id : String} (hnone : thread.message id = none) : id ∉ thread.messages.map Message.id := by
  intro hmem
  obtain ⟨message, hmessage, rfl⟩ := List.mem_map.mp hmem
  have hno := List.find?_eq_none.mp hnone message hmessage
  simp at hno

/-- A message at the end of the thread. -/
def push (message : Message D) (hnone : thread.message message.id = none) : Thread D where
  origin := thread.origin
  messages := thread.messages ++ [message]
  distinct := by
    rw [List.map_append, List.nodup_append]
    refine ⟨thread.distinct, List.nodup_singleton _, fun id hid other hother => ?_⟩
    rw [List.map_cons, List.map_nil, List.mem_singleton] at hother
    rw [hother]
    exact fun heq => thread.fresh hnone (heq ▸ hid)

def put (record : TurnRecord D) : Thread D where
  origin := thread.origin
  messages := thread.messages.map (Message.put record)
  distinct := by
    have hids : (thread.messages.map (Message.put record)).map Message.id =
        thread.messages.map Message.id := by
      rw [List.map_map]
      exact List.map_congr_left fun message _ => message.put_id record
    rw [hids]
    exact thread.distinct

/-- An input stored under its id. -/
def storeInput (input : UserInput) : Except StoreError (Thread D) :=
  match hheld : thread.message input.id with
  | some (.Input stored) =>
      if stored = input then .ok thread
      else .error (.Conflict s!"input {input.id} is held with another content")
  | some (.Turn _) => .error (.Conflict s!"{input.id} is the id of a turn")
  | none => .ok (thread.push (.Input input) hheld)

/-- A turn opened under its id: a message that streams until it ends. -/
def openTurn (id : TurnId) (author : Author) : Except StoreError (Thread D) :=
  match hheld : thread.message id with
  | some (.Turn record) =>
      if record.author = author then .ok thread
      else .error (.Conflict s!"turn {id} is held for another author")
  | some (.Input _) => .error (.Conflict s!"{id} is the id of an input")
  | none => .ok (thread.push (.Turn ⟨id, author, .Streaming, [], none⟩) hheld)

def openRecord (id : TurnId) : Except StoreError (TurnRecord D) :=
  match thread.record id with
  | some record => if record.status = .Streaming then .ok record else .error (.NotOpen id)
  | none => .error (.NotOpen id)

variable [StepDrafts D]

def pushEvent (id : TurnId) (event : StreamEvent) : Except StoreError Unit × Thread D :=
  match thread.openRecord id with
  | .error error => (.error error, thread)
  | .ok record =>
      let (answer, folded) := record.fold event
      (answer, thread.put folded)

def pushResults (id : TurnId) (index : Nat) (results : List ToolResult) :
    Except StoreError (Thread D) :=
  match thread.openRecord id with
  | .error error => .error error
  | .ok record =>
      match record.pushResults index results with
      | .error error => .error error
      | .ok record => .ok (thread.put record)

def endTurn (id : TurnId) (ending : TurnEnd) : Except StoreError (Thread D) :=
  match thread.record id with
  | none => .error (.NotOpen id)
  | some record =>
      match record.finish ending with
      | .error error => .error error
      | .ok record => .ok (thread.put record)

/-- What the thread shows of its messages. -/
def shown : List ThreadMessage := thread.messages.map Message.shown

/-- The entries of the thread's conversation. -/
def entries : List Entry := thread.messages.filterMap Message.entry

/-- The thread as it is read: its conversation built message after message. -/
def view (C : Type) [Messages C] : Except StoreError (ThreadView C) :=
  match thread.messages.foldlM (Message.render C) (Messages.new : C) with
  | .error error => .error (.Refused error)
  | .ok conversation => .ok ⟨conversation, thread.shown⟩

end Thread

/-- The threads of a store. -/
abbrev Threads (D : Type) := ThreadId → Option (Thread D)

/-- A write of a thread store. -/
inductive Write where
  | create (origin : Origin)
  | storeInput (input : UserInput)
  | openTurn (turn : TurnId) (author : Author)
  | pushEvent (turn : TurnId) (event : StreamEvent)
  | pushResults (turn : TurnId) (index : Nat) (results : List ToolResult)
  | endTurn (turn : TurnId) (ending : TurnEnd)
  deriving DecidableEq, Repr

section Writes

variable {D : Type} [StepDrafts D]

/-- A write to a thread that the store holds; a write that is refused leaves the thread, but for the draft
of an event that could not be folded. -/
def Thread.write (thread : Thread D) (id : ThreadId) : Write → Except StoreError Unit × Thread D
  | .create origin =>
      if thread.origin = origin then (.ok (), thread)
      else (.error (.Conflict s!"thread {id.text} was created for another origin"), thread)
  | .storeInput input => kept (thread.storeInput input)
  | .openTurn turn author => kept (thread.openTurn turn author)
  | .pushEvent turn event => thread.pushEvent turn event
  | .pushResults turn index results => kept (thread.pushResults turn index results)
  | .endTurn turn ending => kept (thread.endTurn turn ending)
where
  /-- The thread that a write leaves. -/
  kept : Except StoreError (Thread D) → Except StoreError Unit × Thread D
    | .error error => (.error error, thread)
    | .ok next => (.ok (), next)

/-- A write of a store: a thread that is absent is created, or refuses the write. -/
def Threads.write (threads : Threads D) (id : ThreadId) (write : Write) :
    Except StoreError Unit × Threads D :=
  match threads id with
  | some thread =>
      let (answer, next) := thread.write id write
      (answer, Function.update threads id (some next))
  | none =>
      match write with
      | .create origin => (.ok (), Function.update threads id (some ⟨origin, [], List.nodup_nil⟩))
      | _ => (.error (.Absent id), threads)

end Writes

end LlmGraph.React
