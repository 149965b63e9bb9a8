/- digest: The queue of unread items and the boundary that stores them: what the copy holds is
   skipped, the rest goes into the open turn or a new one, and a fault gives the rest back. -/

import LlmGraph.Agentic.Session

set_option autoImplicit false
set_option relaxedAutoImplicit false

namespace LlmGraph.Agentic

inductive MailItem where
  | To (id : EntryId) (sender : AgentId) (author : Author) (source : ConversationId)
      (recipients cc : List AgentId) (subject body : String) (attachmentNames : List String)
  | Cc (id : EntryId) (subject : String)
  deriving DecidableEq, Repr

def MailItem.id : MailItem → EntryId
  | To id .. | Cc id _ => id

/-- The entries that an inbox may give as they are. -/
def IncomingEntry.OfInbox : IncomingEntry → Prop
  | .HumanMessage _ | .RequestAccepted _ | .QueuePosition _ | .TaskStarted _ | .TaskCompleted _
  | .TaskFailed _ | .RuntimeNotice _ => True
  | .AgentMail .. | .AgentOutput _ | .PartialAgentOutput _ => False

instance : DecidablePred IncomingEntry.OfInbox := fun entry => by
  cases entry <;> unfold IncomingEntry.OfInbox <;> infer_instance

structure InboxEntry where
  entry : IncomingEntry
  ofInbox : entry.OfInbox
  deriving DecidableEq

inductive InboxItem where
  | Mail (mail : MailItem)
  | Entry (entry : InboxEntry)
  deriving DecidableEq

def InboxItem.id : InboxItem → EntryId
  | Mail mail => mail.id
  | Entry entry => entry.entry.id

abbrev Cursor := String

structure InboxBatch where
  items : List InboxItem
  next : Option Cursor

/-- The unread items of an instance. -/
abbrev Queue := List InboxItem

namespace Queue

/-- `push`: an item whose id is queued is left out. -/
def push (queue : Queue) (item : InboxItem) : Bool × Queue :=
  if queue.any (·.id == item.id) then (false, queue) else (true, queue ++ [item])

def pushAll (queue : Queue) (items : List InboxItem) : Queue :=
  items.foldl (fun queue item => (queue.push item).2) queue

/-- `read`, on what the inbox answers call after call: `none` waits for the next answer. -/
def read (queue : Queue) (after : Option Cursor) (added : Nat) :
    List (Except PortError InboxBatch) → Option (Except PortError Nat) × Queue
  | [] => (none, queue)
  | .error error :: _ => (some (.error error), queue)
  | .ok page :: answers =>
      let filled := queue.pushAll page.items
      let added := added + (filled.length - queue.length)
      match page.next with
      | none => (some (.ok added), filled)
      | some cursor =>
          if after = some cursor then
            (some (.error (.Fault
              "the inbox gave the same cursor twice, the list does not advance")), filled)
          else filled.read (some cursor) added answers

def restore (queue : Queue) (items : List InboxItem) : Queue := items ++ queue

end Queue

structure Boundary where
  stored : List EntryId
  skipped : List EntryId
  unmarked : List EntryId
  deriving DecidableEq, Repr

def Boundary.empty : Boundary := ⟨[], [], []⟩

structure BoundaryError where
  fault : SessionError
  done : Boundary
  deriving DecidableEq, Repr

variable {C : Type} [Conversation C]

/-- A boundary on its way, with the host it works on. -/
structure Run (C : Type) where
  session : Session C
  host : Host C
  done : List EntryId
  report : Boundary

namespace Run

/-- `mark`: an error of the inbox stops nothing. -/
def mark (ports : Ports MailItem) (run : Run C) (item : InboxItem) : Run C :=
  let called := { run.host with markCalls := run.host.markCalls + 1 }
  match ports.mark run.host.markCalls with
  | none =>
      { run with
        done := run.done ++ [item.id]
        host := { called with marked := called.marked ++ [item.id] } }
  | some _ =>
      { run with
        done := run.done ++ [item.id]
        host := called
        report := { run.report with unmarked := run.report.unmarked ++ [item.id] } }

def skip (run : Run C) (item : InboxItem) : Run C :=
  { run with report := { run.report with skipped := run.report.skipped ++ [item.id] } }

def store (run : Run C) (item : InboxItem) : Run C :=
  { run with report := { run.report with stored := run.report.stored ++ [item.id] } }

def skipHeld (ports : Ports MailItem) (run : Run C) (held : List InboxItem) : Run C :=
  held.foldl (fun run item => (run.skip item).mark ports item) run

def storeInOpenTurn (ports : Ports MailItem) (run : Run C) (turn : AiTurnRef) :
    List (InboxItem × IncomingEntry) → Except SessionError Unit × Run C
  | [] => (.ok (), run)
  | (item, entry) :: rest =>
      match Conversation.tryTurnEntry run.session.conversation entry with
      | .error error => (.error (.Rules error), run)
      | .ok entry =>
          match run.session.addEntry ports run.host turn entry with
          | (.error fault, session, host) => (.error fault, { run with session, host })
          | (.ok (), session, host) =>
              (({ run with session, host }.store item).mark ports item).storeInOpenTurn ports turn rest

def storeInNewInputTurn (ports : Ports MailItem) (run : Run C) (turn : TurnId)
    (fresh : List (InboxItem × IncomingEntry)) : Except SessionError Unit × Run C :=
  if fresh.isEmpty then (.ok (), run)
  else
    match Conversation.newInputTurn run.session.conversation turn (fresh.map Prod.snd) with
    | .error error => (.error (.Rules error), run)
    | .ok turn =>
        match run.session.addInputTurn ports run.host turn with
        | (.error fault, session, host) => (.error fault, { run with session, host })
        | (.ok (), session, host) =>
            let added := { run with session, host }
            let stored := (fresh.map Prod.fst).foldl Run.store added
            (.ok (), (fresh.map Prod.fst).foldl (·.mark ports ·) stored)

end Run

def isEntryOf (mail : MailItem) (entry : IncomingEntry) : Bool :=
  entry.id == mail.id &&
    match mail, entry with
    | .To _ sender author source .., .AgentMail _ sender' author' source' =>
        sender' == sender && author' == author && source' == source
    | .Cc .., .RuntimeNotice _ => true
    | _, _ => false

/-- `build`, with the answer of the builder of mail entries at this call. -/
def build (ports : Ports MailItem) (host : Host C) (item : InboxItem) :
    Except SessionError IncomingEntry × Host C :=
  match item with
  | .Mail mail =>
      let called := { host with mailCalls := host.mailCalls + 1 }
      match ports.mailEntry host.mailCalls mail with
      | .error error => (.error (.Rules error), called)
      | .ok entry =>
          if isEntryOf mail entry then (.ok entry, called)
          else (.error (.WrongMailEntry mail.id), called)
  | .Entry entry => (.ok entry.entry, host)

/-- The first loop of `run_boundary`: the items that the copy holds, and the others with the entries
built for them. -/
def sort (ports : Ports MailItem) (session : Session C) (host : Host C) :
    List InboxItem → Except SessionError (List InboxItem × List (InboxItem × IncomingEntry)) × Host C
  | [] => (.ok ([], []), host)
  | item :: rest =>
      if session.holds item.id then
        match sort ports session host rest with
        | (.ok (held, fresh), host) => (.ok (item :: held, fresh), host)
        | (.error fault, host) => (.error fault, host)
      else
        match build ports host item with
        | (.error fault, host) => (.error fault, host)
        | (.ok entry, host) =>
            match sort ports session host rest with
            | (.ok (held, fresh), host) => (.ok (held, (item, entry) :: fresh), host)
            | (.error fault, host) => (.error fault, host)

def runBoundary (ports : Ports MailItem) (run : Run C) (agent : AgentId) (pending : List InboxItem)
    (newTurn : TurnId) : Except SessionError Unit × Run C :=
  match sort ports run.session run.host pending with
  | (.error fault, host) => (.error fault, { run with host })
  | (.ok (held, fresh), host) =>
      let skipped := { run with host }.skipHeld ports held
      match skipped.session.openAiTurn agent with
      | some turn => skipped.storeInOpenTurn ports turn fresh
      | none => skipped.storeInNewInputTurn ports newTurn fresh

/-- `store_at_boundary`: the queue is taken, and given back without what was done on a fault. -/
def storeAtBoundary (ports : Ports MailItem) (session : Session C) (host : Host C)
    (agent : AgentId) (queue : Queue) (newTurn : TurnId) :
    Except BoundaryError Boundary × Session C × Host C × Queue :=
  match runBoundary ports ⟨session, host, [], .empty⟩ agent queue newTurn with
  | (.ok (), run) => (.ok run.report, run.session, run.host, [])
  | (.error fault, run) =>
      (.error ⟨fault, run.report⟩, run.session, run.host,
        Queue.restore [] (queue.filter fun item => !run.done.contains item.id))

end LlmGraph.Agentic
