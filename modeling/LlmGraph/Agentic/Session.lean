/- digest: A session: the copy of a thread that an instance keeps, and the thread access behind it,
   which takes an addition or fails. -/

import LlmGraph.Agentic.Messages

set_option autoImplicit false
set_option relaxedAutoImplicit false

namespace LlmGraph.Agentic

inductive PortError where
  | Refused (reason : String)
  | Fault (cause : String)
  deriving DecidableEq, Repr

inductive SessionError where
  | Rules (error : MessageError)
  | WrongTurn (turn : TurnId)
  | WrongMailEntry (mail : EntryId)
  | Port (error : PortError)
  deriving DecidableEq, Repr

structure AiTurnRef where
  id : TurnId
  agent : AgentId
  author : Author
  deriving DecidableEq, Repr

variable {C : Type} [Conversation C]

section Rules

def applyInputTurn (c : C) (turn : InputTurn) : Except SessionError C :=
  (Conversation.pushTurn c (.InputTurn turn)).mapError .Rules

def existing (c : C) (turn : AiTurnRef) : Except SessionError Bool :=
  match turnOf c turn.id with
  | some (.AITurn ai) =>
      if ai.agent = turn.agent ∧ ai.author = turn.author then .ok true
      else .error (.WrongTurn turn.id)
  | some (.InputTurn _) => .error (.WrongTurn turn.id)
  | none => .ok false

/-- The turn of a reference: it is there, of that agent and author, or there is none. -/
theorem existing_cases {c : C} {target : AiTurnRef} {there : Bool}
    (hexisting : existing c target = .ok there) :
    (there = true ∧ ∃ ai, turnOf c target.id = some (.AITurn ai) ∧ ai.agent = target.agent ∧
      ai.author = target.author) ∨ there = false ∧ turnOf c target.id = none := by
  unfold existing at hexisting
  rcases hturn : turnOf c target.id with _ | input | ai
  · rw [hturn] at hexisting
    cases hexisting
    exact .inr ⟨rfl, rfl⟩
  · rw [hturn] at hexisting
    cases hexisting
  · rw [hturn] at hexisting
    dsimp only at hexisting
    split at hexisting
    · rename_i hsame
      cases hexisting
      exact .inl ⟨rfl, ai, rfl, hsame⟩
    · cases hexisting

theorem ok_of_mapError {ε δ α : Type} {convert : ε → δ} {result : Except ε α} {value : α}
    (hresult : result.mapError convert = .ok value) : result = .ok value := by
  cases result with
  | error error => cases hresult
  | ok taken =>
      cases hresult
      rfl

def applyEntry (c : C) (turn : AiTurnRef) (entry : TurnEntry) : Except SessionError C := do
  if ← existing c turn then
    (Conversation.pushEntry c turn.id entry).mapError .Rules
  else
    let created ← (Conversation.pushTurnEntry c (.open turn.id turn.agent turn.author)
      entry).mapError .Rules
    (Conversation.pushTurn c (.AITurn created)).mapError .Rules

/-- The turn that an entry of the reference goes to: the one that is there, or the one it opens. -/
def current (c : C) (turn : AiTurnRef) : AITurn :=
  ((turnOf c turn.id).bind Turn.asAi).getD (.open turn.id turn.agent turn.author)

/-- The turn of an entry that is taken: the entry comes last in it. -/
theorem applyEntry_turn (hlawful : Conversation.Lawful C) {c next : C} {turn : AiTurnRef}
    {entry : TurnEntry} (happlied : applyEntry c turn entry = .ok next) :
    turnOf next turn.id = some (.AITurn ((current c turn).add entry)) := by
  have hfirst (front back : List Turn) (found : AITurn)
      (hothers : ∀ other ∈ front, other.id ≠ turn.id) (hfound : found.id = turn.id) :
      (front ++ .AITurn found :: back).find? (·.id == turn.id) = some (.AITurn found) := by
    rw [List.find?_append, List.find?_eq_none.mpr fun other hother => by
      simpa using hothers other hother]
    have hpos : (fun other : Turn => other.id == turn.id) (.AITurn found) = true :=
      beq_iff_eq.mpr hfound
    exact Option.none_or.trans (List.find?_cons_of_pos hpos)
  unfold applyEntry at happlied
  rcases hexisting : existing c turn with error | there
  · rw [hexisting] at happlied
    cases happlied
  rw [hexisting] at happlied
  rcases existing_cases hexisting with ⟨rfl, ai, hturn, -⟩ | ⟨rfl, hturn⟩
  · have hpushed : Conversation.pushEntry c turn.id entry = .ok next := ok_of_mapError happlied
    obtain ⟨before, held, after, hturns, hothers, hid, hnext⟩ := hlawful.pushEntry _ _ _ _ hpushed
    have hheld : turnOf c turn.id = some (.AITurn held) := by
      unfold turnOf
      rw [hturns]
      exact hfirst before after held hothers hid
    unfold current turnOf
    rw [hnext, ← turnOf, hheld]
    exact hfirst before after (held.add entry) hothers hid
  · cases hmade : Conversation.pushTurnEntry c (.open turn.id turn.agent turn.author) entry with
    | error error =>
        simp only [hmade, Except.mapError, bind, Except.bind, Bool.false_eq_true, if_false] at happlied
        cases happlied
    | ok made =>
        simp only [hmade, Except.mapError, bind, Except.bind, Bool.false_eq_true, if_false] at happlied
        have hpushed : Conversation.pushTurn c (.AITurn made) = .ok next := ok_of_mapError happlied
        cases hlawful.pushTurnEntry _ _ _ _ hmade
        have hnone : ∀ other ∈ turns c, other.id ≠ turn.id := fun other hother => by
          simpa using List.find?_eq_none.mp hturn other hother
        unfold current
        rw [hturn]
        unfold turnOf
        rw [hlawful.pushTurn _ _ _ hpushed]
        exact hfirst (turns c) [] _ hnone rfl

def applyClosure (c : C) (turn : AiTurnRef) (closure : TurnClosure) : Except SessionError C := do
  if ← existing c turn then
    (Conversation.pushEntry c turn.id (.TurnClosure closure)).mapError .Rules
  else .error (.WrongTurn turn.id)

def applyResponse (c : C) (turn : AiTurnRef) (response : ModelResponse) : Except SessionError C :=
  applyEntry c turn (.ModelResponse response)

def applyResults (c : C) (turn : AiTurnRef) (results : RuntimeToolResults) :
    Except SessionError C :=
  applyEntry c turn (.RuntimeToolResults results)

end Rules

/-- What the ports of an instance answer: the thread access to its additions, the inbox to its marks,
and the builder of mail entries, at each call. -/
structure Ports (M : Type) where
  thread : Nat → Option PortError
  mark : Nat → Option PortError
  mailEntry : Nat → M → Except MessageError IncomingEntry

/-- The host: the thread as it keeps it, the items marked as read, and the calls made so far. -/
structure Host (C : Type) where
  thread : C
  marked : List EntryId
  threadCalls : Nat
  markCalls : Nat
  mailCalls : Nat

structure Session (C : Type) where
  conversation : C
  responses : List EntryId
  results : List EntryId

namespace Session

variable {M : Type}

/-- `Session::start` on what the thread access reads. -/
def start (thread : C) : Session C := ⟨thread, [], []⟩

def openObjects (session : Session C) : Nat := session.responses.length + session.results.length

def holds (session : Session C) (entry : EntryId) : Bool := Agentic.holds session.conversation entry

/-- The last AI turn of the agent that is not closed. -/
def openAiTurn (session : Session C) (agent : AgentId) : Option AiTurnRef :=
  (((turns session.conversation).reverse.filterMap Turn.asAi).find? fun ai =>
    ai.agent == agent && !ai.isClosed).map fun ai => ⟨ai.id, agent, ai.author⟩

/-- An addition: the copy takes it first, then the thread access, which has not taken it when it
gives an error. -/
def add (ports : Ports M) (session : Session C) (host : Host C) (apply : C → Except SessionError C) :
    Except SessionError Unit × Session C × Host C :=
  match apply session.conversation with
  | .error refusal => (.error refusal, session, host)
  | .ok conversation =>
      let called := { host with threadCalls := host.threadCalls + 1 }
      match ports.thread host.threadCalls with
      | some error => (.error (.Port error), { session with conversation }, called)
      | none =>
          let thread :=
            match apply host.thread with
            | .ok thread => thread
            | .error _ => host.thread
          (.ok (), { session with conversation }, { called with thread })

def addInputTurn (ports : Ports M) (session : Session C) (host : Host C) (turn : InputTurn) :=
  session.add ports host (applyInputTurn · turn)

def addEntry (ports : Ports M) (session : Session C) (host : Host C) (turn : AiTurnRef)
    (entry : TurnEntry) :=
  session.add ports host (applyEntry · turn entry)

def closeTurn (ports : Ports M) (session : Session C) (host : Host C) (turn : AiTurnRef)
    (closure : TurnClosure) :=
  session.add ports host (applyClosure · turn closure)

/-- `track`: an open object is listed once. -/
def track (listed : List EntryId) (entry : EntryId) : List EntryId :=
  if entry ∈ listed then listed else listed ++ [entry]

/-- `open_response`, when the thread access gives the stream. -/
def openResponse (session : Session C) (entry : EntryId) : Session C :=
  { session with responses := track session.responses entry }

/-- `discard_response`: nothing of the thread changes, whatever the thread access answers. -/
def discardResponse (session : Session C) (entry : EntryId) : Session C :=
  { session with responses := session.responses.filter (· != entry) }

/-- `complete_response`: a refused response is discarded. -/
def completeResponse (ports : Ports M) (session : Session C) (host : Host C) (turn : AiTurnRef)
    (response : ModelResponse) : Except SessionError Unit × Session C × Host C :=
  match session.add ports host (applyResponse · turn response) with
  | (.ok (), next, host) => (.ok (), next.discardResponse response.id, host)
  | (.error (.Port error), next, host) => (.error (.Port error), next, host)
  | (.error refusal, next, host) => (.error refusal, next.discardResponse response.id, host)

def openResult (session : Session C) (entry : EntryId) : Session C :=
  { session with results := track session.results entry }

def discardResult (session : Session C) (entry : EntryId) : Session C :=
  { session with results := session.results.filter (· != entry) }

def completeResult (ports : Ports M) (session : Session C) (host : Host C) (turn : AiTurnRef)
    (results : RuntimeToolResults) : Except SessionError Unit × Session C × Host C :=
  match session.add ports host (applyResults · turn results) with
  | (.ok (), next, host) => (.ok (), next.discardResult results.id, host)
  | (.error (.Port error), next, host) => (.error (.Port error), next, host)
  | (.error refusal, next, host) => (.error refusal, next.discardResult results.id, host)

def discardAll (session : Session C) : Session C := { session with responses := [], results := [] }

end Session

end LlmGraph.Agentic
