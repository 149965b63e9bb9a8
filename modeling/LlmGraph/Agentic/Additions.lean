/- digest: A session with every call that it makes to the thread access: its copy is the thread with
   the additions that were accepted, and it holds open what it opened and did not end. -/

import LlmGraph.Agentic.Ledger
import LlmGraph.Agentic.Session

set_option autoImplicit false
set_option relaxedAutoImplicit false

namespace LlmGraph.Agentic

variable {C : Type} [Conversation C]

/-- What a session opens under an entry of its turn. -/
inductive Object where
  | Response
  | Result
  deriving DecidableEq, Repr

/-- A call of the thread access.  A complete object is the entry that it becomes. -/
inductive Call where
  | AddInputTurn (turn : InputTurn)
  | AddEntry (turn : AiTurnRef) (entry : TurnEntry)
  | CloseTurn (turn : AiTurnRef) (closure : TurnClosure)
  | Open (object : Object) (turn : AiTurnRef) (entry : EntryId)
  | Complete (object : Object) (turn : AiTurnRef) (entry : TurnEntry)
  | Discard (object : Object) (entry : EntryId)
  deriving DecidableEq, Repr

/-- The calls made with what was answered to them, newest first. -/
abbrev Calls := List (Call × Option PortError)

/-- The thread access: its answer to a call, in view of the calls before. -/
abbrev Access := Calls → Call → Option PortError

/-- What a call adds to a conversation, by the rules; opened and discarded objects add nothing. -/
def Call.addition (c : C) : Call → Option (Except SessionError C)
  | .AddInputTurn turn => some (applyInputTurn c turn)
  | .AddEntry turn entry => some (applyEntry c turn entry)
  | .CloseTurn turn closure => some (applyClosure c turn closure)
  | .Complete _ turn entry => some (applyEntry c turn entry)
  | .Open _ _ _ | .Discard _ _ => none

namespace Session

/-- The open objects of a kind. -/
def listed (session : Session C) : Object → List EntryId
  | .Response => session.responses
  | .Result => session.results

def setListed (session : Session C) (listed : List EntryId) : Object → Session C
  | .Response => { session with responses := listed }
  | .Result => { session with results := listed }

omit [Conversation C] in
@[simp] theorem listed_setListed (session : Session C) (listed : List EntryId)
    (object other : Object) :
    (session.setListed listed object).listed other =
      if other = object then listed else session.listed other := by
  cases object <;> cases other <;> rfl

omit [Conversation C] in
@[simp] theorem conversation_setListed (session : Session C) (listed : List EntryId)
    (object : Object) : (session.setListed listed object).conversation = session.conversation := by
  cases object <;> rfl

end Session

/-- A session, with the calls that it made. -/
structure Traced (C : Type) where
  session : Session C
  calls : Calls

namespace Traced

/-- `Session::start` on what the thread access reads. -/
def start (thread : C) : Traced C := ⟨.start thread, []⟩

section Operations

variable (access : Access)

def call (traced : Traced C) (call : Call) : Traced C × Except PortError Unit :=
  let answer := access traced.calls call
  ({ traced with calls := (call, answer) :: traced.calls },
    match answer with
    | some error => .error error
    | none => .ok ())

/-- The copy takes an addition first; the thread access is called when the rules accept it. -/
def add (traced : Traced C) (applied : Except SessionError C) (call : Call) :
    Traced C × Except SessionError Unit :=
  match applied with
  | .error refusal => (traced, .error refusal)
  | .ok conversation =>
      let (traced, answer) := Traced.call access
        { traced with session := { traced.session with conversation } } call
      (traced, answer.mapError .Port)

def addInputTurn (traced : Traced C) (turn : InputTurn) : Traced C × Except SessionError Unit :=
  traced.add access (applyInputTurn traced.session.conversation turn) (.AddInputTurn turn)

def addEntry (traced : Traced C) (turn : AiTurnRef) (entry : TurnEntry) :
    Traced C × Except SessionError Unit :=
  traced.add access (applyEntry traced.session.conversation turn entry) (.AddEntry turn entry)

def closeTurn (traced : Traced C) (turn : AiTurnRef) (closure : TurnClosure) :
    Traced C × Except SessionError Unit :=
  traced.add access (applyClosure traced.session.conversation turn closure)
    (.CloseTurn turn closure)

/-- `open_response` and `open_result`. -/
def openObject (traced : Traced C) (object : Object) (turn : AiTurnRef) (entry : EntryId) :
    Traced C × Except SessionError Unit :=
  match traced.call access (.Open object turn entry) with
  | (traced, .error error) => (traced, .error (.Port error))
  | (traced, .ok ()) =>
      ({ traced with session :=
          traced.session.setListed (Session.track (traced.session.listed object) entry) object },
        .ok ())

/-- The object is forgotten, whether or not the session listed it. -/
def forget (traced : Traced C) (object : Object) (entry : EntryId) : Traced C :=
  { traced with session :=
      traced.session.setListed ((traced.session.listed object).filter (· != entry)) object }

/-- `discard_response` and `discard_result`. -/
def discard (traced : Traced C) (object : Object) (entry : EntryId) :
    Traced C × Except PortError Unit :=
  (traced.forget object entry).call access (.Discard object entry)

def discardIfOpen (traced : Traced C) (object : Object) (entry : EntryId) : Traced C :=
  if entry ∈ traced.session.listed object then (traced.discard access object entry).1 else traced

/-- `complete_response` and `complete_result`, on the entry that the object becomes. -/
def complete (traced : Traced C) (object : Object) (turn : AiTurnRef) (entry : TurnEntry) :
    Traced C × Except SessionError Unit :=
  match applyEntry traced.session.conversation turn entry with
  | .error refusal => (traced.discardIfOpen access object entry.id, .error refusal)
  | .ok conversation =>
      match Traced.call access { traced with session := { traced.session with conversation } }
        (.Complete object turn entry) with
      | (traced, .error error) => (traced, .error (.Port error))
      | (traced, .ok ()) => (traced.forget object entry.id, .ok ())

def openResponse (traced : Traced C) := traced.openObject access .Response
def openResult (traced : Traced C) := traced.openObject access .Result
def discardResponse (traced : Traced C) := traced.discard access .Response
def discardResult (traced : Traced C) := traced.discard access .Result

def completeResponse (traced : Traced C) (turn : AiTurnRef) (response : ModelResponse) :=
  traced.complete access .Response turn (.ModelResponse response)

def completeResult (traced : Traced C) (turn : AiTurnRef) (results : RuntimeToolResults) :=
  traced.complete access .Result turn (.RuntimeToolResults results)

/-- One of the two loops of `discard_all`, over the objects taken out of the session. -/
def discardEach (traced : Traced C) (object : Object) :
    List EntryId → Traced C × List PortError
  | [] => (traced, [])
  | entry :: rest =>
      let (traced, answer) := traced.call access (.Discard object entry)
      let (traced, errors) := traced.discardEach object rest
      match answer with
      | .error error => (traced, error :: errors)
      | .ok () => (traced, errors)

def discardAll (traced : Traced C) : Traced C × List PortError :=
  let (traced, errors) := discardEach access
    { traced with session := { traced.session with responses := [] } } .Response
    traced.session.responses
  let (traced, others) := discardEach access
    { traced with session := { traced.session with results := [] } } .Result
    traced.session.results
  (traced, errors ++ others)

end Operations

end Traced

/-- An operation of a session, with its arguments. -/
inductive Operation where
  | AddInputTurn (turn : InputTurn)
  | AddEntry (turn : AiTurnRef) (entry : TurnEntry)
  | CloseTurn (turn : AiTurnRef) (closure : TurnClosure)
  | OpenResponse (turn : AiTurnRef) (entry : EntryId)
  | CompleteResponse (turn : AiTurnRef) (response : ModelResponse)
  | DiscardResponse (entry : EntryId)
  | OpenResult (turn : AiTurnRef) (entry : EntryId)
  | CompleteResult (turn : AiTurnRef) (results : RuntimeToolResults)
  | DiscardResult (entry : EntryId)
  | DiscardAll
  deriving DecidableEq, Repr

namespace Traced

/-- The session after an operation. -/
def perform (access : Access) (traced : Traced C) : Operation → Traced C
  | .AddInputTurn turn => (traced.addInputTurn access turn).1
  | .AddEntry turn entry => (traced.addEntry access turn entry).1
  | .CloseTurn turn closure => (traced.closeTurn access turn closure).1
  | .OpenResponse turn entry => (traced.openResponse access turn entry).1
  | .CompleteResponse turn response => (traced.completeResponse access turn response).1
  | .DiscardResponse entry => (traced.discardResponse access entry).1
  | .OpenResult turn entry => (traced.openResult access turn entry).1
  | .CompleteResult turn results => (traced.completeResult access turn results).1
  | .DiscardResult entry => (traced.discardResult access entry).1
  | .DiscardAll => (traced.discardAll access).1

def performAll (access : Access) (traced : Traced C) (operations : List Operation) : Traced C :=
  operations.foldl (perform access) traced

end Traced

/-! What the calls tell. -/

/-- The calls that the thread access accepted, oldest first. -/
def Calls.accepted (calls : Calls) : List Call :=
  calls.reverse.filterMap fun (call, answer) => if answer.isNone then some call else none

/-- The conversation after a call. -/
def Call.apply (c : C) (call : Call) : Except SessionError C := (call.addition c).getD (.ok c)

/-- A call that ends an object: a completion that is accepted, or a discard whatever is answered. -/
def Call.Ends (object : Object) (entry : EntryId) (made : Call × Option PortError) : Prop :=
  made.1 = .Discard object entry ∨
    ∃ turn complete, made.1 = .Complete object turn complete ∧ complete.id = entry ∧ made.2 = none

/-- The object was opened, and not ended since. -/
def Calls.OpenIn (object : Object) (entry : EntryId) (calls : Calls) : Prop :=
  ∃ later turn earlier, calls = later ++ (.Open object turn entry, none) :: earlier ∧
    ∀ made ∈ later, ¬Call.Ends object entry made

/-- A call is an addition to the thread. -/
def Call.adds : Call → Bool
  | .AddInputTurn _ | .AddEntry _ _ | .CloseTurn _ _ | .Complete _ _ _ => true
  | .Open _ _ _ | .Discard _ _ => false

/-- The operation is refused by the rules of entries and closures. -/
def Operation.Refused (c : C) : Operation → Prop
  | .AddInputTurn turn => ∃ refusal, applyInputTurn c turn = .error refusal
  | .AddEntry turn entry => ∃ refusal, applyEntry c turn entry = .error refusal
  | .CloseTurn turn closure => ∃ refusal, applyClosure c turn closure = .error refusal
  | .CompleteResponse turn response => ∃ refusal, applyResponse c turn response = .error refusal
  | .CompleteResult turn results => ∃ refusal, applyResults c turn results = .error refusal
  | .OpenResponse _ _ | .DiscardResponse _ | .OpenResult _ _ | .DiscardResult _ | .DiscardAll =>
      False

/-- What an operation asks the thread access to add. -/
def Operation.addition : Operation → Option Call
  | .AddInputTurn turn => some (.AddInputTurn turn)
  | .AddEntry turn entry => some (.AddEntry turn entry)
  | .CloseTurn turn closure => some (.CloseTurn turn closure)
  | .CompleteResponse turn response => some (.Complete .Response turn (.ModelResponse response))
  | .CompleteResult turn results => some (.Complete .Result turn (.RuntimeToolResults results))
  | .OpenResponse _ _ | .DiscardResponse _ | .OpenResult _ _ | .DiscardResult _ | .DiscardAll => none

namespace Calls

theorem openIn_cons {object : Object} {entry : EntryId} {made : Call × Option PortError}
    {calls : Calls} : OpenIn object entry (made :: calls) ↔
      (∃ turn, made = (.Open object turn entry, none)) ∨
        ¬Call.Ends object entry made ∧ OpenIn object entry calls := by
  constructor
  · rintro ⟨later, turn, earlier, heq, hlater⟩
    cases later with
    | nil => exact .inl ⟨turn, (List.cons.inj heq).1⟩
    | cons first rest =>
      obtain ⟨rfl, hrest⟩ := List.cons.inj heq
      exact .inr ⟨hlater made List.mem_cons_self, rest, turn, earlier, hrest,
        fun other hother => hlater other (List.mem_cons_of_mem _ hother)⟩
  · rintro (⟨turn, rfl⟩ | ⟨hends, later, turn, earlier, rfl, hlater⟩)
    · exact ⟨[], turn, calls, rfl, by simp⟩
    · refine ⟨made :: later, turn, earlier, rfl, ?_⟩
      intro other hother
      rcases List.mem_cons.mp hother with rfl | hrest
      · exact hends
      · exact hlater other hrest

/-- A call that neither opens nor ends the object leaves it as it was. -/
theorem openIn_other {object : Object} {entry : EntryId} {made : Call × Option PortError}
    {calls : Calls} (hopen : ∀ turn, made ≠ (.Open object turn entry, none))
    (hends : ¬Call.Ends object entry made) :
    OpenIn object entry (made :: calls) ↔ OpenIn object entry calls := by
  rw [openIn_cons]
  constructor
  · rintro (⟨turn, heq⟩ | ⟨-, hopened⟩)
    · exact absurd heq (hopen turn)
    · exact hopened
  · exact fun hopened => .inr ⟨hends, hopened⟩

/-- Discards end the objects that they name, and no others. -/
theorem openIn_discards {object other : Object} {entry : EntryId} {listed : List EntryId}
    {made calls : Calls} (hmade : made.map Prod.fst = listed.map (Call.Discard object)) :
    OpenIn other entry (made ++ calls) ↔
      OpenIn other entry calls ∧ ¬(other = object ∧ entry ∈ listed) := by
  induction made generalizing listed with
  | nil =>
    have hnil : listed = [] := List.map_eq_nil_iff.mp hmade.symm
    simp [hnil]
  | cons first rest ih =>
    cases listed with
    | nil => cases hmade
    | cons head others =>
      obtain ⟨hfirst, hrest⟩ := List.cons.inj hmade
      have hends : Call.Ends other entry first ↔ other = object ∧ entry = head := by
        rw [Call.Ends, hfirst]
        simp only [Call.Discard.injEq, reduceCtorEq, false_and, exists_false, or_false]
        exact and_congr eq_comm eq_comm
      rw [List.cons_append, openIn_cons, ih hrest, hends]
      have hopen : ¬∃ turn, first = (.Open other turn entry, none) := by
        rintro ⟨turn, rfl⟩
        cases hfirst
      simp only [hopen, false_or, List.mem_cons]
      tauto

theorem accepted_append (later earlier : Calls) :
    accepted (later ++ earlier) = accepted earlier ++ accepted later := by
  rw [accepted, List.reverse_append, List.filterMap_append]
  rfl

theorem accepted_cons_none {call : Call} {calls : Calls} :
    accepted ((call, none) :: calls) = accepted calls ++ [call] := by
  simp [accepted]

end Calls

namespace Traced

/-- The copy is the thread with what was added, while the thread access answers without error; and
the objects listed are the open ones, each once. -/
structure Sound (thread : C) (traced : Traced C) : Prop where
  copy : (∀ made ∈ traced.calls, made.2 = none) →
    traced.calls.accepted.foldlM Call.apply thread = .ok traced.session.conversation
  opened : ∀ object entry, entry ∈ traced.session.listed object ↔
    traced.calls.OpenIn object entry
  once : ∀ object, (traced.session.listed object).Nodup

variable {access : Access} {thread : C} {traced : Traced C}

omit [Conversation C] in
theorem call_calls (call : Call) :
    (traced.call access call).1 =
      { traced with calls := (call, access traced.calls call) :: traced.calls } := rfl

/-- The fold over one more accepted call. -/
private theorem Sound.copy_call (access : Access) (hsound : Sound thread traced) {call : Call}
    {conversation : C}
    (happly : Call.apply traced.session.conversation call = .ok conversation)
    (hnone : ∀ made ∈ (call, access traced.calls call) :: traced.calls, made.2 = none) :
    (Calls.accepted ((call, access traced.calls call) :: traced.calls)).foldlM Call.apply thread =
      .ok conversation := by
  have hanswer : access traced.calls call = none := hnone _ List.mem_cons_self
  have hold := hsound.copy fun made hmade => hnone made (List.mem_cons_of_mem _ hmade)
  rw [hanswer, Calls.accepted_cons_none, List.foldlM_append, hold]
  simp [bind, Except.bind, happly, pure, Except.pure]

theorem Sound.start (thread : C) : Sound thread (start thread) where
  copy _ := rfl
  opened object entry := by
    have hnone : ¬Calls.OpenIn object entry [] := by
      rintro ⟨later, turn, earlier, heq, -⟩
      cases later <;> cases heq
    cases object
    · exact iff_of_false (by simp [Traced.start, Session.start, Session.listed]) hnone
    · exact iff_of_false (by simp [Traced.start, Session.start, Session.listed]) hnone
  once object := by cases object <;> exact List.nodup_nil

/-- A call for an addition that the rules accept changes the copy, and opens and ends nothing. -/
private theorem Sound.called (access : Access) (hsound : Sound thread traced) {call : Call}
    {conversation : C}
    (happly : Call.apply traced.session.conversation call = .ok conversation)
    (hopen : ∀ object entry turn, call ≠ .Open object turn entry)
    (hends : ∀ object entry, ¬Call.Ends object entry (call, access traced.calls call)) :
    Sound thread (Traced.call access
      { traced with session := { traced.session with conversation } } call).1 where
  copy hnone := hsound.copy_call access happly hnone
  opened object entry := by
    have hother : ∀ turn, (call, access traced.calls call) ≠ (.Open object turn entry, none) :=
      fun turn heq => hopen object entry turn (congrArg Prod.fst heq)
    rw [call_calls, Calls.openIn_other hother (hends object entry), ← hsound.opened]
    cases object <;> rfl
  once object := by
    have honce := hsound.once object
    cases object <;> exact honce

theorem Sound.add (hsound : Sound thread traced) {call : Call} {applied : Except SessionError C}
    (haddition : call.addition traced.session.conversation = some applied)
    (hopen : ∀ object entry turn, call ≠ .Open object turn entry)
    (hends : ∀ object entry answer, ¬Call.Ends object entry (call, answer)) :
    Sound thread (traced.add access applied call).1 := by
  cases applied with
  | error refusal => exact hsound
  | ok conversation =>
    have happly : Call.apply traced.session.conversation call = .ok conversation := by
      rw [Call.apply, haddition]
      rfl
    exact hsound.called access happly hopen fun object entry => hends object entry _

/-- A track keeps what is listed once. -/
private theorem mem_track {listed : List EntryId} {entry other : EntryId} :
    other ∈ Session.track listed entry ↔ other = entry ∨ other ∈ listed := by
  rw [Session.track]
  by_cases hlisted : entry ∈ listed
  · rw [if_pos hlisted]
    exact ⟨.inr, fun hcase => hcase.elim (fun heq => heq ▸ hlisted) id⟩
  · rw [if_neg hlisted, List.mem_append, List.mem_singleton]
    exact or_comm

private theorem nodup_track {listed : List EntryId} (hnodup : listed.Nodup) (entry : EntryId) :
    (Session.track listed entry).Nodup := by
  rw [Session.track]
  by_cases hlisted : entry ∈ listed
  · rwa [if_pos hlisted]
  · rw [if_neg hlisted]
    refine List.nodup_append.mpr ⟨hnodup, by simp, ?_⟩
    intro other hother last hlast heq
    rw [List.mem_singleton.mp hlast] at heq
    exact hlisted (heq ▸ hother)

theorem Sound.openObject (hsound : Sound thread traced) (object : Object) (turn : AiTurnRef)
    (entry : EntryId) : Sound thread (traced.openObject access object turn entry).1 := by
  have happly : Call.apply traced.session.conversation (.Open object turn entry) =
      .ok traced.session.conversation := rfl
  rw [Traced.openObject, Traced.call]
  cases hanswer : access traced.calls (.Open object turn entry) with
  | some error =>
    refine ⟨fun hnone => ?_, ?_, hsound.once⟩
    · have hfailed := hnone _ List.mem_cons_self
      cases hfailed
    · intro other id
      rw [Calls.openIn_other (by simp) (by simp [Call.Ends]), hsound.opened]
  | none =>
    refine ⟨fun hnone => ?_, ?_, ?_⟩
    · have hcopy := hsound.copy_call access happly (by rw [hanswer]; exact hnone)
      rw [hanswer] at hcopy
      simpa using hcopy
    · intro other id
      rw [Session.listed_setListed, Calls.openIn_cons]
      have hends : ¬Call.Ends other id (.Open object turn entry, none) := by simp [Call.Ends]
      by_cases hsame : other = object
      · rw [if_pos hsame, mem_track, ← hsound.opened, hsame]
        simp only [Prod.mk.injEq, Call.Open.injEq, true_and, and_true]
        constructor
        · rintro (rfl | hlisted)
          · exact .inl ⟨turn, rfl, rfl⟩
          · exact .inr ⟨by simp [Call.Ends], hlisted⟩
        · rintro (⟨found, -, rfl⟩ | ⟨-, hlisted⟩)
          · exact .inl rfl
          · exact .inr hlisted
      · rw [if_neg hsame, ← hsound.opened]
        constructor
        · exact fun hlisted => .inr ⟨hends, hlisted⟩
        · rintro (⟨found, heq⟩ | ⟨-, hlisted⟩)
          · cases heq
            exact absurd rfl hsame
          · exact hlisted
    · intro other
      rw [Session.listed_setListed]
      split
      · exact nodup_track (hsound.once object) entry
      · exact hsound.once other

private theorem Sound.forget (hsound : Sound thread traced) (object : Object) (entry : EntryId)
    (made : Call × Option PortError) {conversation : C}
    (hends : ∀ other id, Call.Ends other id made ↔ other = object ∧ id = entry)
    (hcopy : (∀ call ∈ made :: traced.calls, call.2 = none) →
      (Calls.accepted (made :: traced.calls)).foldlM Call.apply thread = .ok conversation) :
    Sound thread ⟨({ traced.session with conversation }).setListed
      ((traced.session.listed object).filter (· != entry)) object, made :: traced.calls⟩ where
  copy hnone := by
    rw [Session.conversation_setListed]
    exact hcopy hnone
  opened other id := by
    have hopen : ¬∃ turn, made = (.Open other turn id, none) := by
      rintro ⟨turn, rfl⟩
      have hself := (hends object entry).mpr ⟨rfl, rfl⟩
      simp [Call.Ends] at hself
    have hsame : ({ traced.session with conversation } : Session C).listed other =
        traced.session.listed other := by cases other <;> rfl
    rw [Session.listed_setListed, Calls.openIn_cons, hends, ← hsound.opened, hsame]
    simp only [hopen, false_or]
    by_cases hkind : other = object
    · subst hkind
      rw [if_pos rfl, List.mem_filter]
      simp only [bne_iff_ne, ne_eq, true_and]
      exact and_comm
    · simp [hkind]
  once other := by
    have hsame : ({ traced.session with conversation } : Session C).listed other =
        traced.session.listed other := by cases other <;> rfl
    rw [Session.listed_setListed, hsame]
    split
    · exact (hsound.once object).filter _
    · exact hsound.once other

theorem Sound.discard (hsound : Sound thread traced) (object : Object) (entry : EntryId) :
    Sound thread (traced.discard access object entry).1 := by
  refine hsound.forget object entry (.Discard object entry, _) ?_ ?_
  · intro other id
    simp only [Call.Ends, Call.Discard.injEq, reduceCtorEq, false_and, exists_false, or_false]
    exact and_congr eq_comm eq_comm
  · exact fun hnone => hsound.copy_call access rfl hnone

theorem Sound.discardIfOpen (hsound : Sound thread traced) (object : Object) (entry : EntryId) :
    Sound thread (traced.discardIfOpen access object entry) := by
  rw [Traced.discardIfOpen]
  split
  · exact hsound.discard object entry
  · exact hsound

theorem Sound.complete (hsound : Sound thread traced) (object : Object) (turn : AiTurnRef)
    (entry : TurnEntry) : Sound thread (traced.complete access object turn entry).1 := by
  rw [Traced.complete]
  cases happlied : applyEntry traced.session.conversation turn entry with
  | error refusal => exact hsound.discardIfOpen object entry.id
  | ok conversation =>
    have happly : Call.apply traced.session.conversation (.Complete object turn entry) =
        .ok conversation := happlied
    simp only [Traced.call]
    cases hanswer : access traced.calls (.Complete object turn entry) with
    | some error =>
      have hcalled := hsound.called access happly (by simp)
        (by simp [Call.Ends, hanswer])
      rw [call_calls] at hcalled
      simpa only [hanswer] using hcalled
    | none =>
      refine hsound.forget object entry.id (.Complete object turn entry, none) ?_ ?_
      · intro other id
        simp only [Call.Ends, reduceCtorEq, false_or, Call.Complete.injEq, and_true]
        constructor
        · rintro ⟨found, complete, ⟨rfl, -, rfl⟩, rfl⟩
          exact ⟨rfl, rfl⟩
        · rintro ⟨rfl, rfl⟩
          exact ⟨turn, entry, ⟨rfl, rfl, rfl⟩, rfl⟩
      · intro hnone
        have hcopy := hsound.copy_call access happly (by rw [hanswer]; exact hnone)
        rwa [hanswer] at hcopy

omit [Conversation C] in
/-- A loop of discards makes one call for each object, in order. -/
theorem discardEach_calls (access : Access) (traced : Traced C) (object : Object)
    (listed : List EntryId) :
    (traced.discardEach access object listed).1.session = traced.session ∧
      ∃ made, (traced.discardEach access object listed).1.calls = made ++ traced.calls ∧
        made.map Prod.fst = listed.reverse.map (Call.Discard object) := by
  induction listed generalizing traced with
  | nil => exact ⟨rfl, [], rfl, rfl⟩
  | cons entry rest ih =>
    obtain ⟨hsession, made, hcalls, hmade⟩ := ih (traced.call access (.Discard object entry)).1
    have hfirst : (traced.discardEach access object (entry :: rest)).1 =
        ((traced.call access (.Discard object entry)).1.discardEach access object rest).1 := by
      simp only [discardEach]
      split <;> rfl
    rw [hfirst]
    refine ⟨hsession,
      made ++ [(.Discard object entry, access traced.calls (.Discard object entry))], ?_, ?_⟩
    · rw [hcalls, List.append_assoc]
      rfl
    · rw [List.map_append, hmade, List.reverse_cons, List.map_append]
      rfl

omit [Conversation C] in
/-- Every open object is discarded with one call, the responses first, and none is left. -/
theorem discardAll_calls (access : Access) (traced : Traced C) : ∃ first second,
    (traced.discardAll access).1.calls = second ++ (first ++ traced.calls) ∧
      first.map Prod.fst = traced.session.responses.reverse.map (Call.Discard .Response) ∧
      second.map Prod.fst = traced.session.results.reverse.map (Call.Discard .Result) ∧
      (traced.discardAll access).1.session = traced.session.discardAll := by
  obtain ⟨hsession, first, hcalls, hfirst⟩ := discardEach_calls access
    { traced with session := { traced.session with responses := [] } } .Response
    traced.session.responses
  generalize hmiddle : (discardEach access
    { traced with session := { traced.session with responses := [] } } .Response
    traced.session.responses).1 = middle at hsession hcalls
  obtain ⟨hsession', second, hcalls', hsecond⟩ := discardEach_calls access
    { middle with session := { middle.session with results := [] } } .Result
    middle.session.results
  have hlast : (traced.discardAll access).1 = (discardEach access
      { middle with session := { middle.session with results := [] } } .Result
      middle.session.results).1 := by
    rw [← hmiddle]
    rfl
  have hresults : middle.session.results = traced.session.results := by rw [hsession]
  refine ⟨first, second, ?_, hfirst, hresults ▸ hsecond, ?_⟩
  · rw [hlast, hcalls', hcalls]
  · rw [hlast, hsession', hsession]
    rfl

/-- Discards add nothing to a conversation. -/
private theorem fold_discards {made : Calls} {object : Object} {listed : List EntryId}
    (hmade : made.map Prod.fst = listed.map (Call.Discard object)) (c : C) :
    made.accepted.foldlM Call.apply c = .ok c := by
  have hnothing : ∀ calls : List Call, (∀ call ∈ calls, Call.apply c call = .ok c) →
      calls.foldlM Call.apply c = .ok c := by
    intro calls hcalls
    induction calls with
    | nil => rfl
    | cons call rest ih =>
      rw [List.foldlM_cons, hcalls call List.mem_cons_self]
      exact ih fun other hother => hcalls other (List.mem_cons_of_mem _ hother)
  apply hnothing
  intro call hcall
  obtain ⟨⟨own, answer⟩, hmem, hkept⟩ := List.mem_filterMap.mp hcall
  have hown : own ∈ made.map Prod.fst := List.mem_map_of_mem (List.mem_reverse.mp hmem)
  rw [hmade] at hown
  obtain ⟨entry, -, rfl⟩ := List.mem_map.mp hown
  simp only [Option.ite_none_right_eq_some, Option.some.injEq] at hkept
  obtain ⟨-, rfl⟩ := hkept
  rfl

theorem Sound.discardAll (hsound : Sound thread traced) :
    Sound thread (traced.discardAll access).1 := by
  obtain ⟨first, second, hcalls, hfirst, hsecond, hsession⟩ := discardAll_calls access traced
  refine ⟨?_, ?_, ?_⟩
  · rw [hcalls, hsession]
    intro hnone
    have hold := hsound.copy fun made hmade => hnone made
      (List.mem_append_right _ (List.mem_append_right _ hmade))
    rw [Calls.accepted_append, Calls.accepted_append, List.foldlM_append, List.foldlM_append, hold]
    simp only [bind, Except.bind]
    rw [fold_discards hfirst]
    exact fold_discards hsecond _
  · intro object entry
    rw [hcalls, hsession, Calls.openIn_discards hsecond, Calls.openIn_discards hfirst,
      ← hsound.opened]
    cases object <;> simp [Session.listed, Session.discardAll]
  · rw [hsession]
    intro object
    cases object <;> exact List.nodup_nil

/-- Every operation keeps the copy and the open objects right. -/
theorem Sound.perform (hsound : Sound thread traced) (operation : Operation) :
    Sound thread (traced.perform access operation) := by
  cases operation with
  | AddInputTurn turn => exact hsound.add rfl (by simp) (by simp [Call.Ends])
  | AddEntry turn entry => exact hsound.add rfl (by simp) (by simp [Call.Ends])
  | CloseTurn turn closure => exact hsound.add rfl (by simp) (by simp [Call.Ends])
  | OpenResponse turn entry => exact hsound.openObject .Response turn entry
  | CompleteResponse turn response => exact hsound.complete .Response turn (.ModelResponse response)
  | DiscardResponse entry => exact hsound.discard .Response entry
  | OpenResult turn entry => exact hsound.openObject .Result turn entry
  | CompleteResult turn results => exact hsound.complete .Result turn (.RuntimeToolResults results)
  | DiscardResult entry => exact hsound.discard .Result entry
  | DiscardAll => exact hsound.discardAll

theorem Sound.performAll (hsound : Sound thread traced) (operations : List Operation) :
    Sound thread (traced.performAll access operations) := by
  induction operations generalizing traced with
  | nil => exact hsound
  | cons operation rest ih => exact ih (hsound.perform operation)

/-- An operation refused by the rules leaves the copy as it is, and calls for no addition. -/
theorem perform_refused {operation : Operation}
    (hrefused : operation.Refused traced.session.conversation) :
    (traced.perform access operation).session.conversation = traced.session.conversation ∧
      ((traced.perform access operation).calls.map Prod.fst).filter Call.adds =
        (traced.calls.map Prod.fst).filter Call.adds := by
  have hcomplete : ∀ object turn entry refusal,
      applyEntry traced.session.conversation turn entry = .error refusal →
      (traced.complete access object turn entry).1.session.conversation =
          traced.session.conversation ∧
        ((traced.complete access object turn entry).1.calls.map Prod.fst).filter Call.adds =
          (traced.calls.map Prod.fst).filter Call.adds := by
    intro object turn entry refusal happlied
    rw [Traced.complete, happlied]
    dsimp only
    rw [Traced.discardIfOpen]
    split
    · exact ⟨Session.conversation_setListed .., rfl⟩
    · exact ⟨rfl, rfl⟩
  cases operation with
  | AddInputTurn turn =>
    obtain ⟨refusal, happlied⟩ := hrefused
    simp only [Traced.perform, Traced.addInputTurn, Traced.add, happlied, and_self]
  | AddEntry turn entry =>
    obtain ⟨refusal, happlied⟩ := hrefused
    simp only [Traced.perform, Traced.addEntry, Traced.add, happlied, and_self]
  | CloseTurn turn closure =>
    obtain ⟨refusal, happlied⟩ := hrefused
    simp only [Traced.perform, Traced.closeTurn, Traced.add, happlied, and_self]
  | CompleteResponse turn response =>
    obtain ⟨refusal, happlied⟩ := hrefused
    exact hcomplete .Response turn (.ModelResponse response) refusal happlied
  | CompleteResult turn results =>
    obtain ⟨refusal, happlied⟩ := hrefused
    exact hcomplete .Result turn (.RuntimeToolResults results) refusal happlied
  | OpenResponse turn entry => exact hrefused.elim
  | DiscardResponse entry => exact hrefused.elim
  | OpenResult turn entry => exact hrefused.elim
  | DiscardResult entry => exact hrefused.elim
  | DiscardAll => exact hrefused.elim

/-- A completion that the rules refuse discards the object when it is open. -/
theorem complete_refused {object : Object} {turn : AiTurnRef} {entry : TurnEntry}
    {refusal : SessionError}
    (happlied : applyEntry traced.session.conversation turn entry = .error refusal)
    (hopen : entry.id ∈ traced.session.listed object) :
    traced.complete access object turn entry =
      ((traced.discard access object entry.id).1, .error refusal) := by
  rw [Traced.complete, happlied]
  dsimp only
  rw [Traced.discardIfOpen, if_pos hopen]

/-- An operation that the rules accept makes its call next, and the copy takes the addition. -/
theorem perform_accepted {operation : Operation} {call : Call} {conversation : C}
    (haddition : operation.addition = some call)
    (haccepted : call.apply traced.session.conversation = .ok conversation) :
    (traced.perform access operation).calls = (call, access traced.calls call) :: traced.calls ∧
      (traced.perform access operation).session.conversation = conversation := by
  have hadd {applied : Except SessionError C} {call : Call} (happlied : applied = .ok conversation) :
      (traced.add access applied call).1.calls = (call, access traced.calls call) :: traced.calls ∧
        (traced.add access applied call).1.session.conversation = conversation := by
    subst happlied
    exact ⟨rfl, rfl⟩
  have hcomplete {object : Object} {turn : AiTurnRef} {entry : TurnEntry}
      (happlied : applyEntry traced.session.conversation turn entry = .ok conversation) :
      (traced.complete access object turn entry).1.calls =
          (.Complete object turn entry, access traced.calls (.Complete object turn entry)) ::
            traced.calls ∧
        (traced.complete access object turn entry).1.session.conversation = conversation := by
    rw [Traced.complete, happlied]
    dsimp only [Traced.call]
    cases access traced.calls (.Complete object turn entry) with
    | some error => exact ⟨rfl, rfl⟩
    | none => exact ⟨rfl, Session.conversation_setListed ..⟩
  cases operation with
  | AddInputTurn turn =>
    cases haddition
    exact hadd haccepted
  | AddEntry turn entry =>
    cases haddition
    exact hadd haccepted
  | CloseTurn turn closure =>
    cases haddition
    exact hadd haccepted
  | CompleteResponse turn response =>
    cases haddition
    exact hcomplete haccepted
  | CompleteResult turn results =>
    cases haddition
    exact hcomplete haccepted
  | OpenResponse turn entry => cases haddition
  | DiscardResponse entry => cases haddition
  | OpenResult turn entry => cases haddition
  | DiscardResult entry => cases haddition
  | DiscardAll => cases haddition

/-! The session of the boundary of an instance, over its ports, is the same. -/

end Traced

section Boundary

variable {M : Type}

/-- The session of the boundary after an operation, when the thread access gives its streams. -/
def Session.perform (ports : Ports M) (session : Session C) (host : Host C) :
    Operation → Session C × Host C
  | .AddInputTurn turn => (session.addInputTurn ports host turn).2
  | .AddEntry turn entry => (session.addEntry ports host turn entry).2
  | .CloseTurn turn closure => (session.closeTurn ports host turn closure).2
  | .OpenResponse _ entry => (session.openResponse entry, host)
  | .CompleteResponse turn response => (session.completeResponse ports host turn response).2
  | .DiscardResponse entry => (session.discardResponse entry, host)
  | .OpenResult _ entry => (session.openResult entry, host)
  | .CompleteResult turn results => (session.completeResult ports host turn results).2
  | .DiscardResult entry => (session.discardResult entry, host)
  | .DiscardAll => (session.discardAll, host)

def Session.performAll (ports : Ports M) (session : Session C) (host : Host C)
    (operations : List Operation) : Session C × Host C :=
  operations.foldl (fun at_ operation => at_.1.perform ports at_.2 operation) (session, host)

/-- How many additions were asked for. -/
def Calls.additions (calls : Calls) : Nat := (calls.map Prod.fst).countP Call.adds

/-- The ports as a thread access: they answer each addition by its number, and give every stream. -/
def Ports.access (ports : Ports M) (first : Nat) : Access := fun calls call =>
  if call.adds then ports.thread (first + Calls.additions calls) else none

/-- What a completion makes of its addition: the object is forgotten, unless the port failed. -/
def Session.completed (object : Object) (entry : EntryId) :
    Except SessionError Unit × Session C × Host C → Session C × Host C
  | (.error (.Port _), session, host) => (session, host)
  | (_, session, host) =>
      (session.setListed ((session.listed object).filter (· != entry)) object, host)

end Boundary

namespace Traced

section Boundary

variable {M : Type} {ports : Ports M} {host : Host C} {first : Nat} {traced : Traced C}

/-- The rules have no port to fail. -/
private theorem applyEntry_not_port {c : C} {turn : AiTurnRef} {entry : TurnEntry}
    {error : PortError} : applyEntry c turn entry ≠ .error (.Port error) := by
  have hrules : ∀ {α : Type} (made : Except MessageError α),
      made.mapError SessionError.Rules ≠ .error (.Port error) := by
    intro α made
    cases made <;> simp [Except.mapError]
  rw [applyEntry]
  cases hexisting : existing c turn with
  | error refusal =>
    rw [existing] at hexisting
    split at hexisting
    · split at hexisting <;> cases hexisting
      simp [bind, Except.bind]
    · cases hexisting
      simp [bind, Except.bind]
    · cases hexisting
  | ok found =>
    simp only [bind, Except.bind]
    split
    · exact hrules _
    · split
      · rename_i refusal hrefused
        intro heq
        cases heq
        exact hrules _ hrefused
      · exact hrules _

omit [Conversation C] in
private theorem access_adds (ports : Ports M) {call : Call} (hadds : call.adds = true)
    (hcount : host.threadCalls = first + traced.calls.additions) :
    ports.access first traced.calls call = ports.thread host.threadCalls := by
  rw [Ports.access, if_pos hadds, hcount]

private theorem additions_cons (calls : Calls) (call : Call) (answer : Option PortError) :
    Calls.additions ((call, answer) :: calls) = calls.additions + if call.adds then 1 else 0 := by
  rw [Calls.additions, List.map_cons, List.countP_cons]
  rfl

/-- The two have gone the same way: the sessions are the same, and so are the additions made. -/
def Projects (first : Nat) (traced : Traced C) (at_ : Session C × Host C) : Prop :=
  traced.session = at_.1 ∧ at_.2.threadCalls = first + traced.calls.additions

omit [Conversation C] in
/-- An addition does to the session what it does there. -/
theorem add_session (hcount : host.threadCalls = first + traced.calls.additions)
    (apply : C → Except SessionError C) {call : Call} (hadds : call.adds = true) :
    Projects first (traced.add (ports.access first) (apply traced.session.conversation) call).1
      (traced.session.add ports host apply).2 := by
  unfold Session.add Traced.add
  cases happlied : apply traced.session.conversation with
  | error refusal => exact ⟨rfl, hcount⟩
  | ok conversation =>
    dsimp only [Traced.call]
    have hnext : host.threadCalls + 1 = first +
        Calls.additions ((call, ports.access first traced.calls call) :: traced.calls) := by
      rw [additions_cons, if_pos hadds, hcount, Nat.add_assoc]
    cases hthread : ports.thread host.threadCalls with
    | some error => exact ⟨rfl, hnext⟩
    | none => exact ⟨rfl, hnext⟩

omit [Conversation C] in
private theorem forget_absent {object : Object} {entry : EntryId}
    (habsent : entry ∉ traced.session.listed object) :
    (traced.session.listed object).filter (· != entry) = traced.session.listed object := by
  rw [List.filter_eq_self]
  intro other hother
  have hne : other ≠ entry := fun heq => habsent (heq ▸ hother)
  simpa using hne

/-- So does the completion of an object. -/
theorem complete_session (hcount : host.threadCalls = first + traced.calls.additions)
    (object : Object) (turn : AiTurnRef) (entry : TurnEntry) :
    Projects first (traced.complete (ports.access first) object turn entry).1
      (Session.completed object entry.id
        (traced.session.add ports host fun c => applyEntry c turn entry)) := by
  rw [Session.add, complete]
  cases happlied : applyEntry traced.session.conversation turn entry with
  | error refusal =>
    have hdiscarded : Projects first (traced.discardIfOpen (ports.access first) object entry.id)
        (traced.session.setListed ((traced.session.listed object).filter (· != entry.id)) object,
          host) := by
      rw [discardIfOpen]
      split
      · refine ⟨rfl, ?_⟩
        dsimp only [discard, call, forget]
        rw [additions_cons]
        exact hcount
      · rename_i hclosed
        rw [forget_absent hclosed]
        refine ⟨?_, hcount⟩
        cases object <;> rfl
    cases refusal with
    | Port error => exact absurd happlied applyEntry_not_port
    | Rules error => exact hdiscarded
    | WrongTurn wrong => exact hdiscarded
    | WrongMailEntry mail => exact hdiscarded
  | ok conversation =>
    have hadds : (Call.Complete object turn entry).adds = true := rfl
    have hnext : host.threadCalls + 1 = first + Calls.additions ((.Complete object turn entry,
        ports.access first traced.calls (.Complete object turn entry)) :: traced.calls) := by
      rw [additions_cons, if_pos hadds, hcount, Nat.add_assoc]
    dsimp only
    have hanswer := access_adds ports hadds hcount
    rw [hanswer] at hnext
    rw [call, hanswer]
    cases hthread : ports.thread host.threadCalls with
    | some error => exact ⟨rfl, hnext⟩
    | none => exact ⟨rfl, hnext⟩

/-- So does every operation. -/
theorem perform_session (hcount : host.threadCalls = first + traced.calls.additions)
    (operation : Operation) :
    Projects first (traced.perform (ports.access first) operation)
      (traced.session.perform ports host operation) := by
  have hunseen (call : Call) (hcall : call.adds = false) (answer : Option PortError) :
      host.threadCalls = first + Calls.additions ((call, answer) :: traced.calls) := by
    rw [additions_cons, hcall]
    exact hcount
  have hopened (object : Object) (turn : AiTurnRef) (entry : EntryId) :
      Projects first (traced.openObject (ports.access first) object turn entry).1
        (traced.session.setListed (Session.track (traced.session.listed object) entry) object,
          host) := by
    have hgiven : ports.access first traced.calls (.Open object turn entry) = none := rfl
    rw [openObject, call, hgiven]
    exact ⟨rfl, hunseen _ rfl _⟩
  have hdiscarded (object : Object) (entry : EntryId) :
      Projects first (traced.discard (ports.access first) object entry).1
        (traced.session.setListed ((traced.session.listed object).filter (· != entry)) object,
          host) := ⟨rfl, hunseen _ rfl _⟩
  have hcompleted := @complete_session _ _ _ ports host first traced hcount
  cases operation with
  | AddInputTurn turn => exact add_session hcount (applyInputTurn · turn) rfl
  | AddEntry turn entry => exact add_session hcount (applyEntry · turn entry) rfl
  | CloseTurn turn closure => exact add_session hcount (applyClosure · turn closure) rfl
  | OpenResponse turn entry => exact hopened .Response turn entry
  | DiscardResponse entry => exact hdiscarded .Response entry
  | OpenResult turn entry => exact hopened .Result turn entry
  | DiscardResult entry => exact hdiscarded .Result entry
  | CompleteResponse turn response =>
    have hsame : (traced.session.completeResponse ports host turn response).2 =
        Session.completed .Response response.id
          (traced.session.add ports host fun c => applyEntry c turn (.ModelResponse response)) := by
      rw [Session.completeResponse]
      show _ = Session.completed .Response response.id
        (traced.session.add ports host (applyResponse · turn response))
      rcases traced.session.add ports host (applyResponse · turn response) with
        ⟨(_ | _ | _ | _) | _, next, after⟩ <;> rfl
    rw [Session.perform, hsame]
    exact hcompleted .Response turn (.ModelResponse response)
  | CompleteResult turn results =>
    have hsame : (traced.session.completeResult ports host turn results).2 =
        Session.completed .Result results.id
          (traced.session.add ports host fun c => applyEntry c turn (.RuntimeToolResults results)) := by
      rw [Session.completeResult]
      show _ = Session.completed .Result results.id
        (traced.session.add ports host (applyResults · turn results))
      rcases traced.session.add ports host (applyResults · turn results) with
        ⟨(_ | _ | _ | _) | _, next, after⟩ <;> rfl
    rw [Session.perform, hsame]
    exact hcompleted .Result turn (.RuntimeToolResults results)
  | DiscardAll =>
    obtain ⟨made, others, hcalls, hmade, hothers, hsession⟩ :=
      discardAll_calls (ports.access first) traced
    refine ⟨hsession, ?_⟩
    have hnone {object : Object} {listed : List EntryId} :
        (listed.map (Call.Discard object)).countP Call.adds = 0 := by
      rw [List.countP_eq_zero]
      intro call hcall
      obtain ⟨entry, -, rfl⟩ := List.mem_map.mp hcall
      exact Bool.false_ne_true
    show host.threadCalls = _
    rw [perform, hcalls, Calls.additions, List.map_append, List.map_append, hmade, hothers,
      List.countP_append, List.countP_append, hnone, hnone, Nat.zero_add, Nat.zero_add]
    exact hcount

/-- A session goes over the ports of an instance as it does with its calls. -/
theorem performAll_session (hcount : host.threadCalls = first + traced.calls.additions)
    (operations : List Operation) :
    Projects first (traced.performAll (ports.access first) operations)
      (traced.session.performAll ports host operations) := by
  induction operations generalizing traced host with
  | nil => exact ⟨rfl, hcount⟩
  | cons operation rest ih =>
    obtain ⟨hsession, hnext⟩ := @perform_session _ _ _ ports _ _ _ hcount operation
    have hlater := ih hnext
    rw [hsession] at hlater
    exact hlater

end Boundary

/-- Without failed calls the copy is the thread as first read with the additions that were accepted.
What the rules refuse changes neither; what they accept is called for next, and the copy takes it.
The objects listed are those opened and not ended since, each once.  A refused completion of an open
object discards it, and `discard_all` discards each open object once and leaves none, whatever is
answered.  A session over the ports of an instance goes the same way. -/
theorem session_follows_thread (access : Access) (thread : C) (operations : List Operation)
    (traced : Traced C) (hreached : traced = (Traced.start thread).performAll access operations) :
    ((∀ made ∈ traced.calls, made.2 = none) →
      traced.calls.accepted.foldlM Call.apply thread = .ok traced.session.conversation) ∧
    (∀ operation : Operation, operation.Refused traced.session.conversation →
      (traced.perform access operation).session.conversation = traced.session.conversation ∧
        ((traced.perform access operation).calls.map Prod.fst).filter Call.adds =
          (traced.calls.map Prod.fst).filter Call.adds) ∧
    (∀ (operation : Operation) call conversation, operation.addition = some call →
      call.apply traced.session.conversation = .ok conversation →
        (traced.perform access operation).calls = (call, access traced.calls call) :: traced.calls ∧
          (traced.perform access operation).session.conversation = conversation) ∧
    (∀ object, (traced.session.listed object).Nodup ∧
      ∀ entry, entry ∈ traced.session.listed object ↔ traced.calls.OpenIn object entry) ∧
    (∀ object turn entry refusal,
      applyEntry traced.session.conversation turn entry = .error refusal →
      entry.id ∈ traced.session.listed object →
        entry.id ∉ (traced.complete access object turn entry).1.session.listed object ∧
          (traced.complete access object turn entry).1.calls.map Prod.fst =
            .Discard object entry.id :: traced.calls.map Prod.fst) ∧
    ((traced.discardAll access).1.session.openObjects = 0 ∧
      ∃ made, (traced.discardAll access).1.calls = made ++ traced.calls ∧
        made.reverse.map Prod.fst = traced.session.responses.map (Call.Discard .Response) ++
          traced.session.results.map (Call.Discard .Result)) ∧
    ∀ (M : Type) (ports : Ports M) (host : Host C), access = ports.access host.threadCalls →
      traced.session = ((Session.start thread).performAll ports host operations).1 := by
  have hsound : Sound thread traced := hreached ▸ (Sound.start thread).performAll operations
  refine ⟨hsound.copy, fun _ hrefused => perform_refused hrefused,
    fun _ _ _ haddition haccepted => perform_accepted haddition haccepted,
    fun object => ⟨hsound.once object, hsound.opened object⟩, ?_, ?_, ?_⟩
  · intro object turn entry refusal happlied hopen
    rw [complete_refused happlied hopen]
    refine ⟨?_, rfl⟩
    dsimp only [Traced.discard, Traced.call, Traced.forget]
    rw [Session.listed_setListed, if_pos rfl]
    simp
  · obtain ⟨first, second, hcalls, hfirst, hsecond, hsession⟩ := discardAll_calls access traced
    refine ⟨by rw [hsession]; rfl, second ++ first, ?_, ?_⟩
    · rw [hcalls, List.append_assoc]
    · rw [List.reverse_append, List.map_append, List.map_reverse, List.map_reverse, hfirst,
        hsecond, ← List.map_reverse, ← List.map_reverse, List.reverse_reverse,
        List.reverse_reverse]
  · rintro M ports host rfl
    rw [hreached]
    exact (@performAll_session _ _ _ ports host host.threadCalls (Traced.start thread) rfl
      operations).1

/-- A response that was opened on an empty thread is open. -/
theorem session_follows_thread_opened :
    7 ∈ ((start (⟨[]⟩ : Ledger)).performAll (fun _ _ => none)
        [.OpenResponse ⟨1, 1, "author"⟩ 7]).session.responses ∧
      ((start (⟨[]⟩ : Ledger)).performAll (fun _ _ => none)
        [.OpenResponse ⟨1, 1, "author"⟩ 7]).calls.OpenIn .Response 7 :=
  ⟨by decide, (((session_follows_thread (fun _ _ => none) (⟨[]⟩ : Ledger)
    [.OpenResponse ⟨1, 1, "author"⟩ 7] _ rfl).2.2.2.1 .Response).2 7).mp (by decide)⟩

end Traced

end LlmGraph.Agentic
