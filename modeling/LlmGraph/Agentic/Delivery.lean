/- digest: What a boundary does: whatever fails, the thread gains the items that it reports as
   stored, in the order of the queue, and the queue keeps the others. -/

import Mathlib.Data.List.Nodup
import LlmGraph.Agentic.Boundary

set_option autoImplicit false
set_option relaxedAutoImplicit false

namespace LlmGraph.Agentic

variable {C : Type}

/-- The items whose mark the inbox took, of those it was asked for from a call on. -/
def readOf (ports : Ports MailItem) (calls : Nat) (ids : List EntryId) : List EntryId :=
  ((ids.zipIdx calls).filter fun asked => (ports.mark asked.2).isNone).map Prod.fst

/-- The items whose mark failed. -/
def unreadOf (ports : Ports MailItem) (calls : Nat) (ids : List EntryId) : List EntryId :=
  ((ids.zipIdx calls).filter fun asked => (ports.mark asked.2).isSome).map Prod.fst

theorem readOf_append (ports : Ports MailItem) (calls : Nat) (first later : List EntryId) :
    readOf ports calls (first ++ later) =
      readOf ports calls first ++ readOf ports (calls + first.length) later := by
  simp [readOf, List.zipIdx_append]

theorem unreadOf_append (ports : Ports MailItem) (calls : Nat) (first later : List EntryId) :
    unreadOf ports calls (first ++ later) =
      unreadOf ports calls first ++ unreadOf ports (calls + first.length) later := by
  simp [unreadOf, List.zipIdx_append]

namespace Run

/-- What a part of a boundary has done: the items it skips, then those it stores, are done, and
each was asked to be marked as read. -/
structure Did (ports : Ports MailItem) (run next : Run C) (skips stores : List InboxItem) : Prop
    where
  done : next.done = run.done ++ (skips ++ stores).map InboxItem.id
  skipped : next.report.skipped = run.report.skipped ++ skips.map InboxItem.id
  stored : next.report.stored = run.report.stored ++ stores.map InboxItem.id
  marked : next.host.marked =
    run.host.marked ++ readOf ports run.host.markCalls ((skips ++ stores).map InboxItem.id)
  unmarked : next.report.unmarked = run.report.unmarked ++
    unreadOf ports run.host.markCalls ((skips ++ stores).map InboxItem.id)
  calls : next.host.markCalls = run.host.markCalls + (skips ++ stores).length

section Parts

variable {ports : Ports MailItem} {run next last : Run C} {skips stores more : List InboxItem}

theorem Did.refl (run : Run C) : Did ports run run [] [] := by
  constructor <;> simp [readOf, unreadOf]

/-- What only stores, after another part. -/
theorem Did.store (hfirst : Did ports run next skips stores) (hlater : Did ports next last [] more) :
    Did ports run last skips (stores ++ more) := by
  have hsize : ((skips ++ stores).map InboxItem.id).length = (skips ++ stores).length := by simp
  have hall : (skips ++ (stores ++ more)).map InboxItem.id =
      (skips ++ stores).map InboxItem.id ++ more.map InboxItem.id := by simp
  have hrest : (([] : List InboxItem) ++ more).map InboxItem.id = more.map InboxItem.id := by simp
  constructor
  · rw [hlater.done, hfirst.done, hall, hrest, List.append_assoc]
  · rw [hlater.skipped, hfirst.skipped]
    simp
  · rw [hlater.stored, hfirst.stored]
    simp
  · rw [hlater.marked, hfirst.marked, hfirst.calls, hall, hrest, readOf_append, hsize,
      List.append_assoc]
  · rw [hlater.unmarked, hfirst.unmarked, hfirst.calls, hall, hrest, unreadOf_append, hsize,
      List.append_assoc]
  · rw [hlater.calls, hfirst.calls]
    simp
    omega

/-- The inbox is asked once. -/
private theorem mark_cases (run : Run C) (item : InboxItem) :
    (run.mark ports item).session = run.session ∧
    (run.mark ports item).host.thread = run.host.thread ∧
    (run.mark ports item).host.threadCalls = run.host.threadCalls ∧
    (run.mark ports item).host.mailCalls = run.host.mailCalls ∧
    (run.mark ports item).host.markCalls = run.host.markCalls + 1 ∧
    (run.mark ports item).done = run.done ++ [item.id] ∧
    (run.mark ports item).report.skipped = run.report.skipped ∧
    (run.mark ports item).report.stored = run.report.stored ∧
    (run.mark ports item).host.marked =
      run.host.marked ++ readOf ports run.host.markCalls [item.id] ∧
    (run.mark ports item).report.unmarked =
      run.report.unmarked ++ unreadOf ports run.host.markCalls [item.id] := by
  unfold mark
  dsimp only
  split
  · rename_i hanswered
    simp [readOf, unreadOf, hanswered]
  · rename_i error hanswered
    simp [readOf, unreadOf, hanswered]

/-- Skipping what is held asks for each item's mark and leaves the thread alone. -/
theorem skipHeld_did (run : Run C) (held : List InboxItem) :
    Did ports run (run.skipHeld ports held) held [] ∧
      (run.skipHeld ports held).session = run.session ∧
      (run.skipHeld ports held).host.thread = run.host.thread := by
  induction held generalizing run with
  | nil => exact ⟨.refl run, rfl, rfl⟩
  | cons item rest hstep =>
      obtain ⟨hdid, hsession, hthread⟩ := hstep ((run.skip item).mark ports item)
      obtain ⟨hownSession, hownThread, -, -, hcalls, hdone, hskipped, hstored, hmarked, hunmarked⟩ :=
        @mark_cases C ports (run.skip item) item
      refine ⟨?_, hsession.trans hownSession, hthread.trans hownThread⟩
      have hfirst : (item :: rest ++ ([] : List InboxItem)).map InboxItem.id =
          [item.id] ++ (rest ++ ([] : List InboxItem)).map InboxItem.id := by simp
      constructor
      · exact hdid.done.trans (by rw [hdone, hfirst, List.append_assoc]; rfl)
      · exact hdid.skipped.trans (by rw [hskipped]; simp [skip])
      · exact hdid.stored.trans (by rw [hstored]; rfl)
      · refine hdid.marked.trans ?_
        rw [hmarked, hcalls, hfirst, readOf_append, List.append_assoc]
        rfl
      · refine hdid.unmarked.trans ?_
        rw [hunmarked, hcalls, hfirst, unreadOf_append, List.append_assoc]
        rfl
      · refine hdid.calls.trans ?_
        rw [hcalls]
        simp [skip]
        omega

/-- One item stored and marked. -/
theorem store_did (run : Run C) (item : InboxItem) :
    Did ports run ((run.store item).mark ports item) [] [item] ∧
      ((run.store item).mark ports item).session = run.session ∧
      ((run.store item).mark ports item).host.thread = run.host.thread := by
  obtain ⟨hsession, hthread, -, -, hcalls, hdone, hskipped, hstored, hmarked, hunmarked⟩ :=
    @mark_cases C ports (run.store item) item
  refine ⟨⟨?_, ?_, ?_, hmarked, ?_, hcalls⟩, hsession, hthread⟩
  · rw [hdone]
    rfl
  · rw [hskipped]
    simp [store]
  · rw [hstored]
    rfl
  · rw [hunmarked]
    rfl

private theorem foldl_store (run : Run C) (items : List InboxItem) :
    items.foldl store run = { run with
      report := { run.report with stored := run.report.stored ++ items.map InboxItem.id } } := by
  induction items generalizing run with
  | nil => simp
  | cons item rest hstep =>
      rw [List.foldl_cons, hstep]
      simp [store]

private theorem foldl_mark (run : Run C) (items : List InboxItem) :
    (items.foldl (·.mark ports ·) run).session = run.session ∧
    (items.foldl (·.mark ports ·) run).host.thread = run.host.thread ∧
    (items.foldl (·.mark ports ·) run).host.markCalls = run.host.markCalls + items.length ∧
    (items.foldl (·.mark ports ·) run).done = run.done ++ items.map InboxItem.id ∧
    (items.foldl (·.mark ports ·) run).report.skipped = run.report.skipped ∧
    (items.foldl (·.mark ports ·) run).report.stored = run.report.stored ∧
    (items.foldl (·.mark ports ·) run).host.marked =
      run.host.marked ++ readOf ports run.host.markCalls (items.map InboxItem.id) ∧
    (items.foldl (·.mark ports ·) run).report.unmarked =
      run.report.unmarked ++ unreadOf ports run.host.markCalls (items.map InboxItem.id) := by
  induction items generalizing run with
  | nil => simp [readOf, unreadOf]
  | cons item rest hstep =>
      obtain ⟨hsession, hthread, -, -, hcalls, hdone, hskipped, hstored, hmarked, hunmarked⟩ :=
        @mark_cases C ports run item
      obtain ⟨hsession', hthread', hcalls', hdone', hskipped', hstored', hmarked', hunmarked'⟩ :=
        hstep (run.mark ports item)
      have hfirst : (item :: rest).map InboxItem.id = [item.id] ++ rest.map InboxItem.id := rfl
      refine ⟨hsession'.trans hsession, hthread'.trans hthread, ?_, ?_, hskipped'.trans hskipped,
        hstored'.trans hstored, ?_, ?_⟩
      · rw [List.foldl_cons, hcalls', hcalls, List.length_cons]
        omega
      · rw [List.foldl_cons, hdone', hdone, hfirst, List.append_assoc]
      · rw [List.foldl_cons, hmarked', hmarked, hcalls, hfirst, readOf_append, List.append_assoc]
        rfl
      · rw [List.foldl_cons, hunmarked', hunmarked, hcalls, hfirst, unreadOf_append,
          List.append_assoc]
        rfl

/-- Items stored together, then marked one by one. -/
theorem storeAll_did (run : Run C) (items : List InboxItem) :
    Did ports run (items.foldl (·.mark ports ·) (items.foldl store run)) [] items ∧
      (items.foldl (·.mark ports ·) (items.foldl store run)).session = run.session ∧
      (items.foldl (·.mark ports ·) (items.foldl store run)).host.thread = run.host.thread := by
  obtain ⟨hsession, hthread, hcalls, hdone, hskipped, hstored, hmarked, hunmarked⟩ :=
    @foldl_mark C ports (items.foldl store run) items
  rw [foldl_store] at *
  exact ⟨⟨hdone, by simp [hskipped], hstored, hmarked, hunmarked, hcalls⟩, hsession, hthread⟩

end Parts

end Run

variable [Conversation C]

/-- The thread gains the entries of these identities, in this order and in one place. -/
def Gains (before after : C) (ids : List EntryId) : Prop :=
  ∃ front back, entryIds before = front ++ back ∧ entryIds after = front ++ ids ++ back

namespace Gains

variable {before after : C} {ids : List EntryId}

theorem none (c : C) : Gains c c [] := ⟨entryIds c, [], by simp, by simp⟩

theorem mem_iff (hgains : Gains before after ids) (id : EntryId) :
    id ∈ entryIds after ↔ id ∈ entryIds before ∨ id ∈ ids := by
  obtain ⟨front, back, hold, hnew⟩ := hgains
  rw [hold, hnew]
  simp only [List.mem_append]
  tauto

theorem holds (hgains : Gains before after ids) {id : EntryId} (hheld : holds before id = true) :
    Agentic.holds after id = true :=
  holds_iff.mpr ((hgains.mem_iff id).mpr (Or.inl (holds_iff.mp hheld)))

end Gains


omit [Conversation C] in
/-- An addition through a session whose copy is the thread: refused, lost by the thread access, or
taken by both. -/
theorem Session.add_cases {M : Type} {ports : Ports M} {session : Session C} {host : Host C}
    (apply : C → Except SessionError C) (hsync : session.conversation = host.thread) :
    (∃ refusal, apply host.thread = .error refusal ∧
      session.add ports host apply = (.error refusal, session, host)) ∨
    ∃ thread, apply host.thread = .ok thread ∧
      ((∃ error, session.add ports host apply = (.error (.Port error),
        { session with conversation := thread }, { host with threadCalls := host.threadCalls + 1 }))
      ∨ session.add ports host apply = (.ok (), { session with conversation := thread },
        { host with threadCalls := host.threadCalls + 1, thread })) := by
  unfold add
  rw [hsync]
  rcases happlied : apply host.thread with refusal | thread
  · exact Or.inl ⟨refusal, rfl, rfl⟩
  · refine Or.inr ⟨thread, rfl, ?_⟩
    rcases hanswered : ports.thread host.threadCalls with _ | error
    · exact Or.inr (by simp)
    · exact Or.inl ⟨error, by simp⟩

/-- The turn of this identity gains the entries at its end. -/
def Into (before after : C) (id : TurnId) (entries : List IncomingEntry) : Prop :=
  ∃ front turn back, turns before = front ++ .AITurn turn :: back ∧
    (∀ other ∈ front, other.id ≠ id) ∧ turn.id = id ∧
      turns after = front ++ .AITurn
        { turn with entries := turn.entries ++ entries.map TurnEntry.Incoming } :: back

theorem Into.gains {before after : C} {id : TurnId} {entries : List IncomingEntry}
    (hstored : Into before after id entries) : Gains before after (entries.map IncomingEntry.id) := by
  obtain ⟨front, turn, back, hold, -, -, hnew⟩ := hstored
  refine ⟨front.flatMap Turn.entryIds ++ turn.entries.map TurnEntry.id,
    back.flatMap Turn.entryIds, ?_, ?_⟩
  · simp [entryIds, hold, Turn.entryIds]
  · simp [entryIds, hnew, Turn.entryIds, Function.comp_def, TurnEntry.id]

section Lawful

variable (hlawful : Conversation.Lawful C)

include hlawful

/-- An entry added to a turn that is there goes to its end. -/
theorem applyEntry_into {before after : C} {turn : AiTurnRef} {entry : IncomingEntry}
    (hthere : ∃ held ∈ turns before, held.id = turn.id)
    (hadded : applyEntry before turn (.Incoming entry) = .ok after) :
    Into before after turn.id [entry] := by
  have hfound : turnOf before turn.id ≠ none := by
    intro hmissing
    obtain ⟨held, hmember, hsame⟩ := hthere
    have hapart := List.find?_eq_none.mp hmissing held hmember
    simp [hsame] at hapart
  unfold applyEntry at hadded
  rcases hchecked : existing before turn with refusal | present
  · simp [hchecked, bind, Except.bind] at hadded
  · have hexact : present = true := by
      unfold existing at hchecked
      split at hchecked
      · split at hchecked
        · cases hchecked
          rfl
        · cases hchecked
      · cases hchecked
      · rename_i hmissing
        exact absurd hmissing hfound
    subst hexact
    simp [hchecked, bind, Except.bind] at hadded
    rcases hpushed : Conversation.pushEntry before turn.id (.Incoming entry) with refusal | next
    · simp [hpushed, Except.mapError] at hadded
    · simp [hpushed, Except.mapError] at hadded
      subst hadded
      obtain ⟨front, held, back, hold, hfirst, hsame, hnew⟩ :=
        hlawful.pushEntry before next turn.id _ hpushed
      exact ⟨front, held, back, hold, hfirst, hsame, hnew⟩

omit hlawful in
theorem Into.there {before after : C} {id : TurnId} {entries : List IncomingEntry}
    (hstored : Into before after id entries) : ∃ held ∈ turns after, held.id = id := by
  obtain ⟨front, turn, back, -, -, hsame, hnew⟩ := hstored
  refine ⟨.AITurn { turn with entries := turn.entries ++ entries.map TurnEntry.Incoming }, ?_, hsame⟩
  rw [hnew]
  exact List.mem_append_right _ List.mem_cons_self

end Lawful

omit [Conversation C] in
private theorem first_unique {front front' back back' : List Turn} {turn turn' : Turn} {id : TurnId}
    (hsame : front ++ turn :: back = front' ++ turn' :: back')
    (hbefore : ∀ other ∈ front, other.id ≠ id) (hhere : turn.id = id)
    (hbefore' : ∀ other ∈ front', other.id ≠ id) (hhere' : turn'.id = id) :
    front = front' ∧ turn = turn' ∧ back = back' := by
  induction front generalizing front' with
  | nil =>
      rcases front' with _ | ⟨first, rest⟩
      · simpa using hsame
      · cases hsame
        exact absurd hhere (hbefore' _ List.mem_cons_self)
  | cons first rest hstep =>
      rcases front' with _ | ⟨first', rest'⟩
      · cases hsame
        exact absurd hhere' (hbefore _ List.mem_cons_self)
      · obtain ⟨hhead, htail⟩ := List.cons.inj hsame
        subst hhead
        obtain ⟨rfl, hheld, hrest⟩ := hstep htail
          (fun other hmember => hbefore other (List.mem_cons_of_mem _ hmember))
          (fun other hmember => hbefore' other (List.mem_cons_of_mem _ hmember))
        exact ⟨rfl, hheld, hrest⟩

theorem Into.trans {first next last : C} {id : TurnId} {entries more : List IncomingEntry}
    (hone : Into first next id entries) (htwo : Into next last id more) :
    Into first last id (entries ++ more) := by
  obtain ⟨front, turn, back, hold, hbefore, hsame, hnew⟩ := hone
  obtain ⟨front', turn', back', hold', hbefore', hsame', hnew'⟩ := htwo
  obtain ⟨rfl, hheld, rfl⟩ := first_unique (hnew.symm.trans hold') hbefore hsame hbefore' hsame'
  cases hheld
  refine ⟨front, turn, back, hold, hbefore, hsame, ?_⟩
  rw [hnew']
  simp

/-- A part of a boundary that went through in sync with the thread, stopped without touching it, or
lost the session. -/
def Sync (run : Run C) (outcome : Except SessionError Unit) : Prop :=
  run.session.conversation = run.host.thread ∨ ∃ error, outcome = .error (.Port error)

namespace Run

variable {ports : Ports MailItem}

/-- Storing in a turn: a first part of the items goes to its end, all of them when nothing
fails. -/
def StoresInto (ports : Ports MailItem) (run : Run C) (id : TurnId)
    (fresh : List (InboxItem × IncomingEntry)) (result : Except SessionError Unit × Run C) : Prop :=
  ∃ first rest, fresh = first ++ rest ∧ Did ports run result.2 [] (first.map Prod.fst) ∧
    (result.2.host.thread = run.host.thread ∧ first = [] ∨
      Into run.host.thread result.2.host.thread id (first.map Prod.snd)) ∧
    (result.1 = .ok () → rest = []) ∧ Sync result.2 result.1

omit [Conversation C] in
theorem Did.of_host {run : Run C} (session : Session C) (host : Host C)
    (hmarked : host.marked = run.host.marked) (hcalls : host.markCalls = run.host.markCalls) :
    Did ports run { run with session, host } [] [] := by
  constructor <;> simp [readOf, unreadOf, hmarked, hcalls]

/-- A fault before anything of the rest is stored. -/
private theorem StoresInto.stop {run next : Run C} {id : TurnId}
    {fresh : List (InboxItem × IncomingEntry)} {fault : SessionError}
    (hdid : Did ports run next [] []) (hthread : next.host.thread = run.host.thread)
    (hkept : Sync next (.error fault)) : StoresInto ports run id fresh (.error fault, next) :=
  ⟨[], fresh, rfl, hdid, Or.inl ⟨hthread, rfl⟩, (fun hended => by cases hended), hkept⟩

theorem storeInOpenTurn_did (hlawful : Conversation.Lawful C) (turn : AiTurnRef)
    (fresh : List (InboxItem × IncomingEntry)) (run : Run C)
    (hsync : run.session.conversation = run.host.thread)
    (hthere : ∃ held ∈ turns run.host.thread, held.id = turn.id) :
    StoresInto ports run turn.id fresh (run.storeInOpenTurn ports turn fresh) := by
  induction fresh generalizing run with
  | nil => exact ⟨[], [], rfl, .refl run, Or.inl ⟨rfl, rfl⟩, fun _ => rfl, Or.inl hsync⟩
  | cons one later hstep =>
      obtain ⟨item, entry⟩ := one
      unfold storeInOpenTurn
      rcases htried : Conversation.tryTurnEntry run.session.conversation entry with error | made
      · exact .stop (.refl run) rfl (Or.inl hsync)
      · have hsame := hlawful.tryTurnEntry _ _ _ htried
        subst hsame
        dsimp only
        rcases @Session.add_cases C _ ports _ _ (applyEntry · turn (.Incoming entry)) hsync with
          ⟨refusal, -, hadded⟩ | ⟨thread, happlied, ⟨error, hadded⟩ | hadded⟩
        · rw [Session.addEntry, hadded]
          exact .stop (.of_host _ _ rfl rfl) rfl (Or.inl hsync)
        · rw [Session.addEntry, hadded]
          exact .stop (.of_host _ _ rfl rfl) rfl (Or.inr ⟨error, rfl⟩)
        · rw [Session.addEntry, hadded]
          dsimp only
          have hinto := applyEntry_into hlawful hthere happlied
          generalize htaken : ({ run with
            session := { run.session with conversation := thread }
            host := { run.host with threadCalls := run.host.threadCalls + 1, thread } } : Run C)
              = added
          have hmoved : Did ports run added [] [] := by
            rw [← htaken]
            exact .of_host _ _ rfl rfl
          obtain ⟨hdid, hsession, hkept⟩ := @store_did C ports added item
          have hinsync : ((added.store item).mark ports item).session.conversation =
              ((added.store item).mark ports item).host.thread := by
            rw [hsession, hkept, ← htaken]
          have hhere : ((added.store item).mark ports item).host.thread = thread := by
            rw [hkept, ← htaken]
          obtain ⟨first, rest, hsame, hlater, hgained, hended, hsynced⟩ :=
            hstep _ hinsync (by rw [hhere]; exact hinto.there)
          refine ⟨(item, entry) :: first, rest, by rw [hsame]; rfl,
            ((hmoved.store hdid).store hlater), Or.inr ?_, hended, hsynced⟩
          rw [hhere] at hgained
          rcases hgained with ⟨hstill, rfl⟩ | hmore
          · rw [hstill]
            exact hinto
          · exact hinto.trans hmore

/-- Storing: a first part of the items is gained by the thread, all of them when nothing fails. -/
def Stores (ports : Ports MailItem) (run : Run C) (fresh : List (InboxItem × IncomingEntry))
    (result : Except SessionError Unit × Run C) : Prop :=
  ∃ first rest, fresh = first ++ rest ∧ Did ports run result.2 [] (first.map Prod.fst) ∧
    Gains run.host.thread result.2.host.thread (first.map fun made => made.2.id) ∧
    (result.1 = .ok () → rest = []) ∧ Sync result.2 result.1

theorem StoresInto.stores {run : Run C} {id : TurnId} {fresh : List (InboxItem × IncomingEntry)}
    {result : Except SessionError Unit × Run C} (hinto : StoresInto ports run id fresh result) :
    Stores ports run fresh result := by
  obtain ⟨first, rest, hsame, hdid, hgained, hended, hsync⟩ := hinto
  refine ⟨first, rest, hsame, hdid, ?_, hended, hsync⟩
  rcases hgained with ⟨hstill, rfl⟩ | hstored
  · rw [hstill]
    exact .none _
  · simpa [Function.comp_def] using hstored.gains

/-- Storing in a new input turn is all or nothing. -/
theorem storeInNewInputTurn_stores (hlawful : Conversation.Lawful C) (turn : TurnId)
    (fresh : List (InboxItem × IncomingEntry)) (run : Run C)
    (hsync : run.session.conversation = run.host.thread) :
    Stores ports run fresh (run.storeInNewInputTurn ports turn fresh) := by
  have hnothing : ∀ (fault : SessionError) (session : Session C) (host : Host C),
      host.marked = run.host.marked → host.markCalls = run.host.markCalls →
      host.thread = run.host.thread → Sync { run with session, host } (.error fault) →
      Stores ports run fresh (.error fault, { run with session, host }) :=
    fun fault session host hmarked hcalls hthread hkept =>
      ⟨[], fresh, rfl, .of_host _ _ hmarked hcalls, hthread ▸ .none _, (fun hended => by cases hended),
        hkept⟩
  unfold storeInNewInputTurn
  split
  · rename_i hempty
    rw [List.isEmpty_iff.mp hempty]
    exact ⟨[], [], rfl, .refl run, .none _, fun _ => rfl, Or.inl hsync⟩
  · rcases hbuilt : Conversation.newInputTurn run.session.conversation turn (fresh.map Prod.snd)
      with error | made
    · exact hnothing (.Rules error) run.session run.host rfl rfl rfl (Or.inl hsync)
    · have hsame := hlawful.newInputTurn _ _ _ _ hbuilt
      subst hsame
      dsimp only
      rcases @Session.add_cases C _ ports _ _ (applyInputTurn · ⟨turn, fresh.map Prod.snd⟩) hsync
        with ⟨refusal, -, hadded⟩ | ⟨thread, happlied, ⟨error, hadded⟩ | hadded⟩
      · rw [Session.addInputTurn, hadded]
        exact hnothing refusal run.session run.host rfl rfl rfl (Or.inl hsync)
      · rw [Session.addInputTurn, hadded]
        exact hnothing (.Port error) _ _ rfl rfl rfl (Or.inr ⟨error, rfl⟩)
      · rw [Session.addInputTurn, hadded]
        dsimp only
        generalize htaken : ({ run with
          session := { run.session with conversation := thread }
          host := { run.host with threadCalls := run.host.threadCalls + 1, thread } } : Run C)
            = added
        have hmoved : Did ports run added [] [] := by
          rw [← htaken]
          exact .of_host _ _ rfl rfl
        obtain ⟨hdid, hsession, hkept⟩ := @storeAll_did C ports added (fresh.map Prod.fst)
        refine ⟨fresh, [], by simp, hmoved.store hdid, ?_, fun _ => rfl, Or.inl ?_⟩
        · rw [hkept, ← htaken]
          have hpushed : turns thread =
              turns run.host.thread ++ [.InputTurn ⟨turn, fresh.map Prod.snd⟩] := by
            unfold applyInputTurn at happlied
            rcases hpushed : Conversation.pushTurn run.host.thread
              (.InputTurn ⟨turn, fresh.map Prod.snd⟩) with refusal | next
            · simp [hpushed, Except.mapError] at happlied
            · simp [hpushed, Except.mapError] at happlied
              subst happlied
              exact hlawful.pushTurn _ _ _ hpushed
          refine ⟨entryIds run.host.thread, [], by simp, ?_⟩
          simp [entryIds, hpushed, Turn.entryIds, Function.comp_def]
        · rw [hsession, hkept, ← htaken]

end Run

omit [Conversation C] in
/-- A built entry is the entry of its item. -/
private theorem build_spec (ports : Ports MailItem) (host : Host C) (item : InboxItem) :
    (∃ calls, (build ports host item).2 = { host with mailCalls := calls }) ∧
      ∀ entry, (build ports host item).1 = .ok entry → entry.id = item.id := by
  unfold build
  cases item with
  | Entry own =>
      refine ⟨⟨host.mailCalls, rfl⟩, fun entry hbuilt => ?_⟩
      cases hbuilt
      rfl
  | Mail mail =>
      dsimp only
      split
      · exact ⟨⟨_, rfl⟩, fun entry hbuilt => by cases hbuilt⟩
      · split
        · rename_i entry hanswered hfits
          refine ⟨⟨_, rfl⟩, fun other hbuilt => ?_⟩
          cases hbuilt
          unfold isEntryOf at hfits
          exact eq_of_beq (Bool.and_eq_true_iff.mp hfits).1
        · exact ⟨⟨_, rfl⟩, fun entry hbuilt => by cases hbuilt⟩

/-- What the first loop of a boundary sorts: the items that the copy holds, and the others with an
entry of their identity. -/
theorem sort_spec (ports : Ports MailItem) (session : Session C) (pending : List InboxItem)
    (host : Host C) :
    (∃ calls, (sort ports session host pending).2 = { host with mailCalls := calls }) ∧
    ∀ held fresh, (sort ports session host pending).1 = .ok (held, fresh) →
      held = pending.filter (session.holds ·.id) ∧
      fresh.map Prod.fst = pending.filter (!session.holds ·.id) ∧
      fresh.map (fun made => made.2.id) = (fresh.map Prod.fst).map InboxItem.id := by
  induction pending generalizing host with
  | nil =>
      refine ⟨⟨host.mailCalls, rfl⟩, fun held fresh hsorted => ?_⟩
      cases hsorted
      exact ⟨rfl, rfl, rfl⟩
  | cons item rest hstep =>
      unfold sort
      by_cases hpresent : session.holds item.id = true
      · rw [if_pos hpresent]
        obtain ⟨hcalls, hspec⟩ := hstep host
        rcases hsorted : sort ports session host rest with ⟨fault | ⟨held, fresh⟩, after⟩
        · rw [hsorted] at hcalls
          exact ⟨hcalls, fun held fresh himpossible => by cases himpossible⟩
        · rw [hsorted] at hcalls hspec
          refine ⟨hcalls, fun held' fresh' hsame => ?_⟩
          cases hsame
          obtain ⟨hkept, hmade, hids⟩ := hspec held fresh rfl
          exact ⟨by simp [hpresent, hkept], by simp [hpresent, hmade], hids⟩
      · rw [if_neg hpresent]
        obtain ⟨⟨calls, hafter⟩, hown⟩ := build_spec ports host item
        rcases hbuilt : build ports host item with ⟨fault | entry, next⟩
        · rw [hbuilt] at hafter
          exact ⟨⟨calls, hafter⟩, fun held fresh himpossible => by cases himpossible⟩
        · rw [hbuilt] at hafter hown
          obtain ⟨⟨more, hlast⟩, hspec⟩ := hstep next
          have hreached : ∃ calls, (sort ports session next rest).2 =
              { host with mailCalls := calls } := by
            have hhere : next = { host with mailCalls := calls } := hafter
            exact ⟨more, by rw [hlast, hhere]⟩
          dsimp only
          rcases hsorted : sort ports session next rest with ⟨fault | ⟨held, fresh⟩, final⟩
          · rw [hsorted] at hreached
            exact ⟨hreached, fun held fresh himpossible => by cases himpossible⟩
          · rw [hsorted] at hreached hspec
            refine ⟨hreached, fun held' fresh' hsame => ?_⟩
            cases hsame
            obtain ⟨hkept, hmade, hids⟩ := hspec held fresh rfl
            have habsent : session.holds item.id = false := by simpa using hpresent
            refine ⟨by simp [habsent, hkept], by simp [habsent, hmade], ?_⟩
            simp [hids, hown entry rfl]

/-- The open turn is a turn of the copy. -/
theorem openAiTurn_there {session : Session C} {agent : AgentId} {turn : AiTurnRef}
    (hopened : session.openAiTurn agent = some turn) :
    ∃ held ∈ turns session.conversation, held.id = turn.id := by
  obtain ⟨ai, hfound, rfl⟩ := Option.map_eq_some_iff.mp hopened
  obtain ⟨held, hmember, hsame⟩ := List.mem_filterMap.mp (List.mem_of_find?_eq_some hfound)
  refine ⟨held, List.mem_reverse.mp hmember, ?_⟩
  cases held with
  | InputTurn turn => cases hsame
  | AITurn turn =>
      cases hsame
      rfl

/-- A boundary: the held items are skipped and a first part of the others is gained by the thread,
or it faults before either. -/
structure Bounded (ports : Ports MailItem) (session : Session C) (host : Host C) (queue : Queue)
    (result : Except SessionError Unit × Run C) : Prop where
  parts : ∃ skips first rest,
    (skips = queue.filter (session.holds ·.id) ∧
        first ++ rest = queue.filter (!session.holds ·.id) ∧ (result.1 = .ok () → rest = []) ∨
      skips = [] ∧ first = [] ∧ result.1 ≠ .ok ()) ∧
    Run.Did ports ⟨session, host, [], .empty⟩ result.2 skips first ∧
    Gains host.thread result.2.host.thread (first.map InboxItem.id)
  sync : Sync result.2 result.1

theorem runBoundary_bounded {ports : Ports MailItem} (hlawful : Conversation.Lawful C)
    {session : Session C} {host : Host C} (hsync : session.conversation = host.thread)
    (agent : AgentId) (queue : Queue) (newTurn : TurnId) :
    Bounded ports session host queue
      (runBoundary ports ⟨session, host, [], .empty⟩ agent queue newTurn) := by
  unfold runBoundary
  obtain ⟨⟨calls, hafter⟩, hspec⟩ := sort_spec ports session queue host
  rcases hsorted : sort ports session host queue with ⟨fault | ⟨held, fresh⟩, next⟩
  · rw [hsorted] at hafter
    have hhere : next = { host with mailCalls := calls } := hafter
    subst hhere
    refine ⟨⟨[], [], [], Or.inr ⟨rfl, rfl, by simp⟩, .of_host _ _ rfl rfl, .none _⟩, Or.inl hsync⟩
  · rw [hsorted] at hafter hspec
    have hhere : next = { host with mailCalls := calls } := hafter
    subst hhere
    obtain ⟨hkept, hmade, hids⟩ := hspec held fresh rfl
    dsimp only
    obtain ⟨hskipped, hsame, hthread⟩ := @Run.skipHeld_did C ports
      ⟨session, { host with mailCalls := calls }, [], .empty⟩ held
    generalize Run.skipHeld ports ⟨session, { host with mailCalls := calls }, [], .empty⟩ held = run
      at hskipped hsame hthread
    have hinsync : run.session.conversation = run.host.thread := by
      rw [hsame, hthread]
      exact hsync
    have hfinish : ∀ result, Run.Stores ports run fresh result →
        Bounded ports session host queue result := by
      rintro result ⟨first, rest, hsplit, hdid, hgains, hended, hsynced⟩
      have hall := hskipped.store hdid
      refine ⟨⟨held, first.map Prod.fst, rest.map Prod.fst, Or.inl ⟨hkept, ?_, fun hdone => ?_⟩,
        ⟨hall.done, hall.skipped, hall.stored, hall.marked, hall.unmarked, hall.calls⟩, ?_⟩, hsynced⟩
      · rw [← hmade, hsplit, List.map_append]
      · rw [hended hdone]
        rfl
      · rw [hthread] at hgains
        have hnamed : first.map (fun made => made.2.id) = (first.map Prod.fst).map InboxItem.id := by
          rw [hsplit, List.map_append, List.map_append, List.map_append] at hids
          exact (List.append_inj hids (by simp)).1
        rw [← hnamed]
        exact hgains
    rcases hopened : run.session.openAiTurn agent with _ | turn
    · exact hfinish _ (Run.storeInNewInputTurn_stores hlawful newTurn fresh run hinsync)
    · refine hfinish _ (Run.storeInOpenTurn_did hlawful turn fresh run hinsync ?_).stores
      rw [← hinsync]
      exact openAiTurn_there hopened

end LlmGraph.Agentic
