/- digest: Steps through one slot: which clients are called and in which order, that one response is
   open at most, and on which failures a step faults. -/

import Mathlib.Data.List.Infix
import LlmGraph.Agentic.Untouched

set_option autoImplicit false
set_option relaxedAutoImplicit false

namespace LlmGraph.Agentic

open Lib (Act)
open Lib.Act (Holds)

section Effects

namespace Effect

def client? : Effect → Option ModelClient
  | Called client => some client
  | _ => none

end Effect

/-- The clients called, in order. -/
def called (log : List Effect) : List ModelClient := log.filterMap Effect.client?

/-- The responses that are open after a log, when those of `held` are before. -/
def opened (held : List EntryId) : List Effect → List EntryId
  | [] => held
  | .Opened entry :: rest => opened (Session.track held entry) rest
  | .Discarded entry :: rest | .Completed entry :: rest => opened (held.filter (· != entry)) rest
  | _ :: rest => opened held rest

/-- At every moment of a log one response is open at most. -/
def OneOpen (held : List EntryId) (log : List Effect) : Prop :=
  ∀ seen, seen <+: log → (opened held seen).length ≤ 1

variable {held : List EntryId} {log more : List Effect}

theorem opened_append : opened held (log ++ more) = opened (opened held log) more := by
  induction log generalizing held with
  | nil => rfl
  | cons effect rest hind =>
      cases effect with
      | Opened | Discarded | Completed => exact hind
      | _ => exact hind

theorem OneOpen.append (hfirst : OneOpen held log) (hmore : OneOpen (opened held log) more) :
    OneOpen held (log ++ more) := by
  intro seen hseen
  rcases List.prefix_or_prefix_of_prefix hseen (List.prefix_append log more) with hbefore | hafter
  · exact hfirst seen hbefore
  · obtain ⟨later, rfl⟩ := hafter
    rw [opened_append]
    exact hmore later ((List.prefix_append_right_inj log).mp hseen)

end Effects

variable {C : Type}

/-- From the worker `start` the log has grown by some effects, and these responses are open. -/
structure Reached (start : Worker C) (effects : List Effect) (responses : List EntryId)
    (worker : Worker C) : Prop where
  log : worker.log = start.log ++ effects
  responses : worker.session.responses = responses

theorem Reached.timeless (start : Worker C) (effects : List Effect) (responses : List EntryId) :
    Timeless (Reached start effects responses) :=
  fun _ _ _ hreached => ⟨hreached.log, hreached.responses⟩

section Calls

variable {start : Worker C} {effects : List Effect} {responses : List EntryId}
  {exit : Stop → Worker C → Prop}

private theorem emit_reached (more : List Effect) :
    Holds (Reached start effects responses) (Worker.emit more : Doing C Unit)
      (fun _ => Reached start (effects ++ more) responses) exit :=
  .modify fun worker hreached => ⟨by rw [hreached.log, List.append_assoc], hreached.responses⟩

private theorem openResponse_reached [Conversation C] (env : Env) (entry : EntryId)
    (hleaves : Leaves (Reached start effects []) exit) :
    Holds (Reached start effects []) (Worker.openResponse env entry : Doing C Unit)
      (fun _ => Reached start (effects ++ [.Opened entry]) [entry]) exit := by
  have htimeless := Reached.timeless start effects []
  refine .bind _ (await_holds htimeless hleaves env) fun _ => ?_
  refine .bind _ (ask_holds htimeless env.openAnswer) fun answer => ?_
  rcases answer with _ | error
  · refine .bind (fun _ => Reached start effects [entry]) (.modify fun worker hreached => ?_)
      fun _ => emit_reached _
    refine ⟨hreached.log, ?_⟩
    show Session.track worker.session.responses entry = [entry]
    rw [hreached.responses]
    rfl
  · exact fault_holds hleaves fun _ hsame => by cases hsame

private theorem discardResponse_reached [Conversation C] (env : Env) (entry : EntryId)
    (hleaves : ∀ part, part <+: [.Discarded entry, .DiscardFailed entry] →
      Leaves (Reached start (effects ++ part) []) exit) :
    Holds (Reached start effects [entry]) (Worker.discardResponse env entry : Doing C Unit)
      (fun _ => Reached start (effects ++ [.Discarded entry]) []) exit := by
  refine .bind (fun _ => Reached start effects []) (.modify fun worker hreached => ?_) fun _ => ?_
  · refine ⟨hreached.log, ?_⟩
    show worker.session.responses.filter (· != entry) = []
    rw [hreached.responses]
    simp
  refine .bind _ (emit_reached _) fun _ => ?_
  have htimeless := Reached.timeless start (effects ++ [.Discarded entry]) []
  refine .bind _ (await_holds htimeless (hleaves _ ⟨[.DiscardFailed entry], rfl⟩) env) fun _ => ?_
  refine .bind _ (ask_holds htimeless env.discardAnswer) fun answer => ?_
  rcases answer with _ | error
  · exact .pure fun _ hreached => hreached
  · refine .bind _ (emit_reached _) fun _ => ?_
    rw [List.append_assoc]
    exact fault_holds (hleaves _ (List.prefix_refl _)) fun _ hsame => by cases hsame

end Calls

/-- The effects of an attempt that fails, and is then to be discarded. -/
def failed (entry : EntryId) (client : ModelClient) : List Effect :=
  [.Opened entry, .Called client, .Discarded entry]

/-- The effects of an attempt that is answered. -/
def answered (entry : EntryId) (client : ModelClient) : List Effect :=
  [.Opened entry, .Called client, .Completed entry]

/-- What an attempt has come to when it stops. -/
def Broken (entry : EntryId) (client : ModelClient) (part : List Effect) : Prop :=
  part <+: failed entry client ++ [.DiscardFailed entry]

/-- Documented of the clients: a response carries the entry that its request asks for. -/
def Env.Entitles (env : Env) : Prop := ∀ moment client entry reply,
  env.client moment client entry = some (.ok reply) → reply.response.id = entry

section Attempts

variable [Conversation C] {env : Env} {start : Worker C} {effects : List Effect}

/-- An act stopped within an attempt on a client, by a fatal error. -/
def StoppedIn (start : Worker C) (effects : List Effect) (client : ModelClient) (reason : Stop)
    (worker : Worker C) : Prop :=
  reason.Fatal ∧ ∃ entry part responses, Broken entry client part ∧
    Reached start (effects ++ part) responses worker

private theorem checked_ok {worker : Worker C} {turn : AiTurnRef} {covered : Bool}
    {client : ModelClient} {answer : Option (Except String Reply)} {response : ModelResponse}
    (hchecked : Worker.checked env worker turn covered client answer = .ok response) :
    ∃ reply, answer = some (.ok reply) ∧ reply.response = response := by
  rcases answer with _ | error | reply
  · cases hchecked
  · cases hchecked
  · refine ⟨reply, rfl, ?_⟩
    unfold Worker.checked at hchecked
    dsimp only [bind, Except.bind] at hchecked
    split at hchecked
    · split at hchecked
      · cases hchecked
      · split at hchecked
        · split at hchecked
          · cases hchecked
          · exact Except.ok.inj hchecked
        · exact Except.ok.inj hchecked
    · split at hchecked
      · split at hchecked
        · cases hchecked
        · exact Except.ok.inj hchecked
      · exact Except.ok.inj hchecked

theorem attempt_holds (hentitles : env.Entitles) (turn : AiTurnRef) (covered : Bool)
    (client : ModelClient) :
    Holds (Reached start effects []) (Worker.attempt env turn covered client)
      (fun result worker => ∃ entry,
        (∃ response, result = .ok response ∧ response.id = entry ∧
          Reached start (effects ++ [.Opened entry, .Called client]) [entry] worker) ∨
        ∃ failure, result = .error failure ∧
          Reached start (effects ++ failed entry client) [] worker)
      (StoppedIn start effects client) := by
  have hstopped (entry : EntryId) {part : List Effect} (responses : List EntryId)
      (hpart : Broken entry client part) :
      Leaves (Reached start (effects ++ part) responses) (StoppedIn start effects client) :=
    fun reason worker hfatal hreached => ⟨hfatal, entry, part, responses, hpart, hreached⟩
  have hbefore : Leaves (Reached start effects []) (StoppedIn start effects client) := by
    have hnone := hstopped 0 [] List.nil_prefix
    rw [List.append_nil] at hnone
    exact hnone
  have htimeless := Reached.timeless start effects []
  unfold Worker.attempt
  refine .bind _ (answer_holds htimeless hbefore env.entryId) fun entry => ?_
  refine .bind _ (ask_holds htimeless env.request) fun result => ?_
  refine .bind _ (value_holds hbefore result) fun _ => ?_
  refine .bind _ (openResponse_reached env entry hbefore) fun _ => ?_
  refine .bind _ (emit_reached _) fun _ => ?_
  rw [List.append_assoc]
  refine .bind _ (await_holds (Reached.timeless start _ [entry])
    (hstopped entry _ ⟨[.Discarded entry, .DiscardFailed entry], rfl⟩) env) fun _ => ?_
  refine .bind (fun answer worker => (∃ moment, answer = env.client moment client entry) ∧
    Reached start (effects ++ [.Opened entry, .Called client]) [entry] worker) ?_ fun answer => ?_
  · exact fun worker hreached => .inl ⟨_, _, rfl, ⟨_, rfl⟩, hreached.log, hreached.responses⟩
  refine .read fun seen hseen => ?_
  obtain ⟨⟨moment, hanswer⟩, hreached⟩ := hseen
  rcases hchecked : Worker.checked env seen turn covered client answer with failure | response
  · refine .bind (fun _ => Reached start (effects ++ failed entry client) []) ?_ fun _ => ?_
    · have hdiscards : Holds
          (Reached start (effects ++ [.Opened entry, .Called client]) [entry])
          (Worker.discardResponse env entry : Doing C Unit)
          (fun _ => Reached start (effects ++ [.Opened entry, .Called client] ++
            [.Discarded entry]) []) (StoppedIn start effects client) := by
        refine discardResponse_reached env entry fun part hpart => ?_
        have hbroken : Broken entry client ([.Opened entry, .Called client] ++ part) := by
          obtain ⟨rest, hrest⟩ := hpart
          exact ⟨rest, by rw [List.append_assoc, hrest]; rfl⟩
        rw [List.append_assoc]
        exact hstopped entry [] hbroken
      rw [List.append_assoc] at hdiscards
      exact hdiscards.imp (fun worker hsame => hsame ▸ hreached) (fun _ _ hlast => hlast)
        fun _ _ hlast => hlast
    · exact .pure fun worker hlast => ⟨entry, .inr ⟨failure, rfl, hlast⟩⟩
  · obtain ⟨reply, hreply, hresponse⟩ := checked_ok hchecked
    refine .pure fun worker hsame => ⟨entry, .inl ⟨response, rfl, ?_, hsame ▸ hreached⟩⟩
    rw [← hresponse]
    exact hentitles moment client entry reply (hanswer ▸ hreply)

end Attempts

/-- The clients that a step through the slot may call, in the order in which it does. -/
def Slot.tries (slot : Slot) : List ModelClient :=
  match slot.settled with
  | none => slot.list.clients
  | some index => slot.list.clients[index]?.toList

/-- A slot that is settled is so on a client of its list. -/
def Slot.Proper (slot : Slot) : Prop := ∀ index, slot.settled = some index →
  index < slot.list.clients.length

/-- The log of attempts on clients, each with whether it was answered, and of other things. -/
inductive Attempts : List (ModelClient × Bool) → List Effect → Prop
  | none : Attempts [] []
  | failed {made : List (ModelClient × Bool)} {log : List Effect} (entry : EntryId)
      (client : ModelClient) (hbefore : Attempts made log) :
      Attempts (made ++ [(client, false)]) (log ++ failed entry client)
  | answered {made : List (ModelClient × Bool)} {log : List Effect} (entry : EntryId)
      (client : ModelClient) (hbefore : Attempts made log) :
      Attempts (made ++ [(client, true)]) (log ++ answered entry client)
  | quiet {made : List (ModelClient × Bool)} {log effects : List Effect} (hbefore : Attempts made log)
      (hquiet : ∀ effect ∈ effects, effect.ofModel = false) : Attempts made (log ++ effects)

/-- Clients that were attempted and failed. -/
def failures (clients : List ModelClient) : List (ModelClient × Bool) := clients.map (·, false)

section Tries

variable {slot : Slot}

theorem Slot.candidate_eq (slot : Slot) (tried : Nat) :
    slot.candidate tried = slot.tries[tried]?.map fun client => (slot.settled.getD tried, client) := by
  obtain ⟨list, _ | index⟩ := slot
  · rfl
  · unfold Slot.candidate Slot.tries
    dsimp only
    rcases hclient : list.clients[index]? with _ | client
    · cases tried <;> simp [hclient]
    · cases tried <;> simp [hclient]

private theorem toList_length (client : Option ModelClient) : client.toList.length ≤ 1 := by
  cases client with
  | none => exact Nat.zero_le 1
  | some client => exact Nat.le_refl 1

theorem Slot.maySwitch_iff (slot : Slot) (tried : Nat) :
    slot.maySwitch tried = true ↔ tried + 1 < slot.tries.length := by
  obtain ⟨list, _ | index⟩ := slot
  · unfold Slot.maySwitch Slot.tries
    simp
  · have hone := toList_length list.clients[index]?
    unfold Slot.maySwitch Slot.tries
    simp only [Option.isNone_some, Bool.false_and, Bool.false_eq_true, false_iff]
    omega

theorem Slot.tries_length_le (slot : Slot) : slot.tries.length ≤ slot.list.clients.length := by
  obtain ⟨list, _ | index⟩ := slot
  · exact Nat.le_refl _
  · exact (toList_length _).trans (List.length_pos_iff.mpr list.nonempty)

theorem Slot.Proper.tries_pos (hproper : slot.Proper) : 0 < slot.tries.length := by
  obtain ⟨list, _ | index⟩ := slot
  · exact List.length_pos_iff.mpr list.nonempty
  · unfold Slot.tries
    dsimp only
    rw [List.getElem?_eq_getElem (hproper index rfl)]
    exact Nat.one_pos

private theorem opened_quiet {effects : List Effect} (held : List EntryId)
    (hquiet : ∀ effect ∈ effects, effect.ofModel = false) : opened held effects = held := by
  induction effects with
  | nil => rfl
  | cons effect rest hind =>
      have hother := hquiet effect List.mem_cons_self
      have hrest := hind fun effect heffect => hquiet effect (List.mem_cons_of_mem _ heffect)
      cases effect with
      | Opened | Discarded | Completed => cases hother
      | _ => exact hrest

theorem Attempts.opened {made : List (ModelClient × Bool)} {log : List Effect}
    (hattempts : Attempts made log) : opened [] log = [] := by
  induction hattempts with
  | none => rfl
  | failed entry client hbefore hind =>
      rw [opened_append, hind]
      simp [Agentic.failed, Agentic.opened, Session.track]
  | answered entry client hbefore hind =>
      rw [opened_append, hind]
      simp [Agentic.answered, Agentic.opened, Session.track]
  | quiet hbefore hquiet hind => rw [opened_append, hind, opened_quiet [] hquiet]

theorem Attempts.append {made after : List (ModelClient × Bool)} {log more : List Effect}
    (hfirst : Attempts made log) (hmore : Attempts after more) :
    Attempts (made ++ after) (log ++ more) := by
  induction hmore with
  | none =>
      rw [List.append_nil, List.append_nil]
      exact hfirst
  | failed entry client hbefore hind =>
      rw [← List.append_assoc, ← List.append_assoc]
      exact hind.failed entry client
  | answered entry client hbefore hind =>
      rw [← List.append_assoc, ← List.append_assoc]
      exact hind.answered entry client
  | quiet hbefore hquiet hind =>
      rw [← List.append_assoc]
      exact hind.quiet hquiet

private theorem opened_le_quiet {effects : List Effect} {held : List EntryId}
    (hheld : held.length ≤ 1) (hquiet : ∀ effect ∈ effects, effect.ofModel = false) :
    OneOpen held effects := by
  intro seen hseen
  rw [opened_quiet held fun effect heffect => hquiet effect (hseen.subset heffect)]
  exact hheld

/-- While an object is opened, called and ended, one is open at most. -/
theorem oneOpen_attempt {part : List Effect} {entry : EntryId} {client : ModelClient}
    {last : Effect} (hlast : last = .Discarded entry ∨ last = .Completed entry)
    (hpart : part <+: [.Opened entry, .Called client, last, .DiscardFailed entry]) :
    OneOpen [] part := by
  intro seen hseen
  have hwhole := hseen.trans hpart
  rcases seen with _ | ⟨first, rest⟩
  · exact Nat.zero_le 1
  obtain ⟨rfl, hsecond⟩ := List.cons_prefix_cons.mp hwhole
  rcases rest with _ | ⟨second, rest⟩
  · exact Nat.le_refl 1
  obtain ⟨rfl, hthird⟩ := List.cons_prefix_cons.mp hsecond
  rcases rest with _ | ⟨third, rest⟩
  · exact Nat.le_refl 1
  obtain ⟨rfl, hfourth⟩ := List.cons_prefix_cons.mp hthird
  rcases rest with _ | ⟨fourth, rest⟩
  · rcases hlast with rfl | rfl
    · simp [Agentic.opened, Session.track]
    · simp [Agentic.opened, Session.track]
  obtain ⟨rfl, hnil⟩ := List.cons_prefix_cons.mp hfourth
  cases List.prefix_nil.mp hnil
  rcases hlast with rfl | rfl
  · simp [Agentic.opened, Session.track]
  · simp [Agentic.opened, Session.track]

theorem Attempts.oneOpen {made : List (ModelClient × Bool)} {log : List Effect}
    (hattempts : Attempts made log) : OneOpen [] log := by
  induction hattempts with
  | none =>
      intro seen hseen
      cases List.prefix_nil.mp hseen
      exact Nat.zero_le 1
  | failed entry client hbefore hind =>
      refine hind.append ?_
      rw [hbefore.opened]
      exact oneOpen_attempt (.inl rfl) (List.prefix_append _ _)
  | answered entry client hbefore hind =>
      refine hind.append ?_
      rw [hbefore.opened]
      exact oneOpen_attempt (.inr rfl) (List.prefix_append _ _)
  | quiet hbefore hquiet hind =>
      refine hind.append ?_
      rw [hbefore.opened]
      exact opened_le_quiet (Nat.zero_le 1) hquiet

theorem Broken.oneOpen {entry : EntryId} {client : ModelClient} {part : List Effect}
    (hbroken : Broken entry client part) : OneOpen [] part := oneOpen_attempt (.inl rfl) hbroken

end Tries

section Driving

variable [Conversation C] {env : Env} {start : Worker C} {slot : Slot}

/-- A client has answered, after those before it in the slot failed; its response is open. -/
def Answered (start : Worker C) (slot : Slot) (result : ModelResponse × Slot) (worker : Worker C) :
    Prop :=
  ∃ place client before, slot.tries[place]? = some client ∧
    Attempts (failures (slot.tries.take place)) before ∧
    result.2 = { slot with settled := some (slot.settled.getD place) } ∧
    Reached start (before ++ [.Opened result.1.id, .Called client]) [result.1.id] worker

/-- The loop stopped within an attempt, or the last client of the slot failed. -/
def DriveStopped (start : Worker C) (slot : Slot) (reason : Stop) (worker : Worker C) : Prop :=
  (∃ place client before, slot.tries[place]? = some client ∧
    Attempts (failures (slot.tries.take place)) before ∧ StoppedIn start before client reason worker) ∨
  ∃ failure log, reason = .Fault (.Model failure) ∧ Attempts (failures slot.tries) log ∧
    Reached start log [] worker

theorem driveFrom_holds (hentitles : env.Entitles) (turn : AiTurnRef) (covered : Bool)
    {bound tried : Nat} {before : List Effect} (hbound : slot.tries.length - tried ≤ bound)
    (htried : tried < slot.tries.length) (hbefore : Attempts (failures (slot.tries.take tried)) before) :
    Holds (Reached start before []) (driveFrom slot (Worker.attempt env turn covered) bound tried)
      (Answered start slot) (DriveStopped start slot) := by
  induction bound generalizing tried before with
  | zero => omega
  | succ bound hind =>
      have hclient := List.getElem?_eq_getElem htried
      have hfailures (entry : EntryId) : Attempts (failures (slot.tries.take (tried + 1)))
          (before ++ failed entry slot.tries[tried]) := by
        rw [List.take_succ_eq_append_getElem htried, failures, List.map_append]
        exact .failed entry _ hbefore
      unfold driveFrom
      rw [slot.candidate_eq, hclient]
      dsimp only [Option.map_some]
      refine .bind _ ((attempt_holds hentitles turn covered slot.tries[tried]).imp
        (fun _ hreached => hreached) (fun _ _ hends => hends) fun reason worker hstopped =>
          .inl ⟨tried, _, before, hclient, hbefore, hstopped⟩) fun result => ?_
      rcases result with failure | response
      · by_cases hmore : slot.maySwitch tried = true
        · dsimp only
          rw [if_pos hmore]
          refine .ghost fun seen hseen => ?_
          obtain ⟨entry, ⟨_, himpossible, -⟩ | ⟨_, -, hreached⟩⟩ := hseen
          · cases himpossible
          · have hnext := hind (by omega) ((slot.maySwitch_iff tried).mp hmore) (hfailures entry)
            exact hnext.imp (fun worker hsame => hsame ▸ hreached) (fun _ _ hends => hends)
              fun _ _ hends => hends
        · dsimp only
          rw [if_neg hmore]
          refine .stop fun worker hseen => ?_
          obtain ⟨entry, ⟨_, himpossible, -⟩ | ⟨_, -, hreached⟩⟩ := hseen
          · cases himpossible
          · have hall : slot.tries.take (tried + 1) = slot.tries := by
              have hlast := mt (slot.maySwitch_iff tried).mpr hmore
              exact List.take_of_length_le (Nat.not_lt.mp hlast)
            have hevery := hfailures entry
            rw [hall] at hevery
            exact .inr ⟨failure, _, rfl, hevery, hreached⟩
      · refine .pure fun worker hseen => ?_
        obtain ⟨entry, ⟨other, hsame, rfl, hreached⟩ | ⟨_, himpossible, -⟩⟩ := hseen
        · cases hsame
          exact ⟨tried, _, before, hclient, hbefore, rfl, hreached⟩
        · cases himpossible

theorem drive_holds (hentitles : env.Entitles) (hproper : slot.Proper) (turn : AiTurnRef)
    (covered : Bool) :
    Holds (Reached start [] []) (drive slot (Worker.attempt env turn covered))
      (Answered start slot) (DriveStopped start slot) :=
  driveFrom_holds hentitles turn covered ((Nat.sub_le _ _).trans slot.tries_length_le)
    hproper.tries_pos .none

end Driving

section Steps

variable [Conversation C] {env : Env} {start : Worker C} {slot : Slot}

/-- How the completion of an open response leaves the responses, by its outcome. -/
private theorem completeResponse_responses {ports : Ports MailItem} {before : Worker C}
    {turn : AiTurnRef} {response : ModelResponse} (hopen : before.session.responses = [response.id])
    {outcome : Except SessionError Unit} {session : Session C} {host : Host C}
    (hcomplete : before.session.completeResponse ports before.host turn response =
      (outcome, session, host)) :
    (outcome = .ok () ∧ before.completion response.id outcome = [.Completed response.id] ∧
      session.responses = []) ∨
    ∃ error, outcome = .error error ∧ (before.completion response.id outcome = [] ∨
      before.completion response.id outcome = [.Discarded response.id]) := by
  have hkept := (before.session.add_objects ports before.host (applyResponse · turn response)).1
  unfold Session.completeResponse at hcomplete
  rcases hadd : before.session.add ports before.host (applyResponse · turn response) with
    ⟨outcome', session', host'⟩
  rw [hadd] at hcomplete hkept
  dsimp only at hkept
  rcases outcome' with error | ⟨⟩
  · rcases error with error | turn | mail | error
    all_goals
      cases hcomplete
      refine .inr ⟨_, rfl, ?_⟩
      unfold Worker.completion
      simp [hopen]
  · cases hcomplete
    refine .inl ⟨rfl, rfl, ?_⟩
    show session'.responses.filter (· != response.id) = []
    rw [hkept, hopen]
    simp

private theorem completeResponse_reached {effects : List Effect} (turn : AiTurnRef)
    (response : ModelResponse) :
    Holds (Reached start effects [response.id])
      (Worker.completeResponse env turn response : Doing C Unit)
      (fun _ => Reached start (effects ++ [.Completed response.id]) [])
      fun reason worker => reason.Fatal ∧ ∃ part responses,
        (part = [] ∨ part = [.Discarded response.id]) ∧
          Reached start (effects ++ part) responses worker := by
  refine .read fun before hbefore => ?_
  rcases hcomplete : before.session.completeResponse env.ports before.host turn response with
    ⟨outcome, session, host⟩
  dsimp only
  refine .bind (fun _ => Reached start effects [response.id]) ?_ fun _ => ?_
  · exact .modify fun worker hsame => ⟨hsame ▸ hbefore.log, by
      show worker.session.responses = _
      rw [hsame]
      exact hbefore.responses⟩
  refine .bind _ (await_holds (Reached.timeless start _ _) (fun reason worker hfatal hreached =>
    ⟨hfatal, [], _, .inl rfl, by rw [List.append_nil]; exact hreached⟩) env) fun _ => ?_
  refine .bind (fun _ => Reached start effects session.responses) ?_ fun _ => ?_
  · exact .modify fun worker hreached => ⟨hreached.log, rfl⟩
  refine .bind _ (emit_reached _) fun _ => ?_
  rcases completeResponse_responses hbefore.responses hcomplete with
    ⟨rfl, heffects, hresponses⟩ | ⟨error, rfl, heffects⟩
  · rw [heffects, hresponses]
    exact .pure fun _ hreached => hreached
  · exact .stop fun worker hreached =>
      ⟨Fault.fatal fun _ hsame => (by cases hsame), _, _, heffects, hreached⟩

/-- A step has been answered, after the clients before the one that answers failed. -/
def Stepped (start : Worker C) (slot : Slot) (result : ModelResponse × Slot × TurnId)
    (worker : Worker C) : Prop :=
  ∃ place client log, slot.tries[place]? = some client ∧
    result.2.1 = { slot with settled := some (slot.settled.getD place) } ∧
    Attempts (failures (slot.tries.take place) ++ [(client, true)]) log ∧
    Reached start log [] worker

omit [Conversation C] in
/-- A step that stops before its first attempt. -/
private theorem stopped_before (hproper : slot.Proper) :
    Leaves (Reached start [] []) (DriveStopped start slot) := by
  intro reason worker hfatal hreached
  have hclient := List.getElem?_eq_getElem hproper.tries_pos
  exact .inl ⟨0, _, [], hclient, .none, hfatal, 0, [], [], List.nil_prefix, hreached⟩

theorem step_holds (hentitles : env.Entitles) (hproper : slot.Proper) (turn : Option TurnId)
    (warning : Option String) :
    Holds (Reached start [] []) (Worker.step env slot turn warning)
      (Stepped start slot) (DriveStopped start slot) := by
  have hbefore : Leaves (Reached start [] []) (DriveStopped start slot) := stopped_before hproper
  have htimeless := Reached.timeless start [] []
  unfold Worker.step
  refine .bind _ (turn_holds htimeless hbefore turn) fun id => ?_
  refine .bind _ (notice_holds htimeless hbefore turn warning) fun _ => ?_
  refine .bind _ (turnRef_holds hbefore id) fun target => ?_
  refine Holds.imp ?_ (fun _ htarget => htarget.2.2.2) (fun _ _ hlast => hlast)
    fun _ _ hlast => hlast
  refine .bind _ (drive_holds hentitles hproper target _) fun result => ?_
  obtain ⟨response, next⟩ := result
  refine .ghost fun seen hseen => ?_
  obtain ⟨place, client, before, hclient, hattempts, hnext, hreached⟩ := hseen
  dsimp only at hnext hreached ⊢
  refine .bind _ ((completeResponse_reached target response).imp (fun worker hsame => hsame ▸ hreached) (fun _ _ hlast => hlast)
    fun reason worker hstopped => ?_) fun _ => ?_
  · obtain ⟨hfatal, part, responses, hpart, hlast⟩ := hstopped
    rw [List.append_assoc] at hlast
    refine .inl ⟨place, client, before, hclient, hattempts, hfatal, response.id, _, responses, ?_,
      hlast⟩
    rcases hpart with rfl | rfl
    · exact ⟨[.Discarded response.id, .DiscardFailed response.id], rfl⟩
    · exact ⟨[.DiscardFailed response.id], rfl⟩
  rw [List.append_assoc]
  refine .bind (fun _ => Reached start (before ++ answered response.id client) []) ?_ fun _ => ?_
  · exact .modify fun worker hlast => ⟨hlast.log, hlast.responses⟩
  refine .bind _ (emit_reached _) fun _ => ?_
  refine .pure fun worker hlast => ⟨place, client, _, hclient, hnext, ?_, hlast⟩
  refine (hattempts.answered response.id client).quiet fun effect heffect => ?_
  cases List.mem_singleton.mp heffect
  rfl

end Steps

end LlmGraph.Agentic
