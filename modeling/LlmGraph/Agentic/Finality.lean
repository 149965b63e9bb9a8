/- digest: The rule on structure: the check of a response on a copy of its turn says what the turn says
   once the session has taken the response, so a final response that is not exempt is structured. -/

import LlmGraph.Agentic.Ledger
import LlmGraph.Agentic.Untouched

set_option autoImplicit false
set_option relaxedAutoImplicit false

namespace LlmGraph.Agentic

open Lib (Act)
open Lib.Act (Holds)

/-- What is documented of a push into a turn: the conversation pushes the entry into its turn, which
takes it as a copy of the turn does. -/
def Conversation.PushesIntoTurn (C : Type) [Conversation C] : Prop :=
  ∀ (c next : C) id entry, Conversation.pushEntry c id entry = .ok next →
    ∀ turn, turnOf c id = some (.AITurn turn) →
      ∃ made, Conversation.pushTurnEntry c turn entry = .ok made

variable {C : Type} [Conversation C] {env : Env}

/-- A copy of the turn takes an entry that the session takes. -/
theorem applyEntry_copy (hpushes : Conversation.PushesIntoTurn C) {c next : C} {turn : AiTurnRef}
    {entry : TurnEntry} (happlied : applyEntry c turn entry = .ok next) :
    ∃ made, Conversation.pushTurnEntry c (current c turn) entry = .ok made := by
  unfold applyEntry at happlied
  rcases hexisting : existing c turn with error | there
  · rw [hexisting] at happlied
    cases happlied
  rw [hexisting] at happlied
  unfold current
  rcases existing_cases hexisting with ⟨rfl, ai, hturn, -⟩ | ⟨rfl, hturn⟩
  · rw [hturn]
    exact hpushes c next turn.id entry (ok_of_mapError happlied) ai hturn
  · rw [hturn]
    cases hmade : Conversation.pushTurnEntry c (.open turn.id turn.agent turn.author) entry with
    | error error =>
        simp only [hmade, Except.mapError, bind, Except.bind, Bool.false_eq_true, if_false] at happlied
        cases happlied
    | ok made => exact ⟨made, hmade⟩

omit [Conversation C] in
/-- An addition that is taken is in the copy. -/
theorem add_ok {M : Type} {ports : Ports M} {session next : Session C} {host after : Host C}
    {apply : C → Except SessionError C}
    (hadd : session.add ports host apply = (.ok (), next, after)) :
    apply session.conversation = .ok next.conversation := by
  unfold Session.add at hadd
  cases happlied : apply session.conversation with
  | error refusal =>
      rw [happlied] at hadd
      cases hadd
  | ok conversation =>
      rw [happlied] at hadd
      dsimp only at hadd
      cases hport : ports.thread host.threadCalls with
      | some error =>
          rw [hport] at hadd
          cases hadd
      | none =>
          rw [hport] at hadd
          cases hadd
          rfl

/-- The check on the copy says what the turn says once the session has taken the response. -/
theorem ends_isFinal (hlawful : Conversation.Lawful C) (hpushes : Conversation.PushesIntoTurn C)
    {ports : Ports MailItem} {session session' : Session C} {host host' : Host C} {turn : AiTurnRef}
    {response : ModelResponse}
    (hcompleted : session.completeResponse ports host turn response = (.ok (), session', host')) :
    ∃ ai, turnOf session'.conversation turn.id = some (.AITurn ai) ∧
      Worker.ends env session.conversation turn response =
        isFinal response (env.turnState ai) := by
  have happlied : applyResponse session.conversation turn response = .ok session'.conversation := by
    unfold Session.completeResponse at hcompleted
    rcases hadd : session.add ports host (applyResponse · turn response) with ⟨outcome, next, after⟩
    rw [hadd] at hcompleted
    rcases outcome with error | ⟨⟩
    · cases error with
      | Rules | WrongTurn | WrongMailEntry | Port => cases hcompleted
    · cases hcompleted
      exact add_ok hadd
  have hturn := applyEntry_turn hlawful happlied
  obtain ⟨made, hcopy⟩ := applyEntry_copy hpushes happlied
  rw [← hlawful.pushTurnEntry _ _ _ _ hcopy] at hturn
  refine ⟨made, hturn, ?_⟩
  unfold current at hcopy
  unfold Worker.ends isFinal
  cases response.runtimeCalls.isEmpty with
  | false => rfl
  | true => simp only [hcopy, Bool.not_true, Bool.false_eq_true, if_false, Bool.true_and]

/-- What the attempts of a step leave as it is. -/
def AsAt (start worker : Worker C) : Prop :=
  worker.session.conversation = start.session.conversation ∧ worker.shaped = start.shaped ∧
    worker.agent = start.agent ∧ worker.author = start.author

omit [Conversation C] in
theorem AsAt.call (start : Worker C) : CallApart (fun _ => True) (AsAt start) :=
  ⟨fun _ _ _ hsame => hsame, fun _ _ hsame => hsame, fun _ _ _ hsame => hsame⟩

/-- Whether a reply must be structured. -/
def MustBeStructured (env : Env) (worker : Worker C) (target : AiTurnRef) (reply : Reply) : Prop :=
  worker.shaped = true ∧ exempt reply.response = false ∧
    Worker.ends env worker.session.conversation target reply.response = true

/-- What the check comes to on the reply of a client. -/
theorem checked_cases (env : Env) (worker : Worker C) (target : AiTurnRef) (covered : Bool)
    (client : ModelClient) (reply : Reply) :
    Worker.checked env worker target covered client (some (.ok reply)) = .error .NoThinking ∨
    (Worker.checked env worker target covered client (some (.ok reply)) =
      .error .NoStructuredReply ∧ MustBeStructured env worker target reply) ∨
    (Worker.checked env worker target covered client (some (.ok reply)) = .ok reply.response ∧
      (MustBeStructured env worker target reply → reply.structured = true)) := by
  have hmust : (worker.shaped && !exempt reply.response &&
      Worker.ends env worker.session.conversation target reply.response) = true ↔
        MustBeStructured env worker target reply := by
    unfold MustBeStructured
    rw [Bool.and_eq_true, Bool.and_eq_true, Bool.not_eq_true', and_assoc]
  have hthinking : checkThinking client reply = .ok () ∨
      checkThinking client reply = .error .NoThinking := by
    unfold checkThinking
    split
    · exact .inr rfl
    · exact .inl rfl
  have hstructure : ((if (worker.shaped && !exempt reply.response &&
      Worker.ends env worker.session.conversation target reply.response) = true then
        (checkStructure reply).bind fun _ => .ok reply.response
      else .ok reply.response : Except CallFailure ModelResponse) = .error .NoStructuredReply ∧
        MustBeStructured env worker target reply) ∨
      ((if (worker.shaped && !exempt reply.response &&
        Worker.ends env worker.session.conversation target reply.response) = true then
          (checkStructure reply).bind fun _ => .ok reply.response
        else .ok reply.response : Except CallFailure ModelResponse) = .ok reply.response ∧
        (MustBeStructured env worker target reply → reply.structured = true)) := by
    unfold checkStructure
    split
    · rename_i hneeded
      cases hstructured : reply.structured with
      | false => exact .inl ⟨rfl, hmust.mp hneeded⟩
      | true => exact .inr ⟨rfl, fun _ => rfl⟩
    · rename_i hfree
      exact .inr ⟨rfl, fun hneeded => absurd (hmust.mpr hneeded) hfree⟩
  unfold Worker.checked
  dsimp only [bind, pure, Except.pure]
  split
  · rcases hthinking with hthought | hthought
    · rw [hthought]
      exact .inr hstructure
    · rw [hthought]
      exact .inl rfl
  · exact .inr hstructure

/-- A client answered with the response, and structured it where it must. -/
def Checked (env : Env) (start : Worker C) (target : AiTurnRef) (response : ModelResponse) : Prop :=
  ∃ moment client entry reply, env.client moment client entry = some (.ok reply) ∧
    reply.response = response ∧ (MustBeStructured env start target reply → reply.structured = true)

theorem checked_response {start worker : Worker C} (hsame : AsAt start worker) {target : AiTurnRef}
    {covered : Bool} {client : ModelClient} {entry : EntryId} {moment : Nat}
    {response : ModelResponse}
    (hchecked : Worker.checked env worker target covered client (env.client moment client entry) =
      .ok response) : Checked env start target response := by
  cases hanswer : env.client moment client entry with
  | none =>
      rw [hanswer] at hchecked
      cases hchecked
  | some answer =>
      rw [hanswer] at hchecked
      cases answer with
      | error error => cases hchecked
      | ok reply =>
          rcases checked_cases env worker target covered client reply with
            hno | ⟨hno, -⟩ | ⟨hok, hstructured⟩
          · rw [hno] at hchecked
            cases hchecked
          · rw [hno] at hchecked
            cases hchecked
          · rw [hok] at hchecked
            refine ⟨moment, client, entry, reply, hanswer, Except.ok.inj hchecked, fun hmust => ?_⟩
            refine hstructured ?_
            unfold MustBeStructured at hmust ⊢
            rwa [hsame.1, hsame.2.1]

/-- A completion that goes on is one that the session took. -/
theorem completeResponse_took {start : Worker C} (target : AiTurnRef) (response : ModelResponse) :
    Holds (AsAt start) (Worker.completeResponse env target response : Doing C Unit)
      (fun _ worker => ∃ (session session' : Session C) (host host' : Host C),
        session.conversation = start.session.conversation ∧
        session.completeResponse env.ports host target response = (.ok (), session', host') ∧
        worker.session.conversation = session'.conversation) fun _ _ => True := by
  refine .read fun before hbefore => ?_
  rcases hcompleted : before.session.completeResponse env.ports before.host target response with
    ⟨outcome, session, host⟩
  dsimp only
  refine .bind (fun _ _ => True) (.modify fun _ _ => trivial) fun _ => ?_
  refine .bind (fun _ _ => True) ?_ fun _ => ?_
  · exact await_holds (fun _ _ _ _ => trivial) (fun _ _ _ _ => trivial) env
  refine .bind (fun _ worker => worker.session = session) (.modify fun _ _ => rfl) fun _ => ?_
  refine .bind (fun _ worker => worker.session = session)
    (.modify fun worker hsession => hsession) fun _ => ?_
  refine .ofExcept (fun value hok worker hsession => ?_) fun _ _ _ _ => trivial
  rw [hok] at hcompleted
  exact ⟨before.session, session, before.host, host, hbefore.1, hcompleted, by rw [hsession]⟩

/-- What a step leaves that ends: the check on the copy agreed with the turn that holds the response,
and a client structured the response where it must. -/
def Agreed (env : Env) (start : Worker C) (result : ModelResponse × Slot × TurnId)
    (worker : Worker C) : Prop :=
  ∃ author ai, start.author = some author ∧
    turnOf worker.session.conversation result.2.2 = some (.AITurn ai) ∧
    Worker.ends env start.session.conversation ⟨result.2.2, start.agent, author⟩ result.1 =
      isFinal result.1 (env.turnState ai) ∧
    Checked env start ⟨result.2.2, start.agent, author⟩ result.1

theorem step_agreed (hlawful : Conversation.Lawful C) (hpushes : Conversation.PushesIntoTurn C)
    (start : Worker C) (slot : Slot) (turn : Option TurnId) (warning : Option String) :
    Holds (fun worker => worker = start) (Worker.step env slot turn warning) (Agreed env start)
      fun _ _ => True := by
  have hleaves : Leaves (AsAt start) fun _ _ => True := fun _ _ _ _ => trivial
  refine .weaken (AsAt start) _ ?_ fun worker hsame => hsame ▸ ⟨rfl, rfl, rfl, rfl⟩
  refine .bind _ (turn_holds (AsAt.call start).timeless hleaves turn) fun id => ?_
  refine .bind _ (notice_holds (AsAt.call start).timeless hleaves turn warning) fun _ => ?_
  refine .bind _ (turnRef_holds hleaves id) fun target => ?_
  refine .ghost fun seen hseen => ?_
  obtain ⟨rfl, hagent, hauthor, hsame⟩ := hseen
  refine .weaken (AsAt start) _ ?_ fun worker hworker => hworker ▸ hsame
  refine .bind _ (drive_gives (Checked env start target) (fun _ _ _ => trivial) fun client _ =>
    attempt_gives (Checked env start target) (AsAt.call start) hleaves target _ trivial
      fun _ _ _ _ hstill hchecked => checked_response hstill hchecked) fun result => ?_
  obtain ⟨response, next⟩ := result
  refine .ghost fun given hgiven => ?_
  obtain ⟨hstill, hchecked⟩ := hgiven
  refine .weaken (AsAt start) _ ?_ fun worker hworker => hworker ▸ hstill
  refine .bind (fun _ => Agreed env start (response, next, target.id)) ?_ fun _ => ?_
  · refine (completeResponse_took target response).imp (fun _ hworker => hworker)
      (fun _ worker htook => ?_) fun _ _ hlast => hlast
    obtain ⟨session, session', host, host', hbefore, hcompleted, hafter⟩ := htook
    have hagreed : ∃ ai, turnOf session'.conversation target.id = some (.AITurn ai) ∧
        Worker.ends env session.conversation target response = isFinal response (env.turnState ai) :=
      ends_isFinal hlawful hpushes hcompleted
    obtain ⟨ai, hturn, hends⟩ := hagreed
    have htarget : target = ⟨target.id, start.agent, target.author⟩ := by
      rw [← hsame.2.2.1, ← hagent]
    rw [hbefore] at hends
    rw [htarget] at hends hchecked
    refine ⟨target.author, ai, hsame.2.2.2 ▸ hauthor, ?_, hends, hchecked⟩
    rw [hafter]
    exact hturn
  refine .bind (fun _ => Agreed env start (response, next, target.id)) ?_ fun _ => ?_
  · exact .modify fun worker hagreed => hagreed
  refine .bind (fun _ => Agreed env start (response, next, target.id)) ?_ fun _ => ?_
  · exact .modify fun worker hagreed => hagreed
  · exact .pure fun _ hagreed => hagreed

/-- In a pass with a shape, the check of a response says what its turn says once the session has taken
it: a response that ends the pass is exempt or structured, and one that is refused for lacking
structure would have ended it. -/
theorem structure_rule (hlawful : Conversation.Lawful C) (hpushes : Conversation.PushesIntoTurn C)
    (env : Env) {start : Worker C} (hshaped : start.shaped = true) (slot : Slot)
    (turn : Option TurnId) (warning : Option String) :
    (∀ response next id after,
      Worker.step env slot turn warning start = (.done (response, next, id), after) →
      ∃ author ai, start.author = some author ∧
        turnOf after.session.conversation id = some (.AITurn ai) ∧
        Worker.ends env start.session.conversation ⟨id, start.agent, author⟩ response =
          isFinal response (env.turnState ai) ∧
        (isFinal response (env.turnState ai) = true → exempt response = false →
          ∃ moment client entry reply, env.client moment client entry = some (.ok reply) ∧
            reply.response = response ∧ reply.structured = true)) ∧
    ∀ (worker : Worker C) target covered client reply,
      Worker.checked env worker target covered client (some (.ok reply)) =
        .error .NoStructuredReply →
      ∀ (ports : Ports MailItem) (host host' : Host C) (session' : Session C),
        worker.session.completeResponse ports host target reply.response =
          (.ok (), session', host') →
        ∃ ai, turnOf session'.conversation target.id = some (.AITurn ai) ∧
          isFinal reply.response (env.turnState ai) = true := by
  constructor
  · intro response next id after hstep
    have hholds : Holds (fun worker => worker = start) (Worker.step env slot turn warning)
        (Agreed env start) fun _ _ => True := step_agreed hlawful hpushes start slot turn warning
    rcases hholds start rfl with
      ⟨result, worker, hresult, hagreed⟩ | ⟨reason, worker, hresult, -⟩
    · rw [hstep] at hresult
      cases hresult
      obtain ⟨author, ai, hauthor, hturn, hends, moment, client, entry, reply, hanswer, hreply,
        hstructured⟩ := hagreed
      refine ⟨author, ai, hauthor, hturn, hends, fun hfinal hexempt => ?_⟩
      refine ⟨moment, client, entry, reply, hanswer, hreply, hstructured ⟨hshaped, ?_, ?_⟩⟩
      · rw [hreply]
        exact hexempt
      · rw [hreply]
        exact hends.trans hfinal
    · rw [hstep] at hresult
      cases hresult
  · intro worker target covered client reply hrefused ports host host' session' hcompleted
    rcases checked_cases env worker target covered client reply with
      hthinking | ⟨-, -, -, hends⟩ | ⟨hok, -⟩
    · rw [hrefused] at hthinking
      cases hthinking
    · have hmade : ∃ ai, turnOf session'.conversation target.id = some (.AITurn ai) ∧
          Worker.ends env worker.session.conversation target reply.response =
            isFinal reply.response (env.turnState ai) := ends_isFinal hlawful hpushes hcompleted
      obtain ⟨ai, hturn, hagreed⟩ := hmade
      exact ⟨ai, hturn, hagreed.symm.trans hends⟩
    · rw [hrefused] at hok
      cases hok

theorem Ledger.pushesIntoTurn : Conversation.PushesIntoTurn Ledger := by
  intro ledger next id entry hpushed turn hturn
  simp only [Conversation.pushEntry] at hpushed
  split at hpushed
  · cases hpushed
  · cases hextended : Ledger.extend id entry ledger.turns with
    | error error =>
        rw [hextended] at hpushed
        cases hpushed
    | ok made =>
        have hopen := Ledger.extend_open hextended hturn
        refine ⟨turn.add entry, ?_⟩
        simp only [Conversation.pushTurnEntry]
        rw [hopen]
        rfl

/-- The client `0` answers with no structure, the other one with structure. -/
def oneStructures : Env :=
  { Env.calm fun _ client entry =>
      some (.ok ⟨⟨entry, [], .Finished⟩, false, decide (client.client = 1)⟩) with
    turnState := fun turn => ⟨[], [], turn.entries.getLast?.bind fun
      | .ModelResponse response => some response.ending
      | _ => none⟩ }

def twoClients : FallbackList := ⟨[⟨0, .NotExpected⟩, ⟨1, .NotExpected⟩], by decide⟩

def shapedWorker : Worker Ledger where
  session := .start ⟨[]⟩
  host := ⟨⟨[]⟩, [], 0, 0, 0⟩
  hasInbox := false
  agent := 1
  agents := [1]
  author := some "author"
  shaped := true
  tools := ⟨[], List.nodup_nil⟩
  modelTimeout := 60000000000
  toolTimeout := 60000000000
  queue := []
  reading := false
  steps := .new ⟨6, Nat.succ_pos 5, by decide⟩
  counters := .zero
  moment := 0
  log := []

def shapedStep := Worker.step oneStructures (.new twoClients) none none shapedWorker

/-- The answer with no structure is refused, and the other one ends the pass. -/
theorem structure_rule_second :
    Effect.Called ⟨0, .NotExpected⟩ ∈ shapedStep.2.log ∧
    ∃ moment client entry reply, oneStructures.client moment client entry = some (.ok reply) ∧
      reply.response = ⟨9, [], .Finished⟩ ∧ reply.structured = true := by
  have hdone : shapedStep.1 = .done (⟨9, [], .Finished⟩, ⟨twoClients, some 1⟩, 0) := by
    decide +kernel
  have hstep : Worker.step oneStructures (.new twoClients) none none shapedWorker =
      (.done (⟨9, [], .Finished⟩, ⟨twoClients, some 1⟩, 0), shapedStep.2) := by
    rw [← hdone, shapedStep]
  obtain ⟨author, ai, hauthor, hturn, hends, hstructured⟩ :=
    (structure_rule Ledger.lawful Ledger.pushesIntoTurn oneStructures rfl _ _ _).1 _ _ _ _ hstep
  refine ⟨by decide +kernel, hstructured ?_ (by decide)⟩
  have hauthor : author = "author" := (Option.some.inj hauthor).symm
  have hfinal : Worker.ends oneStructures shapedWorker.session.conversation
      ⟨0, 1, "author"⟩ ⟨9, [], .Finished⟩ = true := by
    decide +kernel
  rw [← hends, hauthor]
  exact hfinal

end LlmGraph.Agentic
