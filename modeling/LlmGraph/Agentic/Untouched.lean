/- digest: What the acts of a worker leave as it is: a round of tools, the draining of the queue and
   the closing of a turn keep what their additions do not touch, and no client fails in them. -/

import LlmGraph.Agentic.Delivery
import LlmGraph.Agentic.Worker

set_option autoImplicit false
set_option relaxedAutoImplicit false

namespace LlmGraph.Agentic

open Lib (Act)
open Lib.Act (Holds)

variable {C : Type}

/-- The effects of a model call: its response and its client. -/
def Effect.ofModel : Effect → Bool
  | Opened _ | Called _ | Discarded _ | DiscardFailed _ | Completed _ => true
  | _ => false

/-- The effects of a model call that goes to such clients alone. -/
def Effect.OfCalls (may : ModelClient → Prop) (effect : Effect) : Prop :=
  effect.ofModel = true ∧ ∀ client, effect = .Called client → may client

/-- A stop that is no failure of a client. -/
def Stop.Fatal (reason : Stop) : Prop := ∀ failure, reason ≠ .Fault (.Model failure)

theorem Fault.fatal {fault : Fault} (hfault : ∀ failure, fault ≠ .Model failure) :
    Stop.Fatal (.Fault fault) := fun failure hsame => hfault failure (Stop.Fault.inj hsame)

theorem Interruption.fatal (interruption : Interruption) : interruption.stop.Fatal := by
  intro failure hsame
  cases interruption with
  | Cancelled | Panic => cases hsame

/-- What holds of a worker at any later moment too. -/
def Timeless (inv : Worker C → Prop) : Prop := ∀ worker moment, worker.moment ≤ moment →
  inv worker → inv { worker with moment }

/-- What is left when an act stops, and no client has failed. -/
def Leaves (inv : Worker C → Prop) (exit : Stop → Worker C → Prop) : Prop := ∀ reason worker,
  Stop.Fatal reason → inv worker → exit reason worker

section Calls

variable {α : Type} {env : Env} {inv : Worker C → Prop} {exit : Stop → Worker C → Prop}

theorem ask_holds (htimeless : Timeless inv) (answer : Nat → α) :
    Holds inv (Worker.ask answer : Doing C α) (fun _ => inv) exit :=
  fun worker hinv => .inl ⟨_, _, rfl, htimeless worker _ (Nat.le_succ _) hinv⟩

theorem fault_holds {fault : Fault} {post : α → Worker C → Prop} (hleaves : Leaves inv exit)
    (hfault : ∀ failure, fault ≠ .Model failure) :
    Holds inv (Worker.fault fault : Doing C α) post exit :=
  .stop fun worker => hleaves _ worker (Fault.fatal hfault)

theorem value_holds (hleaves : Leaves inv exit) (result : Except String α) :
    Holds inv (Worker.value result : Doing C α) (fun _ => inv) exit :=
  .ofExcept (fun _ _ _ hinv => hinv) fun _ _ worker =>
    hleaves _ worker (Fault.fatal fun _ hsame => by cases hsame)

theorem await_holds (htimeless : Timeless inv) (hleaves : Leaves inv exit) (env : Env) :
    Holds inv (Worker.await env : Doing C Unit) (fun _ => inv) exit := by
  refine .bind _ (ask_holds htimeless env.interrupt) fun interruption => ?_
  rcases interruption with _ | interruption
  · exact .pure fun _ hinv => hinv
  · exact .stop fun worker => hleaves _ worker interruption.fatal

theorem answer_holds (htimeless : Timeless inv) (hleaves : Leaves inv exit)
    (answer : Nat → Except String α) :
    Holds inv (Worker.ask answer >>= Worker.value : Doing C α) (fun _ => inv) exit :=
  .bind _ (ask_holds htimeless answer) fun result => value_holds hleaves result

theorem turnRef_holds (hleaves : Leaves inv exit) (turn : TurnId) :
    Holds inv (Worker.turnRef turn : Doing C AiTurnRef)
      (fun target worker => target.id = turn ∧ target.agent = worker.agent ∧
        worker.author = some target.author ∧ inv worker) exit := by
  refine .read fun seen hseen => ?_
  rcases hauthor : seen.author with _ | author
  · exact .stop fun worker hsame =>
      hleaves _ worker (Fault.fatal fun _ hother => by cases hother) (hsame ▸ hseen)
  · exact .pure fun worker hsame => ⟨rfl, hsame ▸ rfl, hsame ▸ hauthor, hsame ▸ hseen⟩

/-- The turn of a step: the one that is open, or a new one. -/
theorem turn_holds (htimeless : Timeless inv) (hleaves : Leaves inv exit) (turn : Option TurnId) :
    Holds inv (turn.elim (Worker.turnId env) pure : Doing C TurnId) (fun _ => inv) exit := by
  cases turn with
  | none => exact answer_holds htimeless hleaves env.turnId
  | some turn => exact .pure fun _ hinv => hinv

theorem notice_holds (htimeless : Timeless inv) (hleaves : Leaves inv exit) (turn : Option TurnId)
    (warning : Option String) :
    Holds inv (Worker.notice env turn warning : Doing C Unit) (fun _ => inv) exit := by
  unfold Worker.notice
  split
  · exact .bind _ (answer_holds htimeless hleaves env.entryId) fun _ =>
      answer_holds htimeless hleaves _
  · exact .pure fun _ hinv => hinv

end Calls

section Objects

variable [Conversation C] {env : Env} {inv : Worker C → Prop} {exit : Stop → Worker C → Prop}

theorem turnState_holds (hleaves : Leaves inv exit) (turn : TurnId) :
    Holds inv (Worker.turnState env turn : Doing C TurnState)
      (fun state worker => (∃ ai, turnOf worker.session.conversation turn = some (.AITurn ai) ∧
        state = env.turnState ai) ∧ inv worker) exit := by
  refine .bind (fun ai worker => turnOf worker.session.conversation turn = some (.AITurn ai) ∧
    inv worker) ?_ fun ai => .pure fun worker hseen => ⟨⟨ai, hseen.1, rfl⟩, hseen.2⟩
  refine .read fun seen hseen => ?_
  rcases hturn : turnOf seen.session.conversation turn with _ | input | ai
  · exact .stop fun worker hsame =>
      hleaves _ worker (Fault.fatal fun _ hother => by cases hother) (hsame ▸ hseen)
  · exact .stop fun worker hsame =>
      hleaves _ worker (Fault.fatal fun _ hother => by cases hother) (hsame ▸ hseen)
  · exact .pure fun worker hsame => ⟨hsame ▸ hturn, hsame ▸ hseen⟩

omit [Conversation C] in
theorem Session.add_objects {M : Type} (ports : Ports M) (session : Session C) (host : Host C)
    (apply : C → Except SessionError C) :
    (session.add ports host apply).2.1.responses = session.responses ∧
      (session.add ports host apply).2.1.results = session.results := by
  unfold Session.add
  split
  · exact ⟨rfl, rfl⟩
  · dsimp only
    split
    · exact ⟨rfl, rfl⟩
    · exact ⟨rfl, rfl⟩

/-- An addition changes the conversation of the session and the host alone. -/
def Worker.added (worker : Worker C) (conversation : C) (host : Host C) : Worker C :=
  { worker with session := { worker.session with conversation }, host }

/-- A closing of the turn does not touch the invariant. -/
def CloseApart (env : Env) (turn : AiTurnRef) (reason : ClosureReason) (inv : Worker C → Prop) :
    Prop := ∀ worker entry outcome session host, inv worker →
  worker.session.closeTurn env.ports worker.host turn ⟨entry, reason⟩ = (outcome, session, host) →
    inv (worker.added session.conversation host)

theorem closeTurn_holds (htimeless : Timeless inv) (hleaves : Leaves inv exit) {turn : AiTurnRef}
    {reason : ClosureReason} (hclose : CloseApart env turn reason inv) :
    Holds inv (Worker.closeTurn env turn reason : Doing C Unit) (fun _ => inv) exit := by
  refine .bind _ (answer_holds htimeless hleaves env.entryId) fun entry => ?_
  refine .read fun before hbefore => ?_
  rcases hclosed : before.session.closeTurn env.ports before.host turn ⟨entry, reason⟩ with
    ⟨outcome, session, host⟩
  refine .bind (fun _ => inv) ?_ fun _ => ?_
  · refine .modify fun worker hsame => ?_
    rw [hsame]
    exact hclose before entry outcome session host hbefore hclosed
  refine .bind _ (await_holds htimeless hleaves env) fun _ => ?_
  exact .ofExcept (fun _ _ _ hinv => hinv) fun _ _ worker =>
    hleaves _ worker (Fault.fatal fun _ hother => by cases hother)

end Objects

section Step

variable [Conversation C] {env : Env} {inv : Worker C → Prop} {exit : Stop → Worker C → Prop}
  {may : ModelClient → Prop}

/-- A call of the model for the turn, to the clients that it may go to, does not touch the
invariant. -/
structure StepApart (env : Env) (turn : TurnId) (may : ModelClient → Prop)
    (inv : Worker C → Prop) : Prop where
  timeless : Timeless inv
  responses : ∀ worker responses, inv worker →
    inv { worker with session := { worker.session with responses } }
  called : ∀ worker effects, (∀ effect ∈ effects, effect.OfCalls may) → inv worker →
    inv { worker with log := worker.log ++ effects }
  completed : ∀ worker target response outcome session host, target.id = turn → inv worker →
    worker.session.completeResponse env.ports worker.host target response =
      (outcome, session, host) → inv (worker.added session.conversation host)

/-- An attempt of a model call does not touch the invariant. -/
structure CallApart (may : ModelClient → Prop) (inv : Worker C → Prop) : Prop where
  timeless : Timeless inv
  responses : ∀ worker responses, inv worker →
    inv { worker with session := { worker.session with responses } }
  called : ∀ worker effects, (∀ effect ∈ effects, effect.OfCalls may) → inv worker →
    inv { worker with log := worker.log ++ effects }

theorem StepApart.call {turn : TurnId} (hapart : StepApart env turn may inv) : CallApart may inv :=
  ⟨hapart.timeless, hapart.responses, hapart.called⟩

omit [Conversation C] in
private theorem emit_apart (hapart : CallApart may inv) {effects : List Effect}
    (heffects : ∀ effect ∈ effects, effect.OfCalls may) :
    Holds inv (Worker.emit effects : Doing C Unit) (fun _ => inv) exit :=
  .modify fun worker hinv => hapart.called worker effects heffects hinv

private theorem one_ofCalls {effect : Effect} (heffect : effect.ofModel = true)
    (hclient : ∀ client, effect = .Called client → may client) :
    ∀ other ∈ [effect], other.OfCalls may := by
  intro other hother
  rw [List.mem_singleton.mp hother]
  exact ⟨heffect, hclient⟩

/-- An attempt gives what has been checked, in a worker that the invariant holds of. -/
theorem attempt_gives (gives : ModelResponse → Prop) (hapart : CallApart may inv)
    (hleaves : Leaves inv exit) (target : AiTurnRef) (covered : Bool) {client : ModelClient}
    (hmay : may client)
    (hchecked : ∀ worker moment entry response, inv worker → Worker.checked env worker target covered
      client (env.client moment client entry) = .ok response → gives response) :
    Holds inv (Worker.attempt env target covered client)
      (fun result worker => inv worker ∧ ∀ response, result = .ok response → gives response) exit := by
  refine .bind _ (answer_holds hapart.timeless hleaves env.entryId) fun entry => ?_
  refine .bind _ (ask_holds hapart.timeless env.request) fun request => ?_
  refine .bind _ (value_holds hleaves request) fun _ => ?_
  refine .bind (fun _ => inv) ?_ fun _ => ?_
  · refine .bind _ (await_holds hapart.timeless hleaves env) fun _ => ?_
    refine .bind _ (ask_holds hapart.timeless env.openAnswer) fun answer => ?_
    rcases answer with _ | error
    · refine .bind (fun _ => inv) ?_ fun _ => emit_apart hapart (one_ofCalls rfl nofun)
      exact .modify fun worker hinv => hapart.responses worker _ hinv
    · exact fault_holds hleaves fun _ hother => by cases hother
  refine .bind _ (emit_apart hapart (one_ofCalls rfl fun other hsame => ?_)) fun _ => ?_
  · cases hsame
    exact hmay
  refine .bind _ (await_holds hapart.timeless hleaves env) fun _ => ?_
  refine .bind (fun called worker => inv worker ∧ ∃ moment, called = env.client moment client entry)
    (fun worker hinv =>
      .inl ⟨_, _, rfl, hapart.timeless worker _ (Nat.le_succ _) hinv, worker.moment, rfl⟩)
    fun called => ?_
  refine .read fun seen hseen => ?_
  obtain ⟨hinv, moment, rfl⟩ := hseen
  refine .weaken inv _ ?_ fun worker hsame => hsame ▸ hinv
  split
  · rename_i response hresponse
    refine .pure fun worker hstill => ⟨hstill, fun given hgiven => ?_⟩
    cases hgiven
    exact hchecked seen moment entry response hinv hresponse
  · refine .bind (fun _ => inv) ?_ fun _ => .pure fun _ hstill => ⟨hstill, fun _ hgiven => by
      cases hgiven⟩
    refine .bind (fun _ => inv) ?_ fun _ => ?_
    · exact .modify fun worker hinv => hapart.responses worker _ hinv
    refine .bind _ (emit_apart hapart (one_ofCalls rfl nofun)) fun _ => ?_
    refine .bind _ (await_holds hapart.timeless hleaves env) fun _ => ?_
    refine .bind _ (ask_holds hapart.timeless env.discardAnswer) fun answer => ?_
    rcases answer with _ | error
    · exact .pure fun _ hinv => hinv
    · refine .bind _ (emit_apart hapart (one_ofCalls rfl nofun)) fun _ => ?_
      exact fault_holds hleaves fun _ hother => by cases hother

omit [Conversation C] in
/-- The clients of an attempt are those of the slot. -/
theorem Slot.candidate_mem {slot : Slot} {tried index : Nat} {client : ModelClient}
    (hcandidate : slot.candidate tried = some (index, client)) : client ∈ slot.list.clients := by
  unfold Slot.candidate at hcandidate
  obtain ⟨index, -, hclient⟩ := Option.bind_eq_some_iff.mp hcandidate
  obtain ⟨other, hother, hsame⟩ := Option.map_eq_some_iff.mp hclient
  cases hsame
  exact List.mem_of_getElem? hother

/-- What an attempt leaves: the invariant when it fails, and what its output says. -/
def Attempted {O : Type} (inv : Worker C → Prop) (gives : O → Worker C → Prop) :
    Except CallFailure O → Worker C → Prop
  | .error _ => inv
  | .ok output => gives output

omit [Conversation C] in
/-- A drive makes one attempt after the other, with clients of the slot and no more than it has, and
what one of them gives is what it leaves. -/
theorem drive_leaves {O : Type} (gives : O → Worker C → Prop) {slot : Slot}
    {attempt : ModelClient → Doing C (Except CallFailure O)}
    (hexit : ∀ reason worker, inv worker → exit reason worker)
    (hattempt : ∀ client ∈ slot.list.clients,
      Holds inv (attempt client) (Attempted inv gives) exit) :
    Holds inv (drive slot attempt)
      (fun result worker => gives result.1 worker ∧ result.2.list = slot.list) exit := by
  have hfrom (bound tried : Nat) (hbound : slot.list.clients.length ≤ bound + tried)
      (htried : tried < slot.list.clients.length) :
      Holds inv (driveFrom slot attempt bound tried)
        (fun result worker => gives result.1 worker ∧ result.2.list = slot.list) exit := by
    induction bound generalizing tried with
    | zero => omega
    | succ bound hind =>
        unfold driveFrom
        split
        · exact .stop fun worker => hexit _ worker
        · rename_i index client hcandidate
          refine .bind _ (hattempt client (Slot.candidate_mem hcandidate)) fun result => ?_
          rcases result with failure | output
          · dsimp only
            refine .weaken inv _ ?_ fun worker hstill => hstill
            split
            · rename_i hswitch
              unfold Slot.maySwitch at hswitch
              have hmore := of_decide_eq_true (Bool.and_eq_true_iff.mp hswitch).2
              exact hind (tried + 1) (by omega) hmore
            · exact .stop fun worker => hexit _ worker
          · exact .pure fun _ hgave => ⟨hgave, rfl⟩
  exact hfrom _ 0 (Nat.le_refl _) (List.length_pos_iff.mpr slot.list.nonempty)

omit [Conversation C] in
/-- A drive gives what one of its attempts gives, in a worker that the invariant holds of. -/
theorem drive_gives {O : Type} (gives : O → Prop) {slot : Slot}
    {attempt : ModelClient → Doing C (Except CallFailure O)}
    (hexit : ∀ reason worker, inv worker → exit reason worker)
    (hattempt : ∀ client ∈ slot.list.clients, Holds inv (attempt client)
      (fun result worker => inv worker ∧ ∀ output, result = .ok output → gives output) exit) :
    Holds inv (drive slot attempt) (fun result worker => inv worker ∧ gives result.1) exit := by
  have hleft : Holds inv (drive slot attempt)
      (fun result worker => (inv worker ∧ gives result.1) ∧ result.2.list = slot.list) exit :=
    drive_leaves (fun output worker => inv worker ∧ gives output) hexit fun client hmem =>
      (hattempt client hmem).imp (fun _ hinv => hinv)
      (fun result worker hgave => by
        rcases result with failure | output
        · exact hgave.1
        · exact ⟨hgave.1, hgave.2 output rfl⟩) fun _ _ hlast => hlast
  exact hleft.imp (fun _ hinv => hinv) (fun _ _ hgave => hgave.1) fun _ _ hlast => hlast

omit [Conversation C] in
theorem drive_apart {O : Type} {slot : Slot} {attempt : ModelClient → Doing C (Except CallFailure O)}
    (hexit : ∀ reason worker, inv worker → exit reason worker)
    (hattempt : ∀ client ∈ slot.list.clients, Holds inv (attempt client) (fun _ => inv) exit) :
    Holds inv (drive slot attempt) (fun result worker => inv worker ∧ result.2.list = slot.list)
      exit :=
  drive_leaves (fun _ => inv) hexit fun client hmem => (hattempt client hmem).imp (fun _ hinv => hinv)
    (fun result worker hinv => by
      cases result with
      | error | ok => exact hinv) fun _ _ hlast => hlast

theorem attempt_apart {turn : TurnId} (hapart : StepApart env turn may inv)
    (hleaves : Leaves inv exit) (target : AiTurnRef) (covered : Bool) {client : ModelClient}
    (hmay : may client) :
    Holds inv (Worker.attempt env target covered client) (fun _ => inv) exit :=
  (attempt_gives (fun _ => True) hapart.call hleaves target covered hmay
    fun _ _ _ _ _ _ => trivial).imp (fun _ hinv => hinv) (fun _ _ hgave => hgave.1)
    fun _ _ hlast => hlast

/-- The completion of a response changes the conversation and the responses of the session alone. -/
private theorem completeResponse_objects {ports : Ports MailItem} {session next : Session C}
    {host after : Host C} {turn : AiTurnRef} {response : ModelResponse}
    {outcome : Except SessionError Unit}
    (hcompleted : session.completeResponse ports host turn response = (outcome, next, after)) :
    next = { session with conversation := next.conversation, responses := next.responses } := by
  have hkept := (session.add_objects ports host (applyResponse · turn response)).2
  unfold Session.completeResponse at hcompleted
  rcases hadd : session.add ports host (applyResponse · turn response) with ⟨outcome', added, host'⟩
  rw [hadd] at hcompleted hkept
  obtain ⟨conversation, responses, listed⟩ := added
  obtain rfl : listed = session.results := hkept
  rcases outcome' with error | ⟨⟩
  · rcases error with error | turn | mail | error
    all_goals
      cases hcompleted
      rfl
  · cases hcompleted
    rfl

theorem completeResponse_apart {turn : TurnId} (hapart : StepApart env turn may inv)
    (hleaves : Leaves inv exit) (target : AiTurnRef) (htarget : target.id = turn)
    (response : ModelResponse) :
    Holds inv (Worker.completeResponse env target response : Doing C Unit) (fun _ => inv) exit := by
  refine .read fun before hbefore => ?_
  rcases hcompleted : before.session.completeResponse env.ports before.host target response with
    ⟨outcome, session, host⟩
  have hadded := hapart.completed before target response outcome session host htarget hbefore
    hcompleted
  dsimp only
  refine .bind (fun _ worker => inv worker ∧ worker.session =
    { before.session with conversation := session.conversation }) ?_ fun _ => ?_
  · refine .modify fun worker hsame => ?_
    rw [hsame]
    exact ⟨hadded, rfl⟩
  refine .bind (fun _ worker => inv worker ∧ worker.session =
    { before.session with conversation := session.conversation }) ?_ fun _ => ?_
  · exact await_holds
      (fun worker moment hle hinv => ⟨hapart.timeless worker moment hle hinv.1, hinv.2⟩)
      (fun reason worker hfatal hinv => hleaves reason worker hfatal hinv.1) env
  refine .bind (fun _ => inv) (.modify fun worker hinv => ?_) fun _ => ?_
  · obtain ⟨hinv, hsession⟩ := hinv
    have hresponses := hapart.responses worker session.responses hinv
    rw [hsession] at hresponses
    rw [completeResponse_objects hcompleted]
    exact hresponses
  refine .bind _ (emit_apart hapart.call fun effect heffect => ?_) fun _ => ?_
  · unfold Worker.completion at heffect
    split at heffect
    · cases List.mem_singleton.mp heffect
      exact ⟨rfl, nofun⟩
    · cases heffect
    · split at heffect
      · cases List.mem_singleton.mp heffect
        exact ⟨rfl, nofun⟩
      · cases heffect
  exact .ofExcept (fun _ _ _ hinv => hinv) fun _ _ worker =>
    hleaves _ worker (Fault.fatal fun _ hother => by cases hother)

omit [Conversation C] in
theorem Steps.remaining_count {steps : Steps} {left : Nat} (hleft : steps.remaining = left + 1) :
    steps.count.remaining = left := by
  have hfits := steps.limit.fits
  unfold Steps.remaining at hleft ⊢
  show steps.limit.get - min (steps.made + 1) (2 ^ 32 - 1) = left
  omega

/-- The step is counted, and the world sees it. -/
def Worker.stepped (worker : Worker C) (response : ModelResponse) : Worker C :=
  { worker with steps := worker.steps.count, log := worker.log ++ [.Stepped response] }

theorem step_apart {during : TurnId → Worker C → Prop} {slot : Slot} {turn : Option TurnId}
    (htimeless : Timeless inv) (hapart : ∀ id, StepApart env id may (during id))
    (hmay : ∀ client ∈ slot.list.clients, may client)
    (hturn : ∀ id worker, (∀ opened, turn = some opened → id = opened) → inv worker →
      during id worker)
    (hbefore : Leaves inv exit) (hduring : ∀ id reason worker, during id worker → exit reason worker)
    (warning : Option String) :
    Holds inv (Worker.step env slot turn warning)
      (fun result worker => result.2.1.list = slot.list ∧
        ∃ kept, during result.2.2 kept ∧ worker = kept.stepped result.1) exit := by
  have hleaves (id : TurnId) : Leaves (during id) exit := fun reason worker _ => hduring id reason worker
  refine .bind (fun id worker => (∀ opened, turn = some opened → id = opened) ∧ inv worker) ?_
    fun id => ?_
  · rcases turn with _ | opened
    · refine (turn_holds htimeless hbefore none).imp (fun _ hinv => hinv)
        (fun id worker hinv => ⟨fun _ hother => (by cases hother), hinv⟩) fun _ _ hlast => hlast
    · exact .pure fun worker hinv => ⟨fun _ hsame => Option.some.inj hsame, hinv⟩
  refine Holds.imp ?_ (fun worker hseen => hturn id worker hseen.1 hseen.2) (fun _ _ hlast => hlast)
    fun _ _ hlast => hlast
  refine .bind _ (notice_holds (hapart id).timeless (hleaves id) turn warning) fun _ => ?_
  refine .bind _ (turnRef_holds (hleaves id) id) fun target => ?_
  refine .ghost fun seen hseen => ?_
  obtain ⟨htarget, -, -, hinv⟩ := hseen
  refine Holds.imp ?_ (fun worker hsame => hsame ▸ hinv) (fun _ _ hlast => hlast)
    fun _ _ hlast => hlast
  refine .bind _ (drive_apart (hduring id) fun client hmem =>
    attempt_apart (hapart id) (hleaves id) target _ (hmay client hmem)) fun result => ?_
  obtain ⟨response, next⟩ := result
  refine .ghost fun answered hanswered => ?_
  obtain ⟨hinv, hlist⟩ := hanswered
  refine Holds.imp ?_ (fun worker hsame => hsame ▸ hinv) (fun _ _ hlast => hlast)
    fun _ _ hlast => hlast
  refine .bind _ (completeResponse_apart (hapart id) (hleaves id) target htarget response) fun _ => ?_
  refine .bind (fun _ worker => ∃ kept, during id kept ∧
    worker = { kept with steps := kept.steps.count }) ?_ fun _ => ?_
  · exact .modify fun worker hkept => ⟨worker, hkept, rfl⟩
  refine .bind (fun _ worker => ∃ kept, during id kept ∧ worker = kept.stepped response) ?_ fun _ => ?_
  · refine .modify fun worker hkept => ?_
    obtain ⟨kept, hduringKept, rfl⟩ := hkept
    exact ⟨kept, hduringKept, rfl⟩
  · exact .pure fun _ hkept => ⟨hlist, hkept⟩

end Step

section Tools

variable [Conversation C] {env : Env} {inv : Worker C → Prop} {exit : Stop → Worker C → Prop}

/-- A round of tools for the turn does not touch the invariant. -/
structure ToolsApart (env : Env) (turn : TurnId) (inv : Worker C → Prop) : Prop where
  timeless : Timeless inv
  results : ∀ worker results, inv worker →
    inv { worker with session := { worker.session with results } }
  started : ∀ worker call, inv worker → inv { worker with log := worker.log ++ [.ToolStarted call] }
  completed : ∀ worker target results outcome session host, target.id = turn → inv worker →
    worker.session.completeResult env.ports worker.host target results = (outcome, session, host) →
      inv (worker.added session.conversation host)

/-- The completion of a result changes the conversation and the results of the session alone. -/
private theorem completeResult_objects {ports : Ports MailItem} {session next : Session C}
    {host after : Host C} {turn : AiTurnRef} {results : RuntimeToolResults}
    {outcome : Except SessionError Unit}
    (hcompleted : session.completeResult ports host turn results = (outcome, next, after)) :
    next = { session with conversation := next.conversation, results := next.results } := by
  have hkept := (session.add_objects ports host (applyResults · turn results)).1
  unfold Session.completeResult at hcompleted
  rcases hadd : session.add ports host (applyResults · turn results) with ⟨outcome', added, host'⟩
  rw [hadd] at hcompleted hkept
  obtain ⟨conversation, responses, listed⟩ := added
  obtain rfl : responses = session.responses := hkept
  rcases outcome' with error | ⟨⟩
  · rcases error with error | turn | mail | error
    all_goals
      cases hcompleted
      rfl
  · cases hcompleted
    rfl

theorem completeResult_holds {turn : TurnId} (hapart : ToolsApart env turn inv)
    (hleaves : Leaves inv exit) (target : AiTurnRef) (htarget : target.id = turn)
    (results : RuntimeToolResults) :
    Holds inv (Worker.completeResult env target results : Doing C Unit) (fun _ => inv) exit := by
  refine .read fun before hbefore => ?_
  rcases hcompleted : before.session.completeResult env.ports before.host target results with
    ⟨outcome, session, host⟩
  have hadded := hapart.completed before target results outcome session host htarget hbefore
    hcompleted
  refine .bind (fun _ worker => inv worker ∧ worker.session =
    { before.session with conversation := session.conversation }) ?_ fun _ => ?_
  · refine .modify fun worker hsame => ?_
    rw [hsame]
    exact ⟨hadded, rfl⟩
  refine .bind (fun _ worker => inv worker ∧ worker.session =
    { before.session with conversation := session.conversation }) ?_ fun _ => ?_
  · exact await_holds
      (fun worker moment hle hinv => ⟨hapart.timeless worker moment hle hinv.1, hinv.2⟩)
      (fun reason worker hfatal hinv => hleaves reason worker hfatal hinv.1) env
  refine .bind (fun _ => inv) (.modify fun worker hinv => ?_) fun _ => ?_
  · obtain ⟨hinv, hsession⟩ := hinv
    have hresults := hapart.results worker session.results hinv
    rw [hsession] at hresults
    rw [completeResult_objects hcompleted]
    exact hresults
  exact .ofExcept (fun _ _ _ hinv => hinv) fun _ _ worker =>
    hleaves _ worker (Fault.fatal fun _ hother => by cases hother)

theorem openResults_holds {turn : TurnId} (hapart : ToolsApart env turn inv)
    (hleaves : Leaves inv exit) (calls : List RuntimeToolCall) :
    Holds inv (Worker.openResults env calls : Doing C _) (fun _ => inv) exit := by
  induction calls with
  | nil => exact .pure fun _ hinv => hinv
  | cons call rest hind =>
      refine .bind _ (answer_holds hapart.timeless hleaves env.entryId) fun entry => ?_
      refine .bind (fun _ => inv) ?_ fun _ => ?_
      · refine .bind _ (await_holds hapart.timeless hleaves env) fun _ => ?_
        refine .bind _ (ask_holds hapart.timeless env.openAnswer) fun answer => ?_
        rcases answer with _ | error
        · exact .modify fun worker hinv => hapart.results worker _ hinv
        · exact fault_holds hleaves fun _ hother => by cases hother
      · exact .bind _ hind fun _ => .pure fun _ hinv => hinv

theorem startCalls_holds {turn : TurnId} (hapart : ToolsApart env turn inv)
    (hleaves : Leaves inv exit) (calls : List (RuntimeToolCall × EntryId)) :
    Holds inv (Worker.startCalls env calls : Doing C _) (fun _ => inv) exit := by
  induction calls with
  | nil => exact .pure fun _ hinv => hinv
  | cons call rest hind =>
      obtain ⟨call, entry⟩ := call
      refine .read fun before hbefore => ?_
      refine .weaken inv _ ?_ fun worker hworker => hworker ▸ hbefore
      cases before.tools.find call.name with
      | none =>
          refine .bind _ (ask_holds hapart.timeless env.content) fun content => ?_
          refine .bind _ (value_holds hleaves content) fun _ => ?_
          exact .bind _ hind fun _ => .pure fun _ hinv => hinv
      | some tool =>
          refine .read fun seen hseen => ?_
          refine .weaken inv _ ?_ fun worker hworker => hworker ▸ hseen
          refine .bind _ (ask_holds hapart.timeless _) fun ended => ?_
          have hstarted : Holds inv (Worker.emit [.ToolStarted call.id] : Doing C Unit)
              (fun _ => inv) exit :=
            .modify fun worker hinv => hapart.started worker call.id hinv
          exact .bind _ hstarted fun _ => .bind _ hind fun _ => .pure fun _ hinv => hinv

omit [Conversation C] in
theorem blockIds_holds (htimeless : Timeless inv) (hleaves : Leaves inv exit) (count : Nat) :
    Holds inv (Worker.blockIds env count : Doing C _) (fun _ => inv) exit := by
  induction count with
  | zero => exact .pure fun _ hinv => hinv
  | succ more hind =>
      refine .bind _ (answer_holds htimeless hleaves env.blockId) fun id => ?_
      exact .bind _ hind fun _ => .pure fun _ hinv => hinv

theorem completeCall_holds {turn : TurnId} (hapart : ToolsApart env turn inv)
    (hleaves : Leaves inv exit) (target : AiTurnRef) (htarget : target.id = turn) (entry : EntryId)
    (call : BlockId) (name : ToolName) (content : ToolContent) :
    Holds inv (Worker.completeCall env target entry call name content : Doing C Unit) (fun _ => inv)
      exit := by
  refine .bind _ (blockIds_holds hapart.timeless hleaves _) fun ids => ?_
  refine .bind _ (answer_holds hapart.timeless hleaves env.blockId) fun id => ?_
  refine .bind _ (ask_holds hapart.timeless env.content) fun made => ?_
  refine .bind _ (value_holds hleaves made) fun _ => ?_
  have hlast := Holds.bind _ (ask_holds hapart.timeless env.content) fun taken =>
    Holds.bind _ (value_holds hleaves taken) fun _ =>
      completeResult_holds hapart hleaves target htarget
        ⟨entry, [content.intoResult id call name ids]⟩
  split
  · exact .bind _ (fault_holds hleaves fun _ hother => by cases hother) fun _ => hlast
  · exact hlast

theorem completeCalls_holds {turn : TurnId} (hapart : ToolsApart env turn inv)
    (hleaves : Leaves inv exit) (target : AiTurnRef) (htarget : target.id = turn)
    (answers : List Worker.Immediate) :
    Holds inv (Worker.completeCalls env target answers : Doing C Unit) (fun _ => inv) exit := by
  induction answers with
  | nil => exact .pure fun _ hinv => hinv
  | cons answer rest hind =>
      exact .bind _ (completeCall_holds hapart hleaves target htarget _ _ _ _) fun _ => hind

omit [Conversation C] in
theorem unlessTriggered_holds (htimeless : Timeless inv) (hleaves : Leaves inv exit) :
    Holds inv (Worker.unlessTriggered env : Doing C Unit) (fun _ => inv) exit := by
  refine .bind _ (ask_holds htimeless _) fun triggered => ?_
  cases triggered with
  | true => exact .stop fun worker => hleaves _ worker fun _ hother => by cases hother
  | false => exact .pure fun _ hinv => hinv

theorem joined_holds {turn : TurnId} (hapart : ToolsApart env turn inv)
    (hleaves : Leaves inv exit) (target : AiTurnRef) (htarget : target.id = turn)
    (finished : Worker.Finished) :
    Holds inv (Worker.joined env target finished : Doing C Unit) (fun _ => inv) exit := by
  have hcomplete := completeCall_holds hapart hleaves target htarget finished.entry finished.call
    finished.name
  have hchecked : Holds inv (Worker.unlessTriggered env : Doing C Unit) (fun _ => inv) exit :=
    unlessTriggered_holds hapart.timeless hleaves
  unfold Worker.joined
  cases finished.ended with
  | Panicked text => exact fault_holds hleaves fun _ hother => by cases hother
  | Faulted cause =>
      exact .bind _ hchecked fun _ => fault_holds hleaves fun _ hother => by cases hother
  | TimedOut =>
      refine .bind _ hchecked fun _ => ?_
      refine .bind _ (ask_holds hapart.timeless env.content) fun made => ?_
      exact .bind _ (value_holds hleaves made) fun _ => hcomplete _
  | Answered content => exact .bind _ hchecked fun _ => hcomplete content

theorem joinNext_holds {turn : TurnId} (hapart : ToolsApart env turn inv)
    (hleaves : Leaves inv exit) (target : AiTurnRef) (htarget : target.id = turn) (more : Nat)
    (running : List Worker.Finished) :
    Holds inv (Worker.joinNext env target more running : Doing C Unit) (fun _ => inv) exit := by
  induction more generalizing running with
  | zero => exact .pure fun _ hinv => hinv
  | succ more hind =>
      refine .bind _ (await_holds hapart.timeless hleaves env) fun _ => ?_
      refine .bind _ (ask_holds hapart.timeless _) fun place => ?_
      dsimp only
      split
      · exact .pure fun _ hinv => hinv
      · exact .bind _ (joined_holds hapart hleaves target htarget _) fun _ => hind _

theorem toolRound_holds {turn : TurnId} (hapart : ToolsApart env turn inv)
    (hleaves : Leaves inv exit) (response : ModelResponse) :
    Holds inv (Worker.toolRound env turn response : Doing C Unit) (fun _ => inv) exit := by
  refine .bind _ (turnRef_holds hleaves turn) fun target => ?_
  refine .ghost fun seen hseen => ?_
  obtain ⟨htarget, -, -, hinv⟩ := hseen
  refine Holds.imp ?_ (fun worker hsame => hsame ▸ hinv) (fun _ _ hlast => hlast)
    fun _ _ hlast => hlast
  refine .bind _ (openResults_holds hapart hleaves _) fun opened => ?_
  refine .bind _ (startCalls_holds hapart hleaves opened) fun started => ?_
  refine .bind _ (completeCalls_holds hapart hleaves target htarget started.1) fun _ => ?_
  exact joinNext_holds hapart hleaves target htarget _ started.2

end Tools

section Boundary

variable [Conversation C] {ports : Ports MailItem} {inv : Session C → Host C → Prop}

/-- What the additions of a boundary do not touch: its entries go into the turn that is open, if
there is one, and into a new input turn otherwise. -/
structure BoundaryApart (ports : Ports MailItem) (turn : Option AiTurnRef)
    (inv : Session C → Host C → Prop) : Prop where
  calls : ∀ session host after, inv session host → after.thread = host.thread → inv session after
  entry : ∀ target, turn = some target → ∀ session host entry made outcome next after,
    inv session host → Conversation.tryTurnEntry session.conversation entry = .ok made →
      session.addEntry ports host target made = (outcome, next, after) → inv next after
  input : ∀ session host id entries made outcome next after, inv session host →
    Conversation.newInputTurn session.conversation id entries = .ok made →
      session.addInputTurn ports host made = (outcome, next, after) → inv next after

private theorem storeInOpenTurn_apart {target : AiTurnRef}
    (hapart : BoundaryApart ports (some target) inv) (fresh : List (InboxItem × IncomingEntry))
    {run : Run C} (hinv : inv run.session run.host) :
    inv (run.storeInOpenTurn ports target fresh).2.session
      (run.storeInOpenTurn ports target fresh).2.host := by
  induction fresh generalizing run with
  | nil => exact hinv
  | cons one rest hind =>
      obtain ⟨item, entry⟩ := one
      unfold Run.storeInOpenTurn
      rcases htried : Conversation.tryTurnEntry run.session.conversation entry with error | made
      · exact hinv
      · dsimp only
        rcases hadd : run.session.addEntry ports run.host target made with ⟨outcome, next, after⟩
        have hnext := hapart.entry target rfl run.session run.host entry made outcome next after hinv
          htried hadd
        rcases outcome with error | ⟨⟩
        · exact hnext
        · obtain ⟨-, hsession, hthread⟩ :=
            @Run.store_did C ports { run with session := next, host := after } item
          refine hind ?_
          rw [hsession]
          exact hapart.calls next after _ hnext hthread

private theorem storeInNewInputTurn_apart {turn : Option AiTurnRef}
    (hapart : BoundaryApart ports turn inv) (id : TurnId) (fresh : List (InboxItem × IncomingEntry))
    {run : Run C} (hinv : inv run.session run.host) :
    inv (run.storeInNewInputTurn ports id fresh).2.session
      (run.storeInNewInputTurn ports id fresh).2.host := by
  unfold Run.storeInNewInputTurn
  split
  · exact hinv
  · rcases hmade : Conversation.newInputTurn run.session.conversation id (fresh.map Prod.snd) with
      error | made
    · exact hinv
    · dsimp only
      rcases hadd : run.session.addInputTurn ports run.host made with ⟨outcome, next, after⟩
      have hnext := hapart.input run.session run.host id _ made outcome next after hinv hmade hadd
      rcases outcome with error | ⟨⟩
      · exact hnext
      · obtain ⟨-, hsession, hthread⟩ := @Run.storeAll_did C ports
          { run with session := next, host := after } (fresh.map Prod.fst)
        dsimp only at hsession hthread ⊢
        rw [hsession]
        exact hapart.calls next after _ hnext hthread

theorem storeAtBoundary_apart {session : Session C} {host : Host C} {agent : AgentId}
    (hapart : BoundaryApart ports (session.openAiTurn agent) inv) (hinv : inv session host)
    (queue : Queue) (newTurn : TurnId) :
    inv (storeAtBoundary ports session host agent queue newTurn).2.1
      (storeAtBoundary ports session host agent queue newTurn).2.2.1 := by
  suffices hrun : inv (runBoundary ports ⟨session, host, [], .empty⟩ agent queue newTurn).2.session
      (runBoundary ports ⟨session, host, [], .empty⟩ agent queue newTurn).2.host by
    unfold storeAtBoundary
    rcases hends : runBoundary ports ⟨session, host, [], .empty⟩ agent queue newTurn with
      ⟨error | ⟨⟩, run⟩
    · rw [hends] at hrun
      exact hrun
    · rw [hends] at hrun
      exact hrun
  obtain ⟨⟨calls, hcalls⟩, -⟩ := sort_spec ports session queue host
  unfold runBoundary
  rcases hsorted : sort ports session host queue with ⟨error | ⟨held, fresh⟩, after⟩
  · rw [hsorted] at hcalls
    exact hapart.calls session host after hinv (by rw [show after = _ from hcalls])
  · rw [hsorted] at hcalls
    dsimp only
    obtain ⟨-, hsession, hthread⟩ := @Run.skipHeld_did C ports ⟨session, after, [], .empty⟩ held
    have hskipped : inv (Run.skipHeld ports ⟨session, after, [], .empty⟩ held).session
        (Run.skipHeld ports ⟨session, after, [], .empty⟩ held).host := by
      rw [hsession]
      exact hapart.calls session host _ hinv (by rw [hthread, show after = _ from hcalls])
    rw [hsession]
    split
    · rename_i target hopen
      exact storeInOpenTurn_apart (hopen ▸ hapart) fresh hskipped
    · exact storeInNewInputTurn_apart hapart newTurn fresh hskipped

theorem storeAtBoundary_responses (ports : Ports MailItem) (session : Session C) (host : Host C) (agent : AgentId)
    (queue : Queue) (newTurn : TurnId) :
    (storeAtBoundary ports session host agent queue newTurn).2.1.responses = session.responses := by
  have hapart : BoundaryApart ports (session.openAiTurn agent)
      fun next (_ : Host C) => next.responses = session.responses := ?_
  · exact storeAtBoundary_apart hapart rfl queue newTurn
  refine ⟨fun _ _ _ hinv _ => hinv, fun target _ next host entry made outcome last after hinv _
    hadd => ?_, fun next host id entries made outcome last after hinv _ hadd => ?_⟩
  · have hkept := (next.add_objects ports host (applyEntry · target made)).1
    rw [show next.add ports host (applyEntry · target made) = _ from hadd] at hkept
    exact hkept.trans hinv
  · have hkept := (next.add_objects ports host (applyInputTurn · made)).1
    rw [show next.add ports host (applyInputTurn · made) = _ from hadd] at hkept
    exact hkept.trans hinv

end Boundary

section Drain

variable [Conversation C] {env : Env} {inv : Worker C → Prop} {exit : Stop → Worker C → Prop}

/-- A boundary does not touch the invariant, as long as the counters are not reset. -/
structure DrainApart (env : Env) (inv : Worker C → Prop) : Prop where
  timeless : Timeless inv
  queue : ∀ worker queue reading, inv worker → inv { worker with queue, reading }
  stored : ∀ worker queue turn outcome session host left, inv worker →
    storeAtBoundary env.ports worker.session worker.host worker.agent queue turn =
      (outcome, session, host, left) → inv { worker with session, host }

private theorem storeAtBoundary_holds (hapart : DrainApart env inv) (hleaves : Leaves inv exit)
    (turn : TurnId) :
    Holds inv (Worker.storeAtBoundary env turn : Doing C Boundary) (fun _ => inv) exit := by
  refine .read fun before hbefore => ?_
  refine .bind (fun _ worker => inv worker ∧ worker.session = before.session ∧
    worker.host = before.host ∧ worker.agent = before.agent) ?_ fun interruption => ?_
  · intro worker hsame
    rw [hsame]
    exact .inl ⟨_, _, rfl, hapart.timeless before _ (Nat.le_succ _) hbefore, rfl, rfl, rfl⟩
  -- what the boundary makes of any queue that it has taken
  have hstored (queue left : Queue) (worker : Worker C) (hinv : inv worker ∧
      worker.session = before.session ∧ worker.host = before.host ∧ worker.agent = before.agent)
      {outcome : Except BoundaryError Boundary} {session : Session C} {host : Host C}
      {rest : Queue} (hstore : Agentic.storeAtBoundary env.ports before.session before.host
        before.agent queue turn = (outcome, session, host, rest)) :
      inv { worker with session, host, queue := left } := by
    obtain ⟨hinv, hsession, hhost, hagent⟩ := hinv
    rw [← hsession, ← hhost, ← hagent] at hstore
    exact hapart.queue _ left worker.reading
      (hapart.stored worker queue turn outcome session host rest hinv hstore)
  rcases interruption with _ | interruption
  · dsimp only
    rcases hstore : Agentic.storeAtBoundary env.ports before.session before.host before.agent
      before.queue turn with ⟨outcome, session, host, rest⟩
    refine .bind (fun _ => inv) ?_ fun _ => ?_
    · exact .modify fun worker hinv => hstored before.queue rest worker hinv hstore
    · exact .ofExcept (fun _ _ _ hinv => hinv) fun _ _ worker =>
        hleaves _ worker (Fault.fatal fun _ hother => by cases hother)
  · dsimp only
    refine .bind (fun _ worker => inv worker ∧ worker.session = before.session ∧
      worker.host = before.host ∧ worker.agent = before.agent) ?_ fun part => ?_
    · exact ask_holds
        (fun worker moment hle hinv => ⟨hapart.timeless worker moment hle hinv.1, hinv.2⟩) _
    rcases hstore : Agentic.storeAtBoundary env.ports before.session before.host before.agent
      part turn with ⟨outcome, session, host, rest⟩
    refine .bind (fun _ => inv) ?_ fun _ => ?_
    · exact .modify fun worker hinv => hstored part [] worker hinv hstore
    · exact .stop fun worker => hleaves _ worker interruption.fatal

private theorem refreshRead_holds (hapart : DrainApart env inv) :
    Holds inv (Worker.refreshRead env : Doing C Unit) (fun _ => inv) exit := by
  refine .read fun before hbefore => ?_
  have hat : Holds (fun worker => worker = before) (Worker.ask env.finished : Doing C _)
      (fun _ => inv) exit := by
    intro worker hsame
    rw [hsame]
    exact .inl ⟨_, _, rfl, hapart.timeless before _ (Nat.le_succ _) hbefore⟩
  split
  · refine .bind _ hat fun items => ?_
    rcases items with _ | items
    · exact .pure fun _ hinv => hinv
    · exact .modify fun worker hinv => hapart.queue worker _ worker.reading hinv
  · refine .modify fun worker hsame => ?_
    rw [hsame]
    exact hapart.queue before before.queue true hbefore

/-- The counters are reset, and the world sees why. -/
def Worker.requested (worker : Worker C) : Worker C :=
  { worker with counters := .zero, log := worker.log ++ [.RequestStored] }

/-- What a drain comes to: the counters are reset exactly when it has stored a request. -/
def DrainedFrom (inv : Worker C → Prop) (drained : Drained) (worker : Worker C) : Prop :=
  ∃ kept, inv kept ∧
    (drained.requestStored = true ∧ 0 < drained.stored ∧ worker = kept.requested ∨
      drained.requestStored = false ∧ worker = kept)

theorem drain_holds (hapart : DrainApart env inv) (hleaves : Leaves inv exit) :
    Holds inv (Worker.drain env : Doing C Drained) (DrainedFrom inv) exit := by
  refine .read fun before hbefore => ?_
  refine Holds.imp ?_ (fun worker hsame => hsame ▸ hbefore) (fun _ _ hlast => hlast)
    fun _ _ hlast => hlast
  split
  · exact .pure fun worker hinv => ⟨worker, hinv, .inr ⟨rfl, rfl⟩⟩
  refine .bind _ (refreshRead_holds hapart) fun _ => ?_
  refine .read fun seen hseen => ?_
  refine Holds.imp ?_ (fun worker hsame => hsame ▸ hseen) (fun _ _ hlast => hlast)
    fun _ _ hlast => hlast
  dsimp only
  split
  · exact .pure fun worker hinv => ⟨worker, hinv, .inr ⟨rfl, rfl⟩⟩
  refine .bind _ (answer_holds hapart.timeless hleaves env.turnId) fun turn => ?_
  refine .bind _ (storeAtBoundary_holds hapart hleaves turn) fun boundary => ?_
  split
  · rename_i hrequest
    refine .bind (fun _ worker => ∃ kept, inv kept ∧
      worker = { kept with counters := .zero }) (.modify fun worker hinv => ⟨worker, hinv, rfl⟩)
      fun _ => ?_
    refine .bind (fun _ worker => ∃ kept, inv kept ∧ worker = kept.requested)
      (.modify fun worker hkept => ?_) fun _ => ?_
    · obtain ⟨kept, hinv, rfl⟩ := hkept
      exact ⟨kept, hinv, rfl⟩
    · refine .pure fun worker hkept => ?_
      obtain ⟨kept, hinv, rfl⟩ := hkept
      obtain ⟨entry, hentry, -⟩ := List.any_eq_true.mp hrequest
      exact ⟨kept, hinv, .inl ⟨hrequest, List.length_pos_of_mem hentry, rfl⟩⟩
  · rename_i hnone
    exact .pure fun worker hinv => ⟨worker, hinv, .inr ⟨Bool.not_eq_true _ ▸ hnone, rfl⟩⟩

end Drain

end LlmGraph.Agentic
