/- digest: What the world sees of a generator-critic, told by an account of it: when a pass is the last
   one, when the critic is called, how often it rejects, and what the outcome says of it. -/

import Mathlib.Data.List.Induction
import LlmGraph.Agentic.GeneratorCritic
import LlmGraph.Agentic.Ledger
import LlmGraph.Agentic.Passes

set_option autoImplicit false
set_option relaxedAutoImplicit false

namespace LlmGraph.Agentic

open Lib (Act)
open Lib.Act (Holds)

section Accounts

/-- A generator-critic: its description, what its critics answer, and the response that its thread
holds already. -/
structure Gc where
  spec : GcSpec
  critics : CriticEnv
  given : Option ModelResponse

/-- A reply that is no refusal, not filtered, and not cut. -/
def CriticReply.Whole (reply : CriticReply) : Prop :=
  reply.ending ≠ .Refusal ∧ reply.ending ≠ .Filtering ∧ reply.ending ≠ .OutputExhaustion

/-- A client of the critic gives a verdict at a moment: it answers in time, with the thinking that is
expected of it, and its whole reply is structured; a rejection has a message that is a text. -/
inductive CriticEnv.Gives (critics : CriticEnv) (client : ModelClient) (moment : Nat) : Bool → Prop
  | validated (reply : CriticReply) (wire : Wire)
      (hreply : critics.critic moment client = some (.ok reply))
      (hthought : client.shouldHaveThought = true → reply.thinking = true) (hwhole : reply.Whole)
      (hwire : reply.structured = some (.ok wire)) (hverdict : wire.isValidated = true) :
      Gives critics client moment true
  | rejected (reply : CriticReply) (wire : Wire) (message : String)
      (hreply : critics.critic moment client = some (.ok reply))
      (hthought : client.shouldHaveThought = true → reply.thinking = true) (hwhole : reply.Whole)
      (hwire : reply.structured = some (.ok wire)) (hverdict : wire.isValidated = false)
      (hmessage : wire.message = some message) (htext : critics.text message = .ok ())
      (hblock : critics.blockId (moment + 1) = .ok ()) : Gives critics client moment false

section Unwrapped

variable {text : String → Except String Unit} {blockId : Except String Unit} {reply : CriticReply}
  {wire : Wire} {answer : Answer}

private theorem whole_iff : reply.Whole ↔ ¬(reply.ending = .Refusal || reply.ending = .Filtering ||
    reply.ending = .OutputExhaustion) = true := by
  unfold CriticReply.Whole
  simp [and_assoc]

private theorem mapError_ok {ε ε' α : Type} {result : Except ε α} {f : ε → ε'} {value : α}
    (hresult : result.mapError f = .ok value) : result = .ok value := by
  cases result with
  | error error => cases hresult
  | ok other =>
      cases hresult
      rfl

theorem unwrapAnswer_validated (hwhole : reply.Whole) (hwire : reply.structured = some (.ok wire))
    (hvalid : wire.isValidated = true) :
    unwrapAnswer text blockId reply = .ok ⟨true, wire.message.getD ""⟩ := by
  obtain ⟨isValidated, message⟩ := wire
  cases hvalid
  unfold unwrapAnswer
  rw [if_neg (whole_iff.mp hwhole), hwire]
  rfl

theorem unwrapAnswer_rejected {message : String} (hwhole : reply.Whole)
    (hwire : reply.structured = some (.ok ⟨false, some message⟩)) :
    unwrapAnswer text blockId reply = (do
      blockId
      (text message).mapError fun _ => "the critic does not validate and gives a blank message"
      return ⟨false, message⟩) := by
  unfold unwrapAnswer
  rw [if_neg (whole_iff.mp hwhole), hwire]
  rfl

/-- An answer is unwrapped from a whole, structured reply alone; a rejection has a message. -/
theorem unwrapAnswer_ok (hanswer : unwrapAnswer text blockId reply = .ok answer) :
    reply.Whole ∧ ∃ wire, reply.structured = some (.ok wire) ∧
      (wire.isValidated = true ∧ answer = ⟨true, wire.message.getD ""⟩ ∨
        wire.isValidated = false ∧ ∃ message, wire.message = some message ∧ blockId = .ok () ∧
          text message = .ok () ∧ answer = ⟨false, message⟩) := by
  have hwhole : reply.Whole := by
    refine whole_iff.mpr fun hcut => ?_
    unfold unwrapAnswer at hanswer
    rw [if_pos hcut] at hanswer
    cases hanswer
  refine ⟨hwhole, ?_⟩
  rcases hstructured : reply.structured with _ | error | ⟨_ | _, message⟩
  · rw [unwrapAnswer, if_neg (whole_iff.mp hwhole), hstructured] at hanswer
    cases hanswer
  · rw [unwrapAnswer, if_neg (whole_iff.mp hwhole), hstructured] at hanswer
    cases hanswer
  · refine ⟨_, rfl, .inr ⟨rfl, ?_⟩⟩
    rcases message with _ | message
    · rw [unwrapAnswer, if_neg (whole_iff.mp hwhole), hstructured] at hanswer
      cases hanswer
    rw [unwrapAnswer_rejected hwhole hstructured] at hanswer
    rcases blockId with error | ⟨⟩
    · cases hanswer
    rcases htext : text message with error | ⟨⟩
    · rw [htext] at hanswer
      cases hanswer
    rw [htext] at hanswer
    cases hanswer
    exact ⟨message, rfl, rfl, htext, rfl⟩
  · rw [unwrapAnswer_validated hwhole hstructured rfl] at hanswer
    cases hanswer
    exact ⟨_, rfl, .inl ⟨rfl, rfl⟩⟩

end Unwrapped

/-- What can be told from the effects seen so far: the rejections since a request was stored last, the
refusals in a row, the pass begun last, whether the last generation is scheduled, whether the pass to
come repairs a refused response, whether a request was stored since the last response was judged,
what the critic made of that response, the response of the last step, and the client of the critic
that was asked last, with the moment, while its verdict is not told, and the moments that are over. -/
structure Account where
  rounds : Nat
  refusals : Nat
  position : Nat
  isLast : Bool
  scheduled : Bool
  repair : Bool
  requested : Bool
  verdict : Option (ModelResponse × Bool)
  stepped : Option ModelResponse
  heard : Option (ModelClient × Nat)
  asked : Nat

namespace Account

def start : Account := ⟨0, 0, 0, false, false, false, false, none, none, none, 0⟩

def note (limit : Nat) (account : Account) : Effect → Account
  | .RequestStored => { account with rounds := 0, refusals := 0, requested := true }
  | .PassStarted start =>
      { account with
        position := start.position
        isLast := start.isLast
        scheduled := start.isLast
        repair := false
        requested := false
        verdict := none }
  | .Stepped response => { account with stepped := some response }
  | .Accepted => { account with refusals := 0 }
  | .Refused _ =>
      { account with refusals := account.refusals + 1, repair := true, requested := false }
  | .CriticCalled .. => { account with heard := none }
  | .CriticAsked client moment =>
      { account with heard := some (client, moment), asked := moment + 1 }
  | .Validated response =>
      { account with requested := false, verdict := some (response, true), heard := none }
  | .Rejected response =>
      { account with
        rounds := account.rounds + 1
        scheduled := limit ≤ account.rounds + 1
        requested := false
        verdict := some (response, false)
        heard := none }
  | _ => account

/-- The critic that was asked last has given a verdict that is not told. -/
def Due (critics : CriticEnv) (account : Account) (validated : Bool) : Prop :=
  ∃ client moment, account.heard = some (client, moment) ∧ critics.Gives client moment validated

end Account

/-- The account of a log. -/
def account (limit : Nat) (log : List Effect) : Account := log.foldl (Account.note limit) .start

/-- A pass starts as the account has it: it is the last one when the last generation is scheduled and
the draining at its start has stored no request, and it keeps the position for a repair. -/
structure PassStart.Fits (limit : Nat) (account : Account) (start : PassStart) : Prop where
  scheduled : start.scheduled = account.scheduled
  rounds : start.rounds = account.rounds
  atLimit : limit ≤ start.before → start.scheduled = true
  stored : start.requestStored = true → start.rounds = 0 ∧ account.requested = true
  noneStored : start.requestStored = false → start.rounds = start.before ∧
    (account.scheduled = true ∨ account.repair = true → account.requested = false)
  isLast : start.isLast = (start.scheduled && !start.requestStored)
  position : start.position =
    if account.repair && !start.requestStored then account.position else start.rounds

/-- A verdict is told of the response of the last step, or of the one that the thread held, when the
critic has given it. -/
structure Account.Tells (gc : Gc) (account : Account) (response : ModelResponse)
    (validated : Bool) : Prop where
  rounds : account.rounds < gc.spec.roundLimit.get
  isLast : account.isLast = false
  judged : account.stepped.or gc.given = some response
  due : account.Due gc.critics validated

/-- The check is given the response that is judged and the refusals so far, and answers so. -/
def Account.Checks (gc : Gc) (account : Account) (verdict : ProgrammaticVerdict) : Prop :=
  ∃ moment response, account.stepped.or gc.given = some response ∧
    gc.critics.check moment response account.refusals = .ok verdict

/-- What an effect may be, after an account: the clients of the generator and of the critic are those
of the entry of their ladders at the position of the pass. -/
def May (gc : Gc) (account : Account) : Effect → Prop
  | .PassStarted start => start.Fits gc.spec.roundLimit.get account
  | .Called client => client ∈ (gc.spec.generator.entry account.position).clients
  | .CriticCalled rounds position isLast => rounds = account.rounds ∧
      rounds < gc.spec.roundLimit.get ∧ position = account.position ∧ isLast = account.isLast ∧
        isLast = false
  | .CriticAsked client moment => client ∈ (gc.spec.critic.entry account.position).clients ∧
      account.asked ≤ moment
  | .Validated response => account.Tells gc response true
  | .Rejected response => account.Tells gc response false
  | .Accepted => account.Checks gc .Accept
  | .Refused refusals => refusals = account.refusals + 1 ∧
      ∃ reason, isBlank reason = false ∧ account.Checks gc (.Refuse reason)
  | _ => True

def Effect.verdict : Effect → Option Bool
  | Validated _ => some true
  | Rejected _ => some false
  | _ => none

/-- An effect may be what it is after an account, and is the verdict that the critic has given when
one is to be told. -/
structure Fits (gc : Gc) (account : Account) (effect : Effect) : Prop where
  may : May gc account effect
  due : ∀ validated, account.Due gc.critics validated → effect.verdict = some validated

/-- The log of a generator-critic: each effect fits the account of those before it, and the refusals in
a row are never as many as the limit. -/
structure Tracked (gc : Gc) (log : List Effect) : Prop where
  fits : ∀ seen effect rest, log = seen ++ effect :: rest →
    Fits gc (account gc.spec.roundLimit.get seen) effect
  below : ∀ limit, gc.spec.programmatic = some limit → ∀ seen, seen <+: log →
    (account gc.spec.roundLimit.get seen).refusals < limit.get

variable {gc : Gc} {log : List Effect} {effect : Effect}

theorem account_snoc (limit : Nat) (log : List Effect) (effect : Effect) :
    account limit (log ++ [effect]) = (account limit log).note limit effect := by
  unfold account
  rw [List.foldl_append]
  rfl

private theorem fits_snoc (hfits : ∀ seen effect rest, log = seen ++ effect :: rest →
      Fits gc (account gc.spec.roundLimit.get seen) effect)
    (heffect : Fits gc (account gc.spec.roundLimit.get log) effect) {seen rest : List Effect}
    {other : Effect} (hsplit : log ++ [effect] = seen ++ other :: rest) :
    Fits gc (account gc.spec.roundLimit.get seen) other := by
  rcases List.eq_nil_or_concat rest with rfl | ⟨before, last, rfl⟩
  · obtain ⟨rfl, hlast⟩ := List.append_inj' hsplit rfl
    cases hlast
    exact heffect
  · have hassoc : log ++ [effect] = (seen ++ other :: before) ++ [last] := by
      rw [hsplit]
      simp
    obtain ⟨rfl, -⟩ := List.append_inj' hassoc rfl
    exact hfits seen other before rfl

theorem Tracked.nil (gc : Gc) : Tracked gc [] where
  fits seen effect rest hsplit := by
    have hlength := congrArg List.length hsplit
    simp at hlength
  below limit _ seen hseen := by
    rw [List.prefix_nil.mp hseen]
    exact limit.positive

theorem Tracked.snoc (htracked : Tracked gc log)
    (heffect : Fits gc (account gc.spec.roundLimit.get log) effect)
    (hbelow : ∀ limit, gc.spec.programmatic = some limit →
      (account gc.spec.roundLimit.get (log ++ [effect])).refusals < limit.get) :
    Tracked gc (log ++ [effect]) where
  fits _ _ _ hsplit := fits_snoc htracked.fits heffect hsplit
  below limit hlimit seen hseen := by
    rcases List.prefix_concat_iff.mp hseen with rfl | hbefore
    · exact hbelow limit hlimit
    · exact htracked.below limit hlimit seen hbefore

theorem CriticEnv.Gives.unique {critics : CriticEnv} {client : ModelClient} {moment : Nat}
    {validated other : Bool} (hgives : critics.Gives client moment validated)
    (hother : critics.Gives client moment other) : validated = other := by
  cases hgives with
  | validated reply wire hreply hthought hwhole hwire hverdict =>
      cases hother with
      | validated => rfl
      | rejected reply' wire' message hreply' hthought' hwhole' hwire' hverdict' =>
          rw [hreply] at hreply'
          cases hreply'
          rw [hwire] at hwire'
          cases hwire'
          rw [← hverdict, ← hverdict']
  | rejected reply wire message hreply hthought hwhole hwire hverdict =>
      cases hother with
      | rejected => rfl
      | validated reply' wire' hreply' hthought' hwhole' hwire' hverdict' =>
          rw [hreply] at hreply'
          cases hreply'
          rw [hwire] at hwire'
          cases hwire'
          rw [← hverdict, ← hverdict']

theorem Account.Due.unique {critics : CriticEnv} {account : Account} {validated other : Bool}
    (hdue : account.Due critics validated) (hother : account.Due critics other) :
    validated = other := by
  obtain ⟨client, moment, hheard, hgives⟩ := hdue
  obtain ⟨client', moment', hheard', hgives'⟩ := hother
  rw [hheard] at hheard'
  cases hheard'
  exact hgives.unique hgives'

/-- A verdict that is told leaves none to be told, and the refusals as they were. -/
private theorem note_verdict {limit : Nat} (account : Account) {validated : Bool}
    (hverdict : effect.verdict = some validated) :
    (account.note limit effect).heard = none ∧
      (account.note limit effect).refusals = account.refusals ∧
        (account.note limit effect).asked = account.asked := by
  cases effect with
  | Validated | Rejected => exact ⟨rfl, rfl, rfl⟩
  | _ => cases hverdict

/-- No verdict is to be told. -/
def Account.Resolved (critics : CriticEnv) (account : Account) : Prop :=
  ∀ validated, ¬ account.Due critics validated

theorem Account.resolved_of_none {critics : CriticEnv} {account : Account}
    (hnone : account.heard = none) : account.Resolved critics := by
  rintro validated ⟨client, moment, hheard, -⟩
  rw [hnone] at hheard
  cases hheard

def Effect.asks : Effect → Bool
  | CriticAsked .. => true
  | _ => false

/-- An effect fits, and leaves no verdict to be told, when there is none and it asks no critic. -/
private theorem fits_note {account : Account} (hresolved : account.Resolved gc.critics)
    (hmay : May gc account effect) (hother : effect.asks = false) :
    Fits gc account effect ∧
      (account.note gc.spec.roundLimit.get effect).Resolved gc.critics ∧
      (account.note gc.spec.roundLimit.get effect).asked = account.asked := by
  refine ⟨⟨hmay, fun validated hdue => absurd hdue (hresolved validated)⟩, ?_⟩
  cases effect with
  | CriticAsked => cases hother
  | CriticCalled | Validated | Rejected => exact ⟨Account.resolved_of_none rfl, rfl⟩
  | _ => exact ⟨hresolved, rfl⟩

/-- Effects of passes, which the account does not tell. -/
def Effect.ofPass : Effect → Bool
  | Called _ | Stepped _ | PassStarted _ | CriticCalled .. | CriticAsked .. | Validated _
  | Rejected _ | Refused _ | Accepted | RequestStored => false
  | _ => true

private theorem note_ofPass (limit : Nat) (account : Account)
    (heffect : effect.ofPass = true ∨ ∃ client, effect = .Called client) :
    account.note limit effect = account := by
  rcases heffect with heffect | ⟨client, rfl⟩
  · cases effect with
    | Called | Stepped | PassStarted | CriticCalled | CriticAsked | Validated | Rejected | Refused
    | Accepted | RequestStored => cases heffect
    | _ => rfl
  · rfl

private theorem may_ofPass (account : Account) (heffect : effect.ofPass = true) :
    May gc account effect := by
  cases effect with
  | Called | Stepped | PassStarted | CriticCalled | CriticAsked | Validated | Rejected | Refused
  | Accepted | RequestStored => cases heffect
  | _ => trivial

def Effect.isRejection : Effect → Bool
  | Rejected _ => true
  | _ => false

/-- While no request is stored, the rounds of the account count the rejections. -/
private theorem rounds_between (limit : Nat) (before between : List Effect)
    (hnone : Effect.RequestStored ∉ between) :
    (account limit (before ++ between)).rounds =
      (account limit before).rounds + between.countP Effect.isRejection := by
  induction between using List.reverseRecOn with
  | nil => simp
  | append_singleton between effect hind =>
      have hrest := hind fun hmem => hnone (List.mem_append_left _ hmem)
      rw [← List.append_assoc, account_snoc, List.countP_append, ← Nat.add_assoc, ← hrest]
      cases effect with
      | RequestStored => exact absurd (List.mem_append_right _ List.mem_cons_self) hnone
      | _ => rfl

/-- The critic rejects no more often between two stored requests than the limit of the rounds. -/
theorem rejections_le (hfits : ∀ seen effect rest, log = seen ++ effect :: rest →
      Fits gc (account gc.spec.roundLimit.get seen) effect) {before between after : List Effect}
    (hsplit : log = before ++ between ++ after) (hnone : Effect.RequestStored ∉ between) :
    between.countP Effect.isRejection ≤ gc.spec.roundLimit.get := by
  induction between using List.reverseRecOn generalizing after with
  | nil => exact Nat.zero_le _
  | append_singleton between effect hind =>
      have hrest : Effect.RequestStored ∉ between := fun hmem => hnone (List.mem_append_left _ hmem)
      have hassoc : log = (before ++ between) ++ effect :: after := by
        rw [hsplit]
        simp
      have hcount := hind hassoc hrest
      rw [List.countP_append]
      cases effect with
      | Rejected response =>
          have htells : (account gc.spec.roundLimit.get (before ++ between)).Tells gc response
              false := (hfits _ _ after hassoc).may
          have hlt := htells.rounds
          have hone : [Effect.Rejected response].countP Effect.isRejection = 1 := rfl
          rw [rounds_between gc.spec.roundLimit.get before between hrest] at hlt
          omega
      | _ => exact hcount

end Accounts

section Tallies

variable {C : Type} {gc : Gc} {start worker : Worker C} {told told' : Account → Prop}

def Account.reset (account : Account) : Account :=
  { account with rounds := 0, refusals := 0, requested := true }

/-- The counters agree with the account of the log, and the moments at which the critic was asked are
over. -/
structure Agrees (gc : Gc) (log : List Effect) (counters : Counters) (moment : Nat) : Prop where
  tracked : Tracked gc log
  rounds : (account gc.spec.roundLimit.get log).rounds = counters.rounds
  refusals : (account gc.spec.roundLimit.get log).refusals = counters.refusals
  asked : (account gc.spec.roundLimit.get log).asked ≤ moment

/-- The account of what the worker has added to the log, which its counters agree with; no verdict is
to be told. -/
def Tallied (gc : Gc) (start : Worker C) (told : Account → Prop) (worker : Worker C) : Prop :=
  ∃ log, worker.log = start.log ++ log ∧ Agrees gc log worker.counters worker.moment ∧
    told (account gc.spec.roundLimit.get log) ∧
      (account gc.spec.roundLimit.get log).Resolved gc.critics

/-- How the log of an instance ends that is stopped: as many refusals in a row as the limit are its end,
and the fault says so. -/
def Halted (gc : Gc) (start : Worker C) (reason : Stop) (worker : Worker C) : Prop :=
  ∃ log, worker.log = start.log ++ log ∧
    (∀ seen effect rest, log = seen ++ effect :: rest →
      Fits gc (account gc.spec.roundLimit.get seen) effect) ∧
    (account gc.spec.roundLimit.get log).Resolved gc.critics ∧
    ∀ limit, gc.spec.programmatic = some limit → ∀ seen, seen <+: log →
      limit.get ≤ (account gc.spec.roundLimit.get seen).refusals →
        seen = log ∧ ∃ text, reason = .Fault (.ProgrammaticRefusal text)

/-- One effect more that fits, with the counters as it leaves them. -/
theorem Agrees.snoc {log : List Effect} {effect : Effect} {counters after : Counters}
    {moment later : Nat} (hagrees : Agrees gc log counters moment)
    (hfits : Fits gc (account gc.spec.roundLimit.get log) effect)
    (hrounds : ((account gc.spec.roundLimit.get log).note gc.spec.roundLimit.get effect).rounds =
      after.rounds)
    (hrefusals : ((account gc.spec.roundLimit.get log).note gc.spec.roundLimit.get
      effect).refusals = after.refusals)
    (hasked : ((account gc.spec.roundLimit.get log).note gc.spec.roundLimit.get effect).asked ≤
      later)
    (hbelow : ∀ limit, gc.spec.programmatic = some limit →
      counters.refusals < limit.get → after.refusals < limit.get) :
    Agrees gc (log ++ [effect]) after later where
  tracked := hagrees.tracked.snoc hfits fun limit hlimit => by
    have hbefore := hagrees.tracked.below limit hlimit log (List.prefix_refl log)
    rw [hagrees.refusals] at hbefore
    rw [account_snoc, hrefusals]
    exact hbelow limit hlimit hbefore
  rounds := by
    rw [account_snoc]
    exact hrounds
  refusals := by
    rw [account_snoc]
    exact hrefusals
  asked := by
    rw [account_snoc]
    exact hasked

namespace Tallied

theorem imp (htallied : Tallied gc start told worker)
    (himp : ∀ account, told account → told' account) : Tallied gc start told' worker := by
  obtain ⟨log, hlog, hagrees, htold, hresolved⟩ := htallied
  exact ⟨log, hlog, hagrees, himp _ htold, hresolved⟩

theorem halted (htallied : Tallied gc start told worker) (reason : Stop) :
    Halted gc start reason worker := by
  obtain ⟨log, hlog, hagrees, -, hresolved⟩ := htallied
  refine ⟨log, hlog, hagrees.tracked.fits, hresolved, fun limit hlimit seen hseen hreached => ?_⟩
  have hbelow := hagrees.tracked.below limit hlimit seen hseen
  omega

/-- An effect that may be, with the counters as it leaves them. -/
theorem move {effect : Effect} {counters : Counters} (htallied : Tallied gc start told worker)
    (hother : effect.asks = false)
    (hmove : ∀ account, told account → account.rounds = worker.counters.rounds →
      account.refusals = worker.counters.refusals →
      May gc account effect ∧ told' (account.note gc.spec.roundLimit.get effect) ∧
        (account.note gc.spec.roundLimit.get effect).rounds = counters.rounds ∧
        (account.note gc.spec.roundLimit.get effect).refusals = counters.refusals)
    (hbelow : ∀ limit, gc.spec.programmatic = some limit → worker.counters.refusals < limit.get →
      counters.refusals < limit.get) :
    Tallied gc start told' { worker with counters, log := worker.log ++ [effect] } := by
  obtain ⟨log, hlog, hagrees, htold, hresolved⟩ := htallied
  obtain ⟨hmay, htold', hrounds', hrefusals'⟩ := hmove _ htold hagrees.rounds hagrees.refusals
  obtain ⟨hfits, hresolved', hasked⟩ := fits_note hresolved hmay hother
  refine ⟨log ++ [effect], ?_, hagrees.snoc hfits hrounds' hrefusals' (hasked ▸ hagrees.asked)
    hbelow, ?_⟩
  · show worker.log ++ [effect] = start.log ++ (log ++ [effect])
    rw [hlog, List.append_assoc]
  · rw [account_snoc]
    exact ⟨htold', hresolved'⟩

/-- An effect that leaves the account as it was. -/
private theorem keep {effect : Effect} (htallied : Tallied gc start told worker)
    (heffect : effect.ofPass = true ∨ ∃ client, effect = .Called client)
    (hmay : ∀ account, told account → May gc account effect) :
    Tallied gc start told { worker with log := worker.log ++ [effect] } := by
  refine htallied.move ?_ (fun account htold hrounds hrefusals => ?_) fun _ _ hbelow => hbelow
  · rcases heffect with heffect | ⟨client, rfl⟩
    · cases effect with
      | CriticAsked => cases heffect
      | _ => rfl
    · rfl
  · rw [note_ofPass _ account heffect]
    exact ⟨hmay account htold, htold, hrounds, hrefusals⟩

theorem emit {effects : List Effect} (htallied : Tallied gc start told worker)
    (heffects : ∀ effect ∈ effects, effect.ofPass = true ∨ ∃ client, effect = .Called client)
    (hmay : ∀ effect ∈ effects, ∀ account, told account → May gc account effect) :
    Tallied gc start told { worker with log := worker.log ++ effects } := by
  induction effects generalizing worker with
  | nil =>
      rw [List.append_nil]
      exact htallied
  | cons effect rest hind =>
      have hone := htallied.keep (heffects effect List.mem_cons_self) (hmay effect List.mem_cons_self)
      have hrest := hind hone (fun other hmem => heffects other (List.mem_cons_of_mem _ hmem))
        fun other hmem => hmay other (List.mem_cons_of_mem _ hmem)
      have hassoc : worker.log ++ effect :: rest = (worker.log ++ [effect]) ++ rest := by simp
      rw [hassoc]
      exact hrest

theorem requested (htallied : Tallied gc start told worker)
    (hreset : ∀ account, told account → told' account.reset) :
    Tallied gc start told' worker.requested :=
  htallied.move rfl (fun account htold _ _ => ⟨trivial, hreset account htold, rfl, rfl⟩)
    fun limit _ _ => limit.positive

theorem timeless (gc : Gc) (start : Worker C) (told : Account → Prop) :
    Timeless (Tallied gc start told) := by
  rintro worker moment hle ⟨log, hlog, hagrees, htold⟩
  exact ⟨log, hlog, ⟨hagrees.tracked, hagrees.rounds, hagrees.refusals,
    Nat.le_trans hagrees.asked hle⟩, htold⟩

private theorem ofCalls_told {may : ModelClient → Prop}
    (hmay : ∀ account, told account → ∀ client, may client →
      client ∈ (gc.spec.generator.entry account.position).clients) {effect : Effect}
    (heffect : effect.OfCalls may) :
    (effect.ofPass = true ∨ ∃ client, effect = .Called client) ∧
      ∀ account, told account → May gc account effect := by
  obtain ⟨hmodel, hclient⟩ := heffect
  cases effect with
  | Called client =>
      exact ⟨.inr ⟨client, rfl⟩, fun account htold => hmay account htold client (hclient client rfl)⟩
  | Opened | Discarded | DiscardFailed | Completed => exact ⟨.inl rfl, fun _ _ => trivial⟩
  | _ => cases hmodel

variable [Conversation C] {env : Env}

/-- A step of the model, with the clients of the generator at the position of the account. -/
theorem step (gc : Gc) (start : Worker C) (told : Account → Prop) {may : ModelClient → Prop}
    (hmay : ∀ account, told account → ∀ client, may client →
      client ∈ (gc.spec.generator.entry account.position).clients) (turn : TurnId) :
    StepApart env turn may (Tallied gc start told) where
  timeless := timeless gc start told
  responses _ _ htallied := htallied
  called _ _ heffects htallied :=
    htallied.emit (fun effect hmem => (ofCalls_told hmay (heffects effect hmem)).1)
      fun effect hmem => (ofCalls_told hmay (heffects effect hmem)).2
  completed _ _ _ _ _ _ _ htallied _ := htallied

theorem drain (gc : Gc) (start : Worker C) (told : Account → Prop) :
    DrainApart env (Tallied gc start told) where
  timeless := timeless gc start told
  queue _ _ _ htallied := htallied
  stored _ _ _ _ _ _ _ htallied _ := htallied

theorem close (target : AiTurnRef) (reason : ClosureReason) :
    CloseApart env target reason (Tallied gc start told) := fun _ _ _ _ _ htallied _ => htallied

omit [Conversation C] in
private theorem emitOne {effect : Effect} (htallied : Tallied gc start told worker)
    (heffect : effect.ofPass = true) :
    Tallied gc start told { worker with log := worker.log ++ [effect] } :=
  htallied.keep (.inl heffect) fun account _ => may_ofPass account heffect

/-- A pass with the clients of the generator, in which a request may be stored at any boundary. -/
theorem pass (gc : Gc) (start : Worker C) {may : ModelClient → Prop}
    (hmay : ∀ account, told account → ∀ client, may client →
      client ∈ (gc.spec.generator.entry account.position).clients)
    (hstepped : ∀ account response, told account → told { account with stepped := some response })
    (hreset : ∀ account, told account → told account.reset) :
    PassApart env may (Tallied gc start told) where
  step := step gc start told hmay
  drain := drain gc start told
  close _ _ := close _ _
  tools _ :=
    { timeless := timeless gc start told
      results := fun _ _ htallied => htallied
      started := fun _ _ htallied => htallied.emitOne rfl
      completed := fun _ _ _ _ _ _ _ htallied _ => htallied }
  stepped _ response htallied :=
    htallied.move rfl (fun account htold hrounds hrefusals =>
      ⟨trivial, hstepped account response htold, hrounds, hrefusals⟩) fun _ _ hbelow => hbelow
  requested _ htallied := htallied.requested hreset
  entered _ _ htallied := htallied.emitOne rfl

end Tallied

end Tallies

section Judging

variable {C : Type} [Conversation C] {env : Env} {gc : Gc} {seats : Seats}
  {start : Worker C} {inv : Worker C → Prop} {exit : Stop → Worker C → Prop}
  {told told' : Account → Prop} {judged : Option ModelResponse → Prop}

/-- The effects of judging a response. -/
def Effect.ofCritic : Effect → Bool
  | PassStarted _ | CriticCalled .. | CriticAsked .. | Validated _ | Rejected _ | Refused _ | Accepted => true
  | _ => false

/-- Judging a response does not touch the invariant: no counter does, and neither do the messages that
it stores and the boundaries that it drains at. -/
structure JudgeApart (env : Env) (inv : Worker C → Prop) (exit : Stop → Worker C → Prop) : Prop where
  timeless : Timeless inv
  counters : ∀ worker counters, inv worker → inv { worker with counters }
  emitted : ∀ worker effect, effect.ofCritic = true → inv worker →
    inv { worker with log := worker.log ++ [effect] }
  leaves : ∀ reason worker, inv worker → exit reason worker
  drain : Holds inv (Worker.drain env) (fun _ => inv) exit
  store : ∀ agent author, Holds inv (Worker.storeMessage env agent author) (fun _ => inv) exit

/-- The worker is where the account says, and keeps the invariant. -/
def Stands (gc : Gc) (start : Worker C) (inv : Worker C → Prop) (told : Account → Prop)
    (worker : Worker C) : Prop :=
  Tallied gc start told worker ∧ inv worker

def Halts (gc : Gc) (start : Worker C) (exit : Stop → Worker C → Prop) (reason : Stop)
    (worker : Worker C) : Prop :=
  Halted gc start reason worker ∧ exit reason worker

theorem Stands.halts (hapart : JudgeApart env inv exit) {worker : Worker C}
    (hstands : Stands gc start inv told worker) (reason : Stop) :
    Halts gc start exit reason worker :=
  ⟨hstands.1.halted reason, hapart.leaves reason worker hstands.2⟩

private theorem leaves_stands (hapart : JudgeApart env inv exit) :
    Leaves (Stands gc start inv told) (Halts gc start exit) :=
  fun reason _ _ hstands => hstands.halts hapart reason

private theorem timeless_stands (hapart : JudgeApart env inv exit) :
    Timeless (Stands gc start inv told) :=
  fun worker moment hle hstands => ⟨Tallied.timeless gc start told worker moment hle hstands.1,
    hapart.timeless worker moment hle hstands.2⟩

theorem storeMessage_apart {may : ModelClient → Prop} (hstep : ∀ turn, StepApart env turn may inv)
    (hclose : ∀ target reason, CloseApart env target reason inv) (hleaves : Leaves inv exit)
    (agent : AgentId) (author : Author) :
    Holds inv (Worker.storeMessage env agent author) (fun _ => inv) exit := by
  have htimeless := (hstep 0).timeless
  refine .bind _ (answer_holds htimeless hleaves env.turnId) fun turn => ?_
  refine .bind _ (ask_holds htimeless env.content) fun content => ?_
  refine .bind _ (value_holds hleaves content) fun _ => ?_
  refine .bind _ (answer_holds htimeless hleaves env.entryId) fun entry => ?_
  refine .bind _ (ask_holds htimeless env.content) fun content => ?_
  refine .bind _ (value_holds hleaves content) fun _ => ?_
  refine .bind _ (completeResponse_apart (hstep turn) hleaves _ rfl _) fun _ => ?_
  exact closeTurn_holds htimeless hleaves (hclose _ _)

/-- A stored message is seen as effects of no pass, and keeps what judging keeps. -/
theorem storeMessage_stands (hapart : JudgeApart env inv exit) (agent : AgentId) (author : Author) :
    Holds (Stands gc start inv told) (Worker.storeMessage env agent author)
      (fun _ => Stands gc start inv told) (Halts gc start exit) := by
  have hstep (turn : TurnId) : StepApart env turn (fun _ => False) (Tallied gc start told) :=
    Tallied.step gc start told (fun _ _ _ himpossible => himpossible.elim) turn
  have htallied : Holds (Tallied gc start told) (Worker.storeMessage env agent author)
      (fun _ => Tallied gc start told) (Halted gc start) :=
    storeMessage_apart hstep Tallied.close
      (fun reason _ _ htallied => htallied.halted reason) agent author
  have hboth := (htallied.imp (fun _ hstands => And.left hstands) (fun _ _ hlast => hlast)
    fun _ _ hlast => hlast).and ((hapart.store agent author).imp (fun _ hstands => And.right hstands)
    (fun _ _ hlast => hlast) fun _ _ hlast => hlast)
  exact hboth

/-- What a drain of judging comes to. -/
def DrainedTo (gc : Gc) (start : Worker C) (inv : Worker C → Prop) (told : Account → Prop)
    (drained : Drained) (worker : Worker C) : Prop :=
  (drained.requestStored = true ∧ 0 < drained.stored ∧
    Stands gc start inv (fun account => ∃ before, told before ∧ account = before.reset) worker ∧
      worker.counters = .zero) ∨
  drained.requestStored = false ∧ Stands gc start inv told worker

theorem drain_stands (hapart : JudgeApart env inv exit) (told : Account → Prop)
    (counters : Counters) :
    Holds (fun worker => Stands gc start inv told worker ∧ worker.counters = counters)
      (Worker.drain env) (fun drained worker => DrainedTo gc start inv told drained worker ∧
        (drained.requestStored = false → worker.counters = counters)) (Halts gc start exit) := by
  have hdrain : DrainApart env fun worker => Tallied gc start told worker ∧
      worker.counters = counters :=
    ⟨fun worker moment hle hat => ⟨Tallied.timeless gc start told worker moment hle hat.1, hat.2⟩,
      fun _ _ _ hat => hat, fun _ _ _ _ _ _ _ hat _ => hat⟩
  have hleaves : Leaves (fun worker => Tallied gc start told worker ∧ worker.counters = counters)
      (Halted gc start) := fun reason _ _ hat => hat.1.halted reason
  have hboth := ((drain_holds hdrain hleaves).imp (fun _ hat => ⟨And.left hat.1, hat.2⟩)
    (fun _ _ hlast => hlast) fun _ _ hlast => hlast).and (hapart.drain.imp
    (fun _ hat => And.right (And.left hat)) (fun _ _ hlast => hlast) fun _ _ hlast => hlast)
  refine hboth.imp (fun _ hat => hat) (fun drained worker hdrained => ?_) fun _ _ hlast => hlast
  obtain ⟨⟨kept, ⟨htallied, hcounters⟩, ⟨hrequest, hstored, rfl⟩ | ⟨hnone, rfl⟩⟩, hinv⟩ := hdrained
  · refine ⟨.inl ⟨hrequest, hstored, ⟨?_, hinv⟩, rfl⟩, fun hother => ?_⟩
    · exact htallied.requested fun account htold => ⟨account, htold, rfl⟩
    · rw [hrequest] at hother
      cases hother
  · exact ⟨.inr ⟨hnone, htallied, hinv⟩, fun _ => hcounters⟩

/-- While a response is generated and judged, the response of the last step as `judged` has it. -/
structure Running (gc : Gc) (judged : Option ModelResponse → Prop) (state : Loop)
    (account : Account) : Prop where
  position : account.position = state.position
  isLast : account.isLast = state.isLast
  scheduled : account.scheduled = state.isLast
  lastScheduled : state.lastScheduled = state.isLast
  keep : state.keepPosition = none
  drainFirst : state.drainFirst = false
  repair : account.repair = false
  verdict : account.verdict = none
  stepped : judged account.stepped
  rounds : gc.spec.roundLimit.get ≤ account.rounds → state.isLast = true

/-- Before a pass. -/
structure Ready (gc : Gc) (state : Loop) (account : Account) : Prop where
  scheduled : account.scheduled = state.lastScheduled
  keep : state.keepPosition = if account.repair then some account.position else none
  rounds : gc.spec.roundLimit.get ≤ account.rounds → state.lastScheduled = true
  drain : (state.drainFirst = true ∧ account.requested = false) ∨
    (state.drainFirst = false ∧ account.scheduled = false ∧ account.repair = false)

theorem Running.reset {state : Loop} {account : Account} (hrunning : Running gc judged state account) :
    Running gc judged state account.reset where
  position := hrunning.position
  isLast := hrunning.isLast
  scheduled := hrunning.scheduled
  lastScheduled := hrunning.lastScheduled
  keep := hrunning.keep
  drainFirst := hrunning.drainFirst
  repair := hrunning.repair
  verdict := hrunning.verdict
  stepped := hrunning.stepped
  rounds hzero := absurd (Nat.le_zero.mp hzero) (Nat.ne_of_gt gc.spec.roundLimit.positive)

theorem Running.below {state : Loop} {account : Account} (hrunning : Running gc judged state account)
    (hlast : state.isLast = false) : account.rounds < gc.spec.roundLimit.get := by
  by_contra hreached
  have himpossible := hrunning.rounds (Nat.not_lt.mp hreached)
  rw [hlast] at himpossible
  cases himpossible

omit [Conversation C] in
theorem port_holds {α : Type} {answer : Nat → Except PortError α} (htimeless : Timeless inv)
    (hleaves : Leaves inv exit) :
    Holds inv (Worker.port env answer : Doing C α) (fun _ => inv) exit := by
  refine .bind _ (await_holds htimeless hleaves env) fun _ => ?_
  refine .bind _ (ask_holds htimeless answer) fun result => ?_
  exact .ofExcept (fun _ _ _ hinv => hinv) fun _ _ worker =>
    hleaves _ worker (Fault.fatal fun _ hother => by cases hother)

omit [Conversation C] in
/-- What an attempt makes of the reply of the critic is the verdict that it gives. -/
theorem criticChecked_gives (critics : CriticEnv) (client : ModelClient) (moment : Nat)
    (worker : Worker C) :
    (∀ answer, Worker.criticChecked critics worker client (critics.blockId (moment + 1))
      (critics.critic moment client) = .ok answer → critics.Gives client moment answer.validated) ∧
    ∀ failure, Worker.criticChecked critics worker client (critics.blockId (moment + 1))
      (critics.critic moment client) = .error failure →
        ∀ validated, ¬ critics.Gives client moment validated := by
  constructor
  · intro answer hchecked
    rcases hreply : critics.critic moment client with _ | error | reply
    · rw [hreply] at hchecked
      cases hchecked
    · rw [hreply] at hchecked
      cases hchecked
    rw [hreply] at hchecked
    unfold Worker.criticChecked at hchecked
    dsimp only at hchecked
    split at hchecked
    · cases hchecked
    rename_i hthinks
    have hthought : client.shouldHaveThought = true → reply.thinking = true := by
      simpa using hthinks
    obtain ⟨hwhole, wire, hwire, hanswer⟩ := unwrapAnswer_ok (mapError_ok hchecked)
    rcases hanswer with ⟨hvalid, rfl⟩ | ⟨hinvalid, message, hmessage, hblock, htext, rfl⟩
    · exact .validated reply wire hreply hthought hwhole hwire hvalid
    · exact .rejected reply wire message hreply hthought hwhole hwire hinvalid hmessage htext hblock
  · intro failure hchecked validated hgives
    have hgiven : ∃ reply, critics.critic moment client = some (.ok reply) ∧
        (client.shouldHaveThought = true → reply.thinking = true) ∧
        ∃ answer, unwrapAnswer critics.text (critics.blockId (moment + 1)) reply = .ok answer := by
      cases hgives with
      | validated reply wire hreply hthought hwhole hwire hvalid =>
          exact ⟨reply, hreply, hthought, _, unwrapAnswer_validated hwhole hwire hvalid⟩
      | rejected reply wire message hreply hthought hwhole hwire hinvalid hmessage htext hblock =>
          obtain ⟨isValidated, given⟩ := wire
          cases hinvalid
          cases hmessage
          refine ⟨reply, hreply, hthought, ⟨false, message⟩, ?_⟩
          rw [unwrapAnswer_rejected hwhole hwire, hblock, htext]
          rfl
    obtain ⟨reply, hreply, hthought, answer, hanswer⟩ := hgiven
    have hthinks : ¬(client.shouldHaveThought && !reply.thinking) = true := by
      simpa using hthought
    rw [hreply, Worker.criticChecked, if_neg hthinks, hanswer] at hchecked
    cases hchecked

/-- The critic has given a verdict that is to be told. -/
def Heard (gc : Gc) (start : Worker C) (inv : Worker C → Prop) (told : Account → Prop)
    (answer : Answer) (worker : Worker C) : Prop :=
  (∃ log, worker.log = start.log ++ log ∧ Agrees gc log worker.counters worker.moment ∧
    told (account gc.spec.roundLimit.get log) ∧
      (account gc.spec.roundLimit.get log).Due gc.critics answer.validated) ∧ inv worker

/-- The critic is asked, with a client of its entry, and its verdict is to be told when it gives one. -/
private theorem asked_stands (hapart : JudgeApart env inv exit) {state : Loop} {client : ModelClient}
    (hclient : client ∈ (gc.spec.critic.entry state.position).clients) {seen : Worker C}
    (hstands : Stands gc start inv (Running gc judged state) seen)
    (result : Except CallFailure Answer)
    (hchecked : result = Worker.criticChecked gc.critics seen client
      (gc.critics.blockId (seen.moment + 1)) (gc.critics.critic seen.moment client)) :
    Attempted (Stands gc start inv (Running gc judged state))
      (Heard gc start inv (Running gc judged state)) result
      { seen with
        moment := seen.moment + 2
        log := seen.log ++ [.CriticAsked client seen.moment] } := by
  obtain ⟨⟨log, hlog, hagrees, hrunning, hresolved⟩, hinv⟩ := hstands
  have hasked : account gc.spec.roundLimit.get (log ++ [.CriticAsked client seen.moment]) =
      { account gc.spec.roundLimit.get log with
        heard := some (client, seen.moment), asked := seen.moment + 1 } := account_snoc ..
  have hfits : Fits gc (account gc.spec.roundLimit.get log) (.CriticAsked client seen.moment) := {
    may := ⟨hrunning.position ▸ hclient, hagrees.asked⟩
    due := fun validated hdue => absurd hdue (hresolved validated) }
  have hagrees' : Agrees gc (log ++ [.CriticAsked client seen.moment]) seen.counters
      (seen.moment + 2) :=
    hagrees.snoc hfits hagrees.rounds hagrees.refusals (Nat.le_succ _) fun _ _ hbelow => hbelow
  have hlog' : seen.log ++ [Effect.CriticAsked client seen.moment] =
      start.log ++ (log ++ [.CriticAsked client seen.moment]) := by
    rw [hlog, List.append_assoc]
  have hrunning' : Running gc judged state
      (account gc.spec.roundLimit.get (log ++ [.CriticAsked client seen.moment])) := by
    rw [hasked]
    exact ⟨hrunning.position, hrunning.isLast, hrunning.scheduled, hrunning.lastScheduled,
      hrunning.keep, hrunning.drainFirst, hrunning.repair, hrunning.verdict, hrunning.stepped,
      hrunning.rounds⟩
  have hemitted : inv { seen with log := seen.log ++ [.CriticAsked client seen.moment] } :=
    hapart.emitted seen _ rfl hinv
  have hlater := hapart.timeless
    { seen with log := seen.log ++ [.CriticAsked client seen.moment] } (seen.moment + 2)
    (Nat.le_add_right _ _) hemitted
  have hgives := criticChecked_gives gc.critics client seen.moment seen
  rw [← hchecked] at hgives
  cases result with
  | error failure =>
      refine ⟨⟨_, hlog', hagrees', hrunning', ?_⟩, hlater⟩
      rw [hasked]
      rintro validated ⟨other, moment, hheard, hverdict⟩
      cases hheard
      exact hgives.2 failure rfl validated hverdict
  | ok answer =>
      refine ⟨⟨_, hlog', hagrees', hrunning', client, seen.moment, ?_, hgives.1 answer rfl⟩, hlater⟩
      rw [hasked]

/-- An attempt of the critic opens nothing, and no counter depends on it. -/
theorem criticAttempt_stands (hapart : JudgeApart env inv exit) {state : Loop} {client : ModelClient}
    (hclient : client ∈ (gc.spec.critic.entry state.position).clients) :
    Holds (Stands gc start inv (Running gc judged state))
      (Worker.criticAttempt env gc.critics client)
      (Attempted (Stands gc start inv (Running gc judged state))
        (Heard gc start inv (Running gc judged state))) (Halts gc start exit) := by
  have htimeless : Timeless (Stands gc start inv (Running gc judged state)) :=
    timeless_stands hapart
  have hleaves : Leaves (Stands gc start inv (Running gc judged state)) (Halts gc start exit) :=
    leaves_stands hapart
  refine .bind _ (ask_holds htimeless env.content) fun content => ?_
  refine .bind _ (value_holds hleaves content) fun _ => ?_
  refine .bind _ (answer_holds htimeless hleaves env.turnId) fun _ => ?_
  refine .bind _ (answer_holds htimeless hleaves env.entryId) fun _ => ?_
  refine .bind _ (ask_holds htimeless env.request) fun request => ?_
  refine .bind _ (value_holds hleaves request) fun _ => ?_
  refine .bind _ (await_holds htimeless hleaves env) fun _ => ?_
  refine .read fun seen hseen => ?_
  intro worker hsame
  rw [hsame]
  exact .inl ⟨_, _, rfl, asked_stands hapart hclient hseen _ rfl⟩

/-- The world sees what the critic answers. -/
def Worker.answered (worker : Worker C) (response : ModelResponse) (answer : Answer) : Worker C :=
  { worker with
    log := worker.log ++ [if answer.validated then .Validated response else .Rejected response] }

/-- The critic is called with rounds left, and not on the response of a last pass. -/
theorem askCritic_stands (hapart : JudgeApart env inv exit) {state : Loop}
    (hlast : state.isLast = false) (response : ModelResponse) :
    Holds (Stands gc start inv (Running gc judged state))
      (Worker.askCritic env gc.critics gc.spec seats response state)
      (fun answer worker => ∃ asked, Heard gc start inv (Running gc judged state) answer asked ∧
        worker = asked.answered response answer) (Halts gc start exit) := by
  have htimeless : Timeless (Stands gc start inv (Running gc judged state)) :=
    timeless_stands hapart
  have hleaves : Leaves (Stands gc start inv (Running gc judged state)) (Halts gc start exit) :=
    leaves_stands hapart
  refine .bind (fun _ => Stands gc start inv (Running gc judged state)) ?_ fun request => ?_
  · unfold Worker.criticRequest
    split
    · exact .pure fun _ hstands => hstands
    · exact port_holds htimeless hleaves
  refine .bind _ (value_holds hleaves _) fun _ => ?_
  refine .bind _ (value_holds hleaves _) fun seat => ?_
  refine .bind (Heard gc start inv (Running gc judged state)) ?_ fun answer => ?_
  · unfold Worker.callCritic
    split
    · exact fault_holds hleaves fun _ hother => by cases hother
    · refine .bind _ (ask_holds htimeless env.content) fun content => ?_
      refine .bind _ (value_holds hleaves content) fun _ => ?_
      refine .read fun seen hseen => ?_
      refine .bind (fun _ => Stands gc start inv (Running gc judged state)) ?_ fun _ => ?_
      · refine .modify fun worker hsame => ?_
        rw [hsame]
        refine ⟨hseen.1.move rfl (fun account hrunning hrounds hrefusals =>
          ⟨?_, ?_, hrounds, hrefusals⟩) (fun _ _ hbelow => hbelow),
          hapart.emitted seen _ rfl hseen.2⟩
        · have hbelow := hrunning.below hlast
          exact ⟨hrounds.symm, hrounds ▸ hbelow, hrunning.position.symm, hrunning.isLast.symm,
            hlast⟩
        · exact ⟨hrunning.position, hrunning.isLast, hrunning.scheduled, hrunning.lastScheduled,
            hrunning.keep, hrunning.drainFirst, hrunning.repair, hrunning.verdict,
            hrunning.stepped, hrunning.rounds⟩
      · refine .bind _ (drive_leaves (Heard gc start inv (Running gc judged state))
          (fun reason worker hstands => hstands.halts hapart reason) fun client hclient =>
            criticAttempt_stands hapart hclient) fun result => ?_
        exact .pure fun _ hheard => hheard.1
  · refine .bind (fun _ worker => ∃ asked,
      Heard gc start inv (Running gc judged state) answer asked ∧
        worker = asked.answered response answer) ?_ fun _ => .pure fun _ hasked => hasked
    exact .modify fun worker hheard => ⟨worker, hheard, rfl⟩

/-- The response is the one that is judged after such a last step. -/
def Gc.Judges (gc : Gc) (response : ModelResponse) (stepped : Option ModelResponse) : Prop :=
  stepped.or gc.given = some response

/-- What the outcome says of the verdict on its response. -/
def Judgement.verdict (judgement : Judgement) (response : ModelResponse) :
    Option (ModelResponse × Bool) :=
  match judgement with
  | Validated => some (response, true)
  | Rejected => some (response, false)
  | NotJudged => none

/-- The last step is that of the response, and what is said of it is what the critic made of it. -/
structure RoundsOver (gc : Gc) (response : ModelResponse) (judgement : Judgement)
    (account : Account) : Prop where
  verdict : account.verdict = judgement.verdict response
  stepped : gc.Judges response account.stepped

/-- What judging comes to: another pass, with a step left for it, or an end that says what the critic
made of the response. -/
def JudgedTo (gc : Gc) (start : Worker C) (inv : Worker C → Prop) (state : Loop)
    (worker : Worker C) : Next → Prop
  | .Pass => Stands gc start inv (Ready gc state) worker ∧ 0 < worker.steps.remaining
  | .End finish => Stands gc start inv (RoundsOver gc finish.response finish.judgement) worker

/-- A refusal is counted, and the world sees it. -/
def Worker.refused (worker : Worker C) : Worker C :=
  { worker with
    counters := { worker.counters with refusals := saturatingSucc worker.counters.refusals }
    log := worker.log ++ [.Refused (saturatingSucc worker.counters.refusals)] }

omit [Conversation C] in
/-- The refusals before another one: fewer than the limit, so the count does not saturate. -/
private theorem refusals_succ {refusalLimit : Limit} {worker : Worker C}
    (hlimit : gc.spec.programmatic = some refusalLimit) (htallied : Tallied gc start told worker) :
    saturatingSucc worker.counters.refusals = worker.counters.refusals + 1 := by
  obtain ⟨log, -, hagrees, -⟩ := htallied
  have hbelow := hagrees.tracked.below refusalLimit hlimit log (List.prefix_refl log)
  have hrefusals := hagrees.refusals
  have hfits := refusalLimit.fits
  unfold saturatingSucc
  omega

omit [Conversation C] in
/-- The check has refused the response that is judged, after so many refusals. -/
private theorem may_refuse {account : Account} {response : ModelResponse} {reason : String}
    {moment refusals : Nat} (hjudged : gc.Judges response account.stepped)
    (hrefusals : account.refusals = refusals) (hreason : isBlank reason = false)
    (hcheck : gc.critics.check moment response refusals = .ok (.Refuse reason)) :
    May gc account (.Refused (refusals + 1)) :=
  ⟨congrArg (· + 1) hrefusals.symm, reason, hreason, moment, response, hjudged,
    hrefusals ▸ hcheck⟩

omit [Conversation C] in
private theorem refused_ready {refusalLimit : Limit} {worker : Worker C} {state : Loop}
    {response : ModelResponse} {reason : String} {moment : Nat}
    (hlimit : gc.spec.programmatic = some refusalLimit) (hreason : isBlank reason = false)
    (hcheck : gc.critics.check moment response worker.counters.refusals = .ok (.Refuse reason))
    (htallied : Tallied gc start (Running gc (gc.Judges response) state) worker)
    (hbelow : saturatingSucc worker.counters.refusals < refusalLimit.get) :
    Tallied gc start (Ready gc { state with
      keepPosition := some state.position, drainFirst := true }) worker.refused := by
  have hsucc := refusals_succ hlimit htallied
  refine htallied.move rfl (fun account hrunning hrounds hrefusals => ?_) fun limit hother _ => ?_
  · refine ⟨?_, ⟨?_, ?_, ?_, .inl ⟨rfl, rfl⟩⟩, hrounds, ?_⟩
    · rw [hsucc]
      exact may_refuse hrunning.stepped hrefusals hreason hcheck
    · exact hrunning.scheduled.trans hrunning.lastScheduled.symm
    · exact congrArg some hrunning.position.symm
    · exact fun hreached => hrunning.lastScheduled.trans (hrunning.rounds hreached)
    · show account.refusals + 1 = saturatingSucc worker.counters.refusals
      rw [hsucc, hrefusals]
  · rw [hlimit] at hother
    cases hother
    exact hbelow

omit [Conversation C] in
/-- When the refusals reach their limit, or no step is left for a repair, the instance fails. -/
private theorem refused_halted {refusalLimit : Limit} {worker : Worker C} {state : Loop}
    {response : ModelResponse} {reason : String} {moment : Nat}
    (hlimit : gc.spec.programmatic = some refusalLimit) (hreason : isBlank reason = false)
    (hcheck : gc.critics.check moment response worker.counters.refusals = .ok (.Refuse reason))
    (htallied : Tallied gc start (Running gc (gc.Judges response) state) worker) :
    Halted gc start (.Fault (.ProgrammaticRefusal reason)) worker.refused := by
  have hsucc := refusals_succ hlimit htallied
  obtain ⟨log, hlog, hagrees, hrunning, hresolved⟩ := htallied
  have hmay : May gc (account gc.spec.roundLimit.get log)
      (.Refused (saturatingSucc worker.counters.refusals)) := by
    rw [hsucc]
    exact may_refuse hrunning.stepped hagrees.refusals hreason hcheck
  obtain ⟨hfits, hresolved', -⟩ := fits_note hresolved hmay rfl
  refine ⟨log ++ [.Refused (saturatingSucc worker.counters.refusals)], ?_, ?_, ?_, ?_⟩
  · show worker.log ++ _ = _
    rw [hlog, List.append_assoc]
  · exact fun seen effect rest hsplit => fits_snoc hagrees.tracked.fits hfits hsplit
  · rw [account_snoc]
    exact hresolved'
  · intro limit hother seen hseen hreached
    rcases List.prefix_concat_iff.mp hseen with rfl | hbefore
    · exact ⟨rfl, reason, rfl⟩
    · have hbelow := hagrees.tracked.below limit hother seen hbefore
      omega

omit [Conversation C] in
/-- A port leaves the counters as they are, and answers at some moment. -/
private theorem port_gives {α : Type} {answer : Nat → Except PortError α} (counters : Counters)
    (htimeless : Timeless inv) (hleaves : Leaves inv exit) :
    Holds (fun worker => inv worker ∧ worker.counters = counters)
      (Worker.port env answer : Doing C α)
      (fun result worker => (inv worker ∧ worker.counters = counters) ∧
        ∃ moment, answer moment = .ok result) exit := by
  have htimeless' : Timeless fun worker : Worker C => inv worker ∧ worker.counters = counters :=
    fun worker moment hle hat => ⟨htimeless worker moment hle hat.1, hat.2⟩
  have hleaves' : Leaves (fun worker : Worker C => inv worker ∧ worker.counters = counters) exit :=
    fun reason worker hfatal hat => hleaves reason worker hfatal hat.1
  refine .bind _ (await_holds htimeless' hleaves' env) fun _ => ?_
  refine .bind (fun result worker => (inv worker ∧ worker.counters = counters) ∧
    ∃ moment, answer moment = result) ?_ fun result => ?_
  · exact fun worker hat =>
      .inl ⟨_, _, rfl, htimeless' worker _ (Nat.le_succ _) hat, worker.moment, rfl⟩
  refine .ofExcept (fun value hvalue worker hat => ⟨hat.1, ?_⟩) fun _ _ worker hat =>
    hleaves' _ worker (Fault.fatal fun _ hother => by cases hother) hat.1
  obtain ⟨moment, hmoment⟩ := hat.2
  exact ⟨moment, hmoment.trans hvalue⟩

/-- A message that is stored leaves the counters as they are. -/
private theorem storeMessage_counters (hapart : JudgeApart env inv exit) (counters : Counters)
    (agent : AgentId) (author : Author) :
    Holds (fun worker => Stands gc start inv told worker ∧ worker.counters = counters)
      (Worker.storeMessage env agent author)
      (fun _ worker => Stands gc start inv told worker ∧ worker.counters = counters)
      (Halts gc start exit) := by
  have hstep (turn : TurnId) : StepApart env turn (fun _ => True)
      fun worker : Worker C => worker.counters = counters :=
    ⟨fun _ _ _ hat => hat, fun _ _ hat => hat, fun _ _ _ hat => hat,
      fun _ _ _ _ _ _ _ hat _ => hat⟩
  have hkept : Holds (fun worker : Worker C => worker.counters = counters)
      (Worker.storeMessage env agent author) (fun _ worker => worker.counters = counters)
      fun _ _ => True :=
    storeMessage_apart hstep (fun _ _ _ _ _ _ _ hat _ => hat) (fun _ _ _ _ => trivial) agent author
  exact (((storeMessage_stands hapart agent author).imp (fun _ hat => And.left hat)
    (fun _ _ hend => hend) fun _ _ hend => hend).and (hkept.imp (fun _ hat => And.right hat)
    (fun _ _ hend => hend) fun _ _ hend => hend)).imp (fun _ hat => hat) (fun _ _ hend => hend)
    fun _ _ hend => hend.1

/-- The programmatic check: a refused response is repaired in the position it has, with a step left. -/
theorem programmatic_stands (hapart : JudgeApart env inv exit) {state : Loop}
    (response : ModelResponse) :
    Holds (Stands gc start inv (Running gc (gc.Judges response) state))
      (Worker.programmatic env gc.critics gc.spec seats response state)
      (fun result worker => (result = (true, state) ∧
          Stands gc start inv (Running gc (gc.Judges response) state) worker) ∨
        (result.1 = false ∧ JudgedTo gc start inv result.2 worker .Pass))
      (Halts gc start exit) := by
  let told : Account → Prop := Running gc (gc.Judges response) state
  have htimeless : Timeless (Stands gc start inv told) := timeless_stands hapart
  have hleaves : Leaves (Stands gc start inv told) (Halts gc start exit) := leaves_stands hapart
  unfold Worker.programmatic
  split
  · exact .pure fun _ hstands => .inl ⟨rfl, hstands⟩
  rename_i refusalLimit hlimit
  refine .read fun before hbefore => ?_
  have hstart : Stands gc start inv told before ∧ before.counters = before.counters :=
    ⟨hbefore, rfl⟩
  refine .weaken (fun worker => Stands gc start inv told worker ∧
    worker.counters = before.counters) _ ?_ fun worker hsame => hsame ▸ hstart
  refine .bind _ (port_gives before.counters htimeless hleaves) fun verdict => ?_
  refine .ghost fun checked hchecked => ?_
  obtain ⟨hat, moment, hcheck⟩ := hchecked
  refine .weaken (fun worker => Stands gc start inv told worker ∧
    worker.counters = before.counters) _ ?_ fun worker hsame => hsame ▸ hat
  cases verdict with
  | Accept =>
      refine .bind (fun _ worker => ∃ kept, (Stands gc start inv told kept ∧
        kept.counters = before.counters) ∧
          worker = { kept with counters := { kept.counters with refusals := 0 } }) ?_ fun _ => ?_
      · exact .modify fun worker hstands => ⟨worker, hstands, rfl⟩
      refine .bind (fun _ => Stands gc start inv told) ?_ fun _ => ?_
      · refine .modify fun worker hkept => ?_
        obtain ⟨kept, ⟨⟨htallied, hinv⟩, hcounters⟩, rfl⟩ := hkept
        refine ⟨htallied.move rfl (fun account hrunning hrounds hrefusals => ?_)
          (fun limit _ _ => limit.positive), hapart.emitted _ _ rfl (hapart.counters _ _ hinv)⟩
        rw [← hcounters, ← hrefusals] at hcheck
        exact ⟨⟨moment, response, hrunning.stepped, hcheck⟩, ⟨hrunning.position, hrunning.isLast,
          hrunning.scheduled, hrunning.lastScheduled, hrunning.keep, hrunning.drainFirst,
          hrunning.repair, hrunning.verdict, hrunning.stepped, hrunning.rounds⟩, hrounds, rfl⟩
      · exact .pure fun _ hstands => .inl ⟨rfl, hstands⟩
  | Refuse reason =>
      have hleaves' : Leaves (fun worker => Stands gc start inv told worker ∧
          worker.counters = before.counters) (Halts gc start exit) :=
        fun reason worker hfatal hat => hleaves reason worker hfatal hat.1
      dsimp only
      by_cases hblank : isBlank reason = true
      · rw [if_pos hblank]
        exact .bind (fun _ _ => False) (fault_holds hleaves' fun _ hother => by cases hother)
          fun _ _ himpossible => himpossible.elim
      rw [if_neg hblank]
      have hreason : isBlank reason = false := (Bool.not_eq_true _).mp hblank
      refine .bind _ (value_holds hleaves' _) fun seat => ?_
      refine .bind _ (storeMessage_counters hapart before.counters seat.agent seat.author)
        fun _ => ?_
      refine .bind (fun _ worker => ∃ kept, (Stands gc start inv told kept ∧
        kept.counters = before.counters) ∧ worker = { kept with counters := { kept.counters with
          refusals := saturatingSucc kept.counters.refusals } }) ?_ fun _ => ?_
      · exact .modify fun worker hstands => ⟨worker, hstands, rfl⟩
      refine .read fun counted hcounted => ?_
      obtain ⟨kept, ⟨⟨htallied, hinv⟩, hcounters⟩, rfl⟩ := hcounted
      rw [← hcounters] at hcheck
      have hafter := hapart.counters kept { kept.counters with
        refusals := saturatingSucc kept.counters.refusals } hinv
      have hrefused : inv kept.refused :=
        hapart.emitted _ (.Refused (saturatingSucc kept.counters.refusals)) rfl hafter
      refine .bind (fun _ worker => worker = kept.refused) ?_ fun _ => ?_
      · refine .modify fun worker hsame => ?_
        rw [hsame]
        rfl
      dsimp only
      split
      · refine .bind (fun _ _ => False) (.stop fun worker hsame => ?_) fun _ _ himpossible =>
          himpossible.elim
        rw [hsame]
        exact ⟨refused_halted hlimit hreason hcheck htallied, hapart.leaves _ _ hrefused⟩
      · rename_i hgoes
        rw [Bool.or_eq_true, not_or, decide_eq_true_eq, decide_eq_true_eq] at hgoes
        refine .pure fun worker hsame => .inr ⟨rfl, ?_⟩
        rw [hsame]
        exact ⟨⟨refused_ready hlimit hreason hcheck htallied (Nat.not_le.mp hgoes.1), hrefused⟩,
          Nat.pos_of_ne_zero hgoes.2⟩

/-- After the critic has validated the response. -/
structure Approved (gc : Gc) (response : ModelResponse) (account : Account) : Prop where
  verdict : account.verdict = some (response, true)
  stepped : gc.Judges response account.stepped
  scheduled : account.scheduled = false
  repair : account.repair = false
  rounds : account.rounds < gc.spec.roundLimit.get

/-- After the critic has rejected the response. -/
structure Denied (gc : Gc) (response : ModelResponse) (account : Account) : Prop where
  verdict : account.verdict = some (response, false)
  stepped : gc.Judges response account.stepped
  scheduled : account.scheduled = decide (gc.spec.roundLimit.get ≤ account.rounds)
  repair : account.repair = false
  requested : account.requested = false

omit [Conversation C] in
/-- The verdict that is to be told is told, and leaves none to be told. -/
private theorem Heard.tell {effect : Effect} {counters : Counters} {asked : Worker C}
    {answer : Answer} (hheard : Heard gc start inv told answer asked)
    (hverdict : effect.verdict = some answer.validated)
    (htell : ∀ account, told account → account.Due gc.critics answer.validated →
      account.rounds = asked.counters.rounds → account.refusals = asked.counters.refusals →
      May gc account effect ∧ told' (account.note gc.spec.roundLimit.get effect) ∧
        (account.note gc.spec.roundLimit.get effect).rounds = counters.rounds)
    (hrefusals : counters.refusals = asked.counters.refusals) :
    Tallied gc start told' { asked with counters, log := asked.log ++ [effect] } := by
  obtain ⟨⟨log, hlog, hagrees, htold, hdue⟩, -⟩ := hheard
  obtain ⟨hmay, htold', hrounds⟩ := htell _ htold hdue hagrees.rounds hagrees.refusals
  have hfits : Fits gc (account gc.spec.roundLimit.get log) effect := {
    may := hmay
    due := fun validated hother => by
      rw [hverdict, hdue.unique hother] }
  obtain ⟨hnone, hsame, hasked⟩ := note_verdict (account gc.spec.roundLimit.get log) hverdict
  have hagrees' : Agrees gc (log ++ [effect]) counters asked.moment :=
    hagrees.snoc hfits hrounds (by rw [hsame, hagrees.refusals, hrefusals])
      (hasked ▸ hagrees.asked) fun _ _ hbelow => hrefusals ▸ hbelow
  refine ⟨log ++ [effect], ?_, hagrees', ?_⟩
  · show asked.log ++ [effect] = start.log ++ (log ++ [effect])
    rw [hlog, List.append_assoc]
  · rw [account_snoc]
    exact ⟨htold', Account.resolved_of_none hnone⟩

private theorem answered_approved (hapart : JudgeApart env inv exit) {state : Loop}
    (hlast : state.isLast = false) {asked : Worker C} (response : ModelResponse) {answer : Answer}
    (hvalidated : answer.validated = true)
    (hheard : Heard gc start inv (Running gc (gc.Judges response) state) answer asked) :
    Stands gc start inv (Approved gc response) (asked.answered response answer) := by
  unfold Worker.answered
  rw [hvalidated, if_pos rfl]
  refine ⟨hheard.tell (by rw [hvalidated]; rfl)
    (fun account hrunning hdue hrounds hrefusals => ?_) rfl, hapart.emitted _ _ rfl hheard.2⟩
  have hbelow := hrunning.below hlast
  rw [hvalidated] at hdue
  exact ⟨⟨hbelow, hrunning.isLast.trans hlast, hrunning.stepped, hdue⟩,
    ⟨rfl, hrunning.stepped, hrunning.scheduled.trans hlast, hrunning.repair, hbelow⟩, hrounds⟩

private theorem answered_denied (hapart : JudgeApart env inv exit) {state : Loop}
    (hlast : state.isLast = false) {asked : Worker C} (response : ModelResponse) {answer : Answer}
    (hrejected : answer.validated = false)
    (hheard : Heard gc start inv (Running gc (gc.Judges response) state) answer asked) :
    Stands gc start inv (fun account => Denied gc response account ∧
        account.rounds = saturatingSucc asked.counters.rounds)
      { asked.answered response answer with
        counters := { asked.counters with rounds := saturatingSucc asked.counters.rounds } } := by
  unfold Worker.answered
  rw [hrejected, if_neg Bool.false_ne_true]
  have hemitted : inv { asked with log := asked.log ++ [.Rejected response] } :=
    hapart.emitted _ _ rfl hheard.2
  refine ⟨hheard.tell (by rw [hrejected]; rfl)
    (fun account hrunning hdue hrounds hrefusals => ?_) rfl, hapart.counters _ _ hemitted⟩
  have hbelow := hrunning.below hlast
  have hsucc : account.rounds + 1 = saturatingSucc asked.counters.rounds := by
    have hfits := gc.spec.roundLimit.fits
    unfold saturatingSucc
    omega
  rw [hrejected] at hdue
  exact ⟨⟨hbelow, hrunning.isLast.trans hlast, hrunning.stepped, hdue⟩,
    ⟨⟨rfl, hrunning.stepped, rfl, hrunning.repair, rfl⟩, hsucc⟩, hsucc⟩

/-- A validated response ends the node, unless its boundary stores something for another pass. -/
theorem validated_stands (hapart : JudgeApart env inv exit) {left : Nat}
    (hsteps : ∀ worker, inv worker → worker.steps.remaining = left) (state : Loop)
    (response : ModelResponse) (reached : Bool) :
    Holds (Stands gc start inv (Approved gc response))
      (Worker.validated env state (.End ⟨response, .Validated, reached⟩))
      (fun result worker => JudgedTo gc start inv result.2 worker result.1)
      (Halts gc start exit) := by
  have hends : Holds (Stands gc start inv (Approved gc response))
      (pure (.End ⟨response, .Validated, reached⟩, state) : Doing C (Next × Loop))
      (fun result worker => JudgedTo gc start inv result.2 worker result.1)
      (Halts gc start exit) :=
    .pure fun worker hstands => ⟨hstands.1.imp fun _ happroved => ⟨happroved.verdict, happroved.stepped⟩,
      hstands.2⟩
  refine .read fun before hbefore => ?_
  split
  · rename_i hinbox
    have hpos : 0 < left := by
      have hleft := hsteps before hbefore.2
      have hremaining := of_decide_eq_true (Bool.and_eq_true_iff.mp hinbox).2
      omega
    refine .bind _ ((drain_stands hapart (Approved gc response) before.counters).imp
      (fun worker hsame => ?_) (fun _ _ hdrained => hdrained.1) fun _ _ hlast => hlast)
      fun drained => ?_
    · rw [hsame]
      exact ⟨hbefore, rfl⟩
    dsimp only
    split
    · refine .pure fun worker hdrained => ?_
      rcases hdrained with ⟨-, -, ⟨htallied, hinv⟩, -⟩ | ⟨-, htallied, hinv⟩
      · refine ⟨⟨htallied.imp fun account hreset => ?_, hinv⟩, hsteps worker hinv ▸ hpos⟩
        obtain ⟨told, happroved, rfl⟩ := hreset
        exact ⟨happroved.scheduled, by rw [show told.reset.repair = _ from happroved.repair]; rfl,
          fun hzero => absurd (Nat.le_zero.mp hzero) (Nat.ne_of_gt gc.spec.roundLimit.positive),
          .inr ⟨rfl, happroved.scheduled, happroved.repair⟩⟩
      · refine ⟨⟨htallied.imp fun account happroved => ?_, hinv⟩, hsteps worker hinv ▸ hpos⟩
        exact ⟨happroved.scheduled, by rw [happroved.repair]; rfl,
          fun hreached => absurd hreached (Nat.not_le.mpr happroved.rounds),
          .inr ⟨rfl, happroved.scheduled, happroved.repair⟩⟩
    · rename_i hnone
      refine hends.imp (fun worker hdrained => ?_) (fun _ _ hlast => hlast) fun _ _ hlast => hlast
      rcases hdrained with ⟨-, hstored, -⟩ | ⟨-, hstands⟩
      · exact absurd hstored hnone
      · exact hstands
  · exact hends.imp (fun worker hsame => hsame ▸ hbefore) (fun _ _ hlast => hlast)
      fun _ _ hlast => hlast

/-- A rejected response ends the node at the limit, unless a last generation is scheduled. -/
theorem rejected_stands (hapart : JudgeApart env inv exit) {state : Loop}
    (hlast : state.isLast = false) (response : ModelResponse) (answer : Answer)
    (hrejected : answer.validated = false) (hkeep : state.keepPosition = none) (reached : Bool) :
    Holds (fun worker => ∃ asked,
        Heard gc start inv (Running gc (gc.Judges response) state) answer asked ∧
          worker = asked.answered response answer)
      (Worker.rejected env gc.spec seats answer state (.End ⟨response, .Rejected, reached⟩))
      (fun result worker => JudgedTo gc start inv result.2 worker result.1)
      (Halts gc start exit) := by
  refine .ghost fun given hgiven => ?_
  obtain ⟨asked, hasked, rfl⟩ := hgiven
  have hdenied := answered_denied hapart hlast response hrejected hasked
  generalize hrounds : saturatingSucc asked.counters.rounds = rounds at hdenied
  let told (account : Account) : Prop := Denied gc response account ∧ account.rounds = rounds
  have hleaves : Leaves (Stands gc start inv told) (Halts gc start exit) :=
    leaves_stands hapart
  have hends : Holds (Stands gc start inv told)
      (pure (.End ⟨response, .Rejected, reached⟩, state) : Doing C (Next × Loop))
      (fun result worker => JudgedTo gc start inv result.2 worker result.1)
      (Halts gc start exit) :=
    .pure fun worker hstands => ⟨hstands.1.imp fun _ htold => ⟨htold.1.verdict, htold.1.stepped⟩,
      hstands.2⟩
  refine .bind (fun _ worker => Stands gc start inv told worker ∧
    worker.counters.rounds = rounds) ?_ fun _ => ?_
  · refine .modify fun worker hsame => ?_
    rw [hsame]
    exact ⟨hrounds ▸ hdenied, hrounds⟩
  refine .read fun counted hcounted => ?_
  refine Holds.imp ?_ (fun worker hsame => hsame ▸ hcounted.1) (fun _ _ hend => hend)
    fun _ _ hend => hend
  dsimp only
  rw [hcounted.2]
  have hpass {worker : Worker C} {scheduled : Bool} (hstands : Stands gc start inv told worker)
      (hscheduled : scheduled = decide (gc.spec.roundLimit.get ≤ rounds)) :
      Stands gc start inv (Ready gc { state with
        lastScheduled := scheduled, drainFirst := true }) worker := by
    refine ⟨hstands.1.imp fun account htold => ?_, hstands.2⟩
    obtain ⟨htold, rfl⟩ := htold
    refine ⟨htold.scheduled.trans hscheduled.symm, ?_, fun hreached => ?_,
      .inl ⟨rfl, htold.requested⟩⟩
    · rw [htold.repair]
      exact hkeep
    · exact hscheduled.trans (decide_eq_true hreached)
  by_cases hfail : (decide (rounds ≥ gc.spec.roundLimit.get) && decide (gc.spec.roundEnding = .Fail)) = true
  · rw [if_pos hfail]
    exact .bind (fun _ _ => False) (fault_holds hleaves fun _ hother => by cases hother)
      fun _ _ himpossible => himpossible.elim
  rw [if_neg hfail]
  refine .bind _ (value_holds hleaves _) fun seat => ?_
  refine .bind _ (storeMessage_stands hapart seat.agent seat.author) fun _ => ?_
  refine .read fun stored hstored => ?_
  refine .weaken (fun worker => worker = stored ∧ Stands gc start inv told worker) _ ?_
    fun worker hsame => ⟨hsame, hsame ▸ hstored⟩
  have hfinish := hends.weaken _ (fun worker => worker = stored ∧ Stands gc start inv told worker)
    fun _ hat => hat.2
  split
  · rename_i hlimit
    split
    · rename_i hgoes
      have hremaining := of_decide_eq_true (Bool.and_eq_true_iff.mp hgoes).2
      exact .pure fun worker hat => ⟨hpass hat.2 hlimit.symm, hat.1 ▸ hremaining⟩
    · exact hfinish
  · rename_i hlimit
    split
    · exact hfinish
    · rename_i hgoes
      have hremaining : stored.steps.remaining > 0 := Nat.pos_of_ne_zero (by simpa using hgoes)
      refine .pure fun worker hat => ⟨hpass hat.2 ?_, hat.1 ▸ hremaining⟩
      exact ((Bool.not_eq_true _).mp hlimit).symm

variable (gc seats start) in
/-- The judging of a response. -/
theorem judge_stands (hapart : JudgeApart env inv exit) {left : Nat}
    (hsteps : ∀ worker, inv worker → worker.steps.remaining = left) (ended : PassEnd)
    (state : Loop) :
    Holds (Stands gc start inv (Running gc (gc.Judges ended.intoResponse) state))
      (Worker.judge env gc.critics gc.spec seats ended state)
      (fun result worker => JudgedTo gc start inv result.2 worker result.1)
      (Halts gc start exit) := by
  have hnotJudged (reached : Bool) : Holds (Stands gc start inv (Running gc (gc.Judges ended.intoResponse) state))
      (pure (.End ⟨ended.intoResponse, .NotJudged, reached⟩, state) : Doing C (Next × Loop))
      (fun result worker => JudgedTo gc start inv result.2 worker result.1)
      (Halts gc start exit) :=
    .pure fun worker hstands => ⟨hstands.1.imp fun _ hrunning =>
      ⟨hrunning.verdict, hrunning.stepped⟩, hstands.2⟩
  unfold Worker.judge
  dsimp only
  split
  · split
    · exact hnotJudged _
    rename_i hcalls
    have hlast : state.isLast = false := by
      rw [Bool.or_eq_true, not_or] at hcalls
      exact (Bool.not_eq_true _).mp hcalls.1
    refine .bind _ (askCritic_stands hapart hlast ended.intoResponse) fun answer => ?_
    split
    · rename_i hvalidated
      refine .pure fun worker hasked => ?_
      obtain ⟨asked, hasked, rfl⟩ := hasked
      have happroved := answered_approved hapart hlast ended.intoResponse hvalidated
        hasked
      exact ⟨happroved.1.imp fun _ htold => ⟨htold.verdict, htold.stepped⟩, happroved.2⟩
    · rename_i hrejected
      refine .stop fun worker hasked => ?_
      obtain ⟨asked, hasked, rfl⟩ := hasked
      have hfalse := (Bool.not_eq_true _).mp hrejected
      have hdenied := answered_denied hapart hlast ended.intoResponse hfalse hasked
      refine ⟨hdenied.1.halted _, hapart.leaves _ _ (hapart.emitted asked _ ?_ hasked.2)⟩
      rw [hfalse]
      rfl
  · refine .bind _ (programmatic_stands hapart ended.intoResponse) fun result => ?_
    obtain ⟨accepted, next⟩ := result
    refine .ghost fun seen hseen => ?_
    rcases hseen with ⟨hsame, hstands⟩ | ⟨hrefused, hjudged⟩
    · cases hsame
      refine .weaken (Stands gc start inv (Running gc (gc.Judges ended.intoResponse) state)) _ ?_ fun worker hsame =>
        hsame ▸ hstands
      dsimp only
      rw [if_neg (by decide)]
      split
      · exact hnotJudged _
      rename_i hordinary
      have hlast : state.isLast = false := (Bool.not_eq_true _).mp hordinary
      refine .bind _ (askCritic_stands hapart hlast ended.intoResponse) fun answer => ?_
      split
      · rename_i hvalidated
        refine (validated_stands hapart hsteps state ended.intoResponse _).imp
          (fun worker hasked => ?_) (fun _ _ hend => hend) fun _ _ hend => hend
        obtain ⟨asked, hasked, rfl⟩ := hasked
        exact answered_approved hapart hlast ended.intoResponse hvalidated hasked
      · rename_i hrejected
        refine .ghost fun seen hasked => ?_
        obtain ⟨log, -, -, hrunning, -⟩ := hstands.1
        exact (rejected_stands hapart hlast ended.intoResponse answer
          ((Bool.not_eq_true _).mp hrejected) hrunning.keep _).imp (fun _ hsame => hsame ▸ hasked)
          (fun _ _ hend => hend) fun _ _ hend => hend
    · obtain rfl : accepted = false := hrefused
      refine .pure fun worker hsame => ?_
      rw [hsame]
      exact hjudged

/-- A pass starts as the account has it. -/
theorem beginPass_stands (hapart : JudgeApart env inv exit) (state : Loop) :
    Holds (Stands gc start inv (Ready gc state)) (Worker.beginPass env state)
      (fun next => Stands gc start inv (Running gc (fun _ => True) next)) (Halts gc start exit) := by
  refine .read fun before hbefore => ?_
  have hatLimit : gc.spec.roundLimit.get ≤ before.counters.rounds → state.lastScheduled = true := by
    obtain ⟨log, -, hagrees, hready, -⟩ := hbefore.1
    rw [← hagrees.rounds]
    exact hready.rounds
  refine .bind (fun drained worker => DrainedTo gc start inv (Ready gc state) drained worker ∧
    (drained.requestStored = false → worker.counters = before.counters)) ?_ fun drained => ?_
  · unfold Worker.drainIfFirst
    split
    · refine (drain_stands hapart (Ready gc state) before.counters).imp
        (fun worker hsame => ?_) (fun _ _ hdrained => hdrained) fun _ _ hend => hend
      rw [hsame]
      exact ⟨hbefore, rfl⟩
    · refine .pure fun worker hsame => ?_
      rw [hsame]
      exact ⟨.inr ⟨rfl, hbefore⟩, fun _ => rfl⟩
  refine .read fun seen hseen => ?_
  obtain ⟨hdrained, hsame⟩ := hseen
  rcases hdrained with ⟨hrequest, -, ⟨htallied, hinv⟩, hzero⟩ | ⟨hnone, htallied, hinv⟩
  · dsimp only
    rw [hrequest, if_pos rfl, hzero]
    refine .bind (fun _ => Stands gc start inv (Running gc (fun _ => True) _)) ?_ fun _ =>
      .pure fun _ hend => hend
    refine .modify fun worker hworker => ?_
    rw [hworker]
    refine ⟨htallied.move rfl (fun account hreset hrounds hrefusals => ?_)
      (fun _ _ hbelow => hbelow), hapart.emitted _ _ rfl hinv⟩
    obtain ⟨told, hready, rfl⟩ := hreset
    refine ⟨⟨hready.scheduled.symm, rfl, hatLimit, fun _ => ⟨rfl, rfl⟩,
      fun hother => (by cases hother), (Bool.and_false _).symm, ?_⟩,
      ⟨rfl, rfl, rfl, rfl, rfl, rfl, rfl, rfl, trivial, fun hreached => ?_⟩, hrounds, hrefusals⟩
    · show 0 = if (told.repair && false) = true then told.position else 0
      rw [Bool.and_false, if_neg Bool.false_ne_true]
    · exact absurd (Nat.le_zero.mp hreached) (Nat.ne_of_gt gc.spec.roundLimit.positive)
  · dsimp only
    rw [hnone, if_neg Bool.false_ne_true]
    refine .bind (fun _ => Stands gc start inv (Running gc (fun _ => True) _)) ?_ fun _ =>
      .pure fun _ hend => hend
    refine .modify fun worker hworker => ?_
    rw [hworker]
    refine ⟨htallied.move rfl (fun account hready hrounds hrefusals => ?_)
      (fun _ _ hbelow => hbelow), hapart.emitted _ _ rfl hinv⟩
    refine ⟨⟨hready.scheduled.symm, hrounds.symm, hatLimit, fun hother => (by cases hother),
      fun _ => ⟨congrArg Counters.rounds (hsame hnone), fun hdue => ?_⟩, ?_, ?_⟩,
      ⟨rfl, rfl, rfl, rfl, rfl, rfl, rfl, rfl, trivial, hready.rounds⟩, hrounds, hrefusals⟩
    · rcases hready.drain with ⟨-, hrequested⟩ | ⟨-, hscheduled, hrepair⟩
      · exact hrequested
      · rw [hscheduled, hrepair] at hdue
        rcases hdue with himpossible | himpossible
        · cases himpossible
        · cases himpossible
    · exact (Bool.and_true _).symm
    · show state.keepPosition.getD seen.counters.rounds =
        if (account.repair && true) = true then account.position else seen.counters.rounds
      rw [Bool.and_true, hready.keep]
      split
      · rfl
      · rfl

/-- What no part of a generator-critic touches. -/
structure ExecuteApart (env : Env) (inv : Worker C → Prop) (exit : Stop → Worker C → Prop) : Prop
    extends JudgeApart env inv exit where
  pass : ∀ slot left, Holds (AtSteps inv (left + 1)) (Worker.pass env slot)
    (fun _ worker => inv worker ∧ worker.steps.remaining ≤ left) exit

/-- What is untouched by a pass at any turn is so by the messages that judging stores. -/
theorem PassApart.execute (hapart : PassApart env (fun _ => True) inv)
    (hexit : ∀ reason worker, inv worker → exit reason worker)
    (hcounters : ∀ worker counters, inv worker → inv { worker with counters })
    (hemitted : ∀ worker effect, effect.ofCritic = true → inv worker →
      inv { worker with log := worker.log ++ [effect] }) : ExecuteApart env inv exit where
  timeless := hapart.drain.timeless
  counters := hcounters
  emitted := hemitted
  leaves := hexit
  drain := (drain_holds hapart.drain fun reason worker _ hinv => hexit reason worker hinv).imp
    (fun _ hinv => hinv) (fun drained worker hdrained => by
      obtain ⟨kept, hinv, ⟨-, -, rfl⟩ | ⟨-, rfl⟩⟩ := hdrained
      · exact hapart.requested kept hinv
      · exact hinv) fun _ _ hend => hend
  store := storeMessage_apart hapart.step hapart.close fun reason worker _ hinv =>
    hexit reason worker hinv
  pass slot left := pass_apart hapart hexit slot (fun _ _ => trivial) left

/-- Judging takes no step. -/
private theorem JudgeApart.atSteps (hapart : JudgeApart env inv exit) (left : Nat) :
    JudgeApart env (AtSteps inv left) exit where
  timeless := AtSteps.timeless hapart.timeless left
  counters worker counters hat := ⟨hapart.counters worker counters hat.1, hat.2⟩
  emitted worker effect heffect hat := ⟨hapart.emitted worker effect heffect hat.1, hat.2⟩
  leaves reason worker hat := hapart.leaves reason worker hat.1
  drain := by
    have hsteps : DrainApart env fun worker : Worker C => worker.steps.remaining = left :=
      ⟨fun _ _ _ hat => hat, fun _ _ _ hat => hat, fun _ _ _ _ _ _ _ hat _ => hat⟩
    have hkept : Holds (AtSteps inv left) (Worker.drain env)
        (fun _ worker => worker.steps.remaining = left) fun _ _ => True := by
      refine (drain_holds hsteps fun _ _ _ _ => trivial).imp (fun _ hat => hat.2)
        (fun drained worker hdrained => ?_) fun _ _ hend => hend
      obtain ⟨kept, hleft, ⟨-, -, rfl⟩ | ⟨-, rfl⟩⟩ := hdrained
      · exact hleft
      · exact hleft
    exact ((hapart.drain.imp (fun _ hat => And.left hat) (fun _ _ hend => hend)
      fun _ _ hend => hend).and hkept).imp (fun _ hat => hat) (fun _ _ hend => hend)
      fun _ _ hend => hend.1
  store agent author := by
    have hsteps : Holds (fun worker : Worker C => worker.steps.remaining = left)
        (Worker.storeMessage env agent author) (fun _ worker => worker.steps.remaining = left)
        fun _ _ => True := by
      have hstep (turn : TurnId) : StepApart env turn (fun _ => True)
          fun worker : Worker C => worker.steps.remaining = left :=
        ⟨fun _ _ _ hat => hat, fun _ _ hat => hat, fun _ _ _ hat => hat,
          fun _ _ _ _ _ _ _ hat _ => hat⟩
      exact storeMessage_apart hstep (fun _ _ _ _ _ _ _ hat _ => hat) (fun _ _ _ _ => trivial)
        agent author
    exact (((hapart.store agent author).imp (fun _ hat => And.left hat) (fun _ _ hend => hend)
      fun _ _ hend => hend).and (hsteps.imp (fun _ hat => And.right hat) (fun _ _ hend => hend)
      fun _ _ hend => hend)).imp (fun _ hat => hat) (fun _ _ hend => hend) fun _ _ hend => hend.1

omit [Conversation C] in
/-- After a pass the last step is that of its response. -/
private theorem Tallied.stepped {seen worker : Worker C} {response : ModelResponse} {state : Loop}
    (hseen : Tallied gc start (Running gc judged state) seen)
    (htallied : Tallied gc start (Running gc (fun _ => True) state) worker)
    (hlast : ∃ more, worker.log = seen.log ++ more ++ [.Stepped response]) :
    Tallied gc start (Running gc (gc.Judges response) state) worker := by
  obtain ⟨before, hbefore, -⟩ := hseen
  obtain ⟨log, hlog, hagrees, hrunning, hresolved⟩ := htallied
  obtain ⟨more, hmore⟩ := hlast
  have hsplit : log = before ++ more ++ [.Stepped response] := by
    rw [hlog, hbefore, List.append_assoc, List.append_assoc] at hmore
    rw [List.append_cancel_left hmore, List.append_assoc]
  refine ⟨log, hlog, hagrees, ⟨hrunning.position, hrunning.isLast, hrunning.scheduled,
    hrunning.lastScheduled, hrunning.keep, hrunning.drainFirst, hrunning.repair, hrunning.verdict,
    ?_, hrunning.rounds⟩, hresolved⟩
  rw [hsplit, account_snoc]
  rfl

/-- The pass that is judged next, one step at least after the last. -/
private theorem generate_stands (hapart : ExecuteApart env inv exit) (state : Loop) (left : Nat) :
    Holds (Stands gc start (AtSteps inv (left + 1)) (Ready gc state))
      (Worker.generate env gc.spec none state)
      (fun result worker =>
        Stands gc start inv (Running gc (gc.Judges result.1.intoResponse) result.2) worker ∧
          worker.steps.remaining ≤ left) (Halts gc start exit) := by
  refine .bind _ (beginPass_stands (hapart.toJudgeApart.atSteps (left + 1)) state) fun next => ?_
  refine .bind (fun result worker =>
    Stands gc start inv (Running gc (gc.Judges result.1.intoResponse) next) worker ∧
      worker.steps.remaining ≤ left) ?_ fun result => .pure fun _ hstands => hstands
  refine .ghost fun seen hseen => ?_
  have hmay : ∀ account, Running gc (fun _ => True) next account → ∀ client,
      client ∈ (gc.spec.generator.entry next.position).clients →
        client ∈ (gc.spec.generator.entry account.position).clients :=
    fun account hrunning client hclient => hrunning.position ▸ hclient
  have htallied : Holds (AtSteps (Tallied gc start (Running gc (fun _ => True) next)) (left + 1))
      (Worker.pass env (.new (gc.spec.generator.entry next.position)))
      (fun _ worker => Tallied gc start (Running gc (fun _ => True) next) worker ∧
        worker.steps.remaining ≤ left) (Halted gc start) :=
    pass_apart (Tallied.pass gc start hmay
      (fun account response hrunning => ⟨hrunning.position, hrunning.isLast, hrunning.scheduled,
        hrunning.lastScheduled, hrunning.keep, hrunning.drainFirst, hrunning.repair,
        hrunning.verdict, trivial, hrunning.rounds⟩) fun account hrunning => hrunning.reset)
      (fun reason worker htallied => htallied.halted reason) _ (fun _ hclient => hclient) left
  have hat : AtSteps (Tallied gc start (Running gc (fun _ => True) next)) (left + 1) seen :=
    ⟨hseen.1, hseen.2.2⟩
  have hboth := (htallied.weaken _ (fun worker => worker = seen) fun _ hsame => hsame ▸ hat).and
    (((hapart.pass _ left).weaken _ (fun worker => worker = seen)
      fun _ hsame => hsame ▸ hseen.2).and (pass_stepped seen _ hseen.2.2))
  refine hboth.imp (fun _ hsame => hsame) (fun result worker hend => ?_)
    fun _ _ hend => ⟨hend.1, hend.2.1⟩
  exact ⟨⟨hseen.1.stepped hend.1.1 hend.2.2, hend.2.1.1⟩, hend.1.2⟩

/-- What the loop comes to: its end says what the critic made of its response. -/
def Finished (gc : Gc) (start : Worker C) (inv : Worker C → Prop) (finish : Finish)
    (worker : Worker C) : Prop :=
  Stands gc start inv (RoundsOver gc finish.response finish.judgement) worker

/-- The judging of a pass, and the rest of the loop when it is not over. -/
private theorem judged_stands (hapart : ExecuteApart env inv exit) (left : Nat) (ended : PassEnd)
    (state : Loop) {rest : Next × Loop → Doing C (Finish × Loop)}
    (hpass : ∀ state more, more < left →
      Holds (Stands gc start (AtSteps inv (more + 1)) (Ready gc state)) (rest (.Pass, state))
        (fun result => Finished gc start inv result.1) (Halts gc start exit))
    (hend : ∀ finish state, Holds (Finished gc start inv finish) (rest (.End finish, state))
      (fun result => Finished gc start inv result.1) (Halts gc start exit)) :
    Holds (fun worker =>
        Stands gc start inv (Running gc (gc.Judges ended.intoResponse) state) worker ∧
          worker.steps.remaining ≤ left)
      (Worker.judge env gc.critics gc.spec seats ended state >>= rest)
      (fun result => Finished gc start inv result.1) (Halts gc start exit) := by
  refine .ghost fun seen hseen => ?_
  obtain ⟨⟨htallied, hinv⟩, hle⟩ := hseen
  generalize hleft : seen.steps.remaining = remains at hle
  have hjudge := judge_stands gc seats start (hapart.toJudgeApart.atSteps remains)
    (fun _ hat => hat.2) ended state
  refine .bind _ (hjudge.imp (fun worker hsame => ?_) (fun _ _ hend => hend) fun _ _ hend => hend)
    fun result => ?_
  · rw [hsame]
    exact ⟨htallied, hinv, hleft⟩
  obtain ⟨next, state⟩ := result
  cases next with
  | Pass =>
      refine .ghost fun worker hjudged => ?_
      obtain ⟨⟨hready, hat⟩, hpos⟩ := hjudged
      rw [hat.2] at hpos
      obtain ⟨more, rfl⟩ := Nat.exists_eq_succ_of_ne_zero (Nat.ne_of_gt hpos)
      refine (hpass state more (Nat.lt_of_succ_le hle)).imp (fun worker' hsame => ?_)
        (fun _ _ hlast => hlast) fun _ _ hlast => hlast
      rw [hsame]
      exact ⟨hready, hat⟩
  | End finish =>
      exact (hend finish state).imp (fun worker hjudged => ⟨hjudged.1, hjudged.2.1⟩)
        (fun _ _ hlast => hlast) fun _ _ hlast => hlast

variable (gc seats start) in
theorem executeFrom_stands (hapart : ExecuteApart env inv exit) {bound left : Nat}
    (hbound : left < bound) (state : Loop) :
    Holds (Stands gc start (AtSteps inv (left + 1)) (Ready gc state))
      (Worker.executeFrom env gc.critics gc.spec seats bound none state)
      (fun result => Finished gc start inv result.1) (Halts gc start exit) := by
  induction bound generalizing left state with
  | zero => omega
  | succ bound hind =>
      refine .bind _ (generate_stands hapart state left) fun result => ?_
      obtain ⟨ended, state⟩ := result
      dsimp only
      refine judged_stands hapart left ended state (fun state more hmore => ?_) fun finish state => ?_
      · exact hind (Nat.lt_of_lt_of_le hmore (Nat.le_of_lt_succ hbound)) state
      · exact .pure fun _ hfinished => hfinished

variable (gc seats start) in
theorem execute_stands (hapart : ExecuteApart env inv exit) (hcounters : start.counters = .zero)
    (hsteps : 0 < start.steps.remaining) (hinv : inv start)
    (hgiven : gc.given = (Worker.restored env start).map PassEnd.intoResponse) :
    Holds (fun worker => worker = start) (Worker.execute env gc.critics gc.spec seats)
      (fun outcome => Stands gc start inv (RoundsOver gc outcome.response outcome.judgement))
      (Halts gc start exit) := by
  have hbelow : ¬ gc.spec.roundLimit.get ≤ 0 := Nat.not_le.mpr gc.spec.roundLimit.positive
  have hstart (told : Account → Prop) (htold : told .start) : Tallied gc start told start :=
    ⟨[], (List.append_nil _).symm, ⟨.nil gc, by rw [hcounters]; rfl, by rw [hcounters]; rfl,
      Nat.zero_le _⟩, htold, Account.resolved_of_none rfl⟩
  refine .read fun before hbefore => ?_
  subst hbefore
  rw [hcounters]
  refine .bind (fun result => Finished gc before inv result.1) ?_ fun result => ?_
  · rcases hrestored : Worker.restored env before with _ | ended
    · obtain ⟨left, hleft⟩ := Nat.exists_eq_succ_of_ne_zero (Nat.ne_of_gt hsteps)
      have hbound : left < before.steps.remaining + 2 := by omega
      have hfrom := executeFrom_stands gc seats before hapart hbound (.start 0)
      refine hfrom.imp (fun worker hsame => ?_) (fun _ _ hend => hend) fun _ _ hend => hend
      rw [hsame]
      refine ⟨hstart _ ⟨rfl, rfl, fun hreached => absurd hreached hbelow, .inr ⟨rfl, rfl, rfl⟩⟩, hinv,
        hleft⟩
    · refine .bind (fun result worker => result = (ended, .start 0) ∧ worker = before)
        (.pure fun worker hsame => ⟨rfl, hsame⟩) fun result => ?_
      refine .ghost fun seen hseen => ?_
      obtain ⟨rfl, hsame⟩ := hseen
      refine (judged_stands hapart before.steps.remaining ended (.start 0)
        (fun state more hmore => ?_) fun finish state => ?_).weaken _ _ fun worker hworker => ?_
      · exact executeFrom_stands gc seats before hapart (by omega) state
      · exact .pure fun _ hfinished => hfinished
      · rw [hworker, hsame]
        exact ⟨⟨hstart _ ⟨rfl, rfl, rfl, rfl, rfl, rfl, rfl, rfl,
          hgiven.trans (by rw [hrestored]; rfl), fun hreached => absurd hreached hbelow⟩, hinv⟩, Nat.le_refl _⟩
  obtain ⟨finish, state⟩ := result
  have htimeless : Timeless (Stands gc before inv
      (RoundsOver gc finish.response finish.judgement)) := timeless_stands hapart.toJudgeApart
  have hleaves : Leaves (Stands gc before inv (RoundsOver gc finish.response finish.judgement))
      (Halts gc before exit) := leaves_stands hapart.toJudgeApart
  refine .bind _ (port_holds htimeless hleaves) fun _ => ?_
  refine .bind _ (port_holds htimeless hleaves) fun _ => ?_
  exact .pure fun _ hstands => hstands

/-- Whatever the generator and the critics answer and wherever requests are stored, each effect fits the
account of those before it: a pass from the round limit on is the last one, the critic is called with
rounds below the limit and not on the response of a last pass, a repair keeps its position, a last
pass is ordinary again when the draining at its start stores a request, and the clients that are
called are those of the ladders at the position of the pass.  A verdict is told of the response of
the last step exactly when a client of the critic has just given it; the critic rejects no more often
than the round limit between two stored requests, as many refusals in a row as their limit fail the
instance, and the outcome holds the response of the last step, with what the critic made of it. -/
theorem generator_critic_rounds (env : Env) (critics : CriticEnv) (spec : GcSpec) (seats : Seats)
    (start : Worker C) (hcounters : start.counters = .zero) (hsteps : 0 < start.steps.remaining) :
    ∃ ended after log, Worker.execute env critics spec seats start = (ended, after) ∧
      after.log = start.log ++ log ∧ ended ≠ .spent ∧
      (∀ seen effect rest, log = seen ++ effect :: rest →
        Fits ⟨spec, critics, (Worker.restored env start).map PassEnd.intoResponse⟩
          (account spec.roundLimit.get seen) effect) ∧
      (account spec.roundLimit.get log).Resolved critics ∧
      (∀ before between rest, log = before ++ between ++ rest → Effect.RequestStored ∉ between →
        between.countP Effect.isRejection ≤ spec.roundLimit.get) ∧
      (∀ limit, spec.programmatic = some limit → ∀ seen, seen <+: log →
        limit.get ≤ (account spec.roundLimit.get seen).refusals →
          seen = log ∧ ∃ text, ended = .stop (.Fault (.ProgrammaticRefusal text))) ∧
      ∀ outcome, ended = .done outcome →
        (account spec.roundLimit.get log).verdict = outcome.judgement.verdict outcome.response ∧
        (account spec.roundLimit.get log).stepped.or
          ((Worker.restored env start).map PassEnd.intoResponse) = some outcome.response := by
  have hpass : PassApart env (fun _ => True) fun _ : Worker C => True :=
    ⟨fun _ => ⟨fun _ _ _ _ => trivial, fun _ _ _ => trivial, fun _ _ _ _ => trivial,
      fun _ _ _ _ _ _ _ _ _ => trivial⟩,
      fun _ => ⟨fun _ _ _ _ => trivial, fun _ _ _ => trivial, fun _ _ _ => trivial,
        fun _ _ _ _ _ _ _ _ _ => trivial⟩,
      ⟨fun _ _ _ _ => trivial, fun _ _ _ _ => trivial, fun _ _ _ _ _ _ _ _ _ => trivial⟩,
      fun _ _ _ _ _ _ _ _ _ => trivial, fun _ _ _ => trivial, fun _ _ => trivial,
      fun _ _ _ => trivial⟩
  have hapart : ExecuteApart env (fun _ : Worker C => True) fun _ _ => True :=
    hpass.execute (fun _ _ _ => trivial) (fun _ _ _ => trivial) fun _ _ _ _ => trivial
  have hexecuted := execute_stands
    ⟨spec, critics, (Worker.restored env start).map PassEnd.intoResponse⟩ seats start hapart
    hcounters hsteps trivial rfl start rfl
  rcases hexecuted with ⟨outcome, after, hexecute, htallied, -⟩ | ⟨reason, after, hexecute, hhalted, -⟩
  · obtain ⟨log, hlog, hagrees, hconcluded, hresolved⟩ := htallied
    have hfits := hagrees.tracked.fits
    refine ⟨_, after, log, hexecute, hlog, (fun himpossible => by cases himpossible), hfits,
      hresolved, fun before between rest hsplit hnone => rejections_le hfits hsplit hnone,
      fun limit hlimit seen hseen hreached => ?_, fun other hsame => ?_⟩
    · have hbelow := hagrees.tracked.below limit hlimit seen hseen
      exact absurd hreached (Nat.not_le.mpr hbelow)
    · cases hsame
      exact ⟨hconcluded.verdict, hconcluded.stepped⟩
  · obtain ⟨log, hlog, hfits, hresolved, hrefusals⟩ := hhalted
    refine ⟨_, after, log, hexecute, hlog, (fun himpossible => by cases himpossible), hfits,
      hresolved, fun before between rest hsplit hnone => rejections_le hfits hsplit hnone,
      fun limit hlimit seen hseen hreached => ?_, fun other hsame => by cases hsame⟩
    obtain ⟨hall, text, rfl⟩ := hrefusals limit hlimit seen hseen hreached
    exact ⟨hall, text, rfl⟩

end Judging

section Example

private def oneClient : Ladder := ⟨[⟨[⟨0, .NotExpected⟩], by decide⟩], by decide⟩

/-- One round, a last generation after it, and at most one refusal in a row. -/
private def oneRound : GcSpec where
  generator := oneClient
  critic := oneClient
  roundLimit := ⟨1, by decide, by decide⟩
  criticRequest := .Fixed "Judge the work."
  stepEnding := .WithoutCriticCall
  roundEnding := .FinalGeneration
  programmatic := some ⟨2, by decide, by decide⟩

private def threeSeats : Seats :=
  [⟨"generator", 1, "generator", some "Write."⟩, ⟨"critic", 2, "critic", some "Judge."⟩,
    ⟨"programmatic_critic", 3, "checks", none⟩]

/-- The critic rejects what it judges, and the programmatic check refuses every other response. -/
private def rejecting : CriticEnv where
  request _ _ := .ok "Judge the work."
  text _ := .ok ()
  blockId _ := .ok ()
  critic _ _ := some (.ok ⟨.Finished, false, some (.ok ⟨false, some "Do it again."⟩)⟩)
  check _ _ refusals := .ok (if refusals = 0 then .Refuse "There is no title." else .Accept)
  outcome _ _ := .ok ()
  save _ := .ok ()

private def writing : Env :=
  .calm fun _ _ entry => some (.ok ⟨⟨entry, [], .Finished⟩, false, false⟩)

private def generator : Worker Ledger where
  session := .start ⟨[]⟩
  host := ⟨⟨[]⟩, [], 0, 0, 0⟩
  hasInbox := false
  agent := 1
  agents := [1, 2, 3]
  author := some "generator"
  shaped := false
  tools := ⟨[], List.nodup_nil⟩
  modelTimeout := 60000000000
  toolTimeout := 60000000000
  queue := []
  reading := false
  steps := .new ⟨5, by decide, by decide⟩
  counters := .zero
  moment := 0
  log := []

private def rejectedOnce := Worker.execute writing rejecting oneRound threeSeats generator

theorem generator_critic_rounds_last_generation :
    rejectedOnce.1 = .done ⟨⟨66, [], .Finished⟩, .NotJudged, 4, false⟩ ∧
      (account 1 rejectedOnce.2.log).verdict = none := by
  have hends : rejectedOnce.1 = .done ⟨⟨66, [], .Finished⟩, .NotJudged, 4, false⟩ := by
    decide +kernel
  obtain ⟨ended, after, log, hexecute, hlog, -, -, -, -, -, houtcome⟩ :=
    generator_critic_rounds writing rejecting oneRound threeSeats generator rfl (by decide)
  have hresult : rejectedOnce = (ended, after) := hexecute
  rw [hresult] at hends ⊢
  refine ⟨hends, ?_⟩
  have hverdict := (houtcome _ hends).1
  rw [show after.log = log from hlog]
  exact hverdict

end Example

end LlmGraph.Agentic
