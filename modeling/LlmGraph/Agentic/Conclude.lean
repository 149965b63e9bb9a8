/- digest: The conclusion of an instance that has stopped: what is open in its session is discarded and
   every open turn of its agents is closed, in the copy and in the thread. -/

import LlmGraph.Agentic.OpenTurns
import LlmGraph.Agentic.Untouched

set_option autoImplicit false
set_option relaxedAutoImplicit false

namespace LlmGraph.Agentic

open Lib (Act)
open Lib.Act (Holds)

section Texts

/-- The text of an error, and the texts of its sources. -/
def PortError.texts : PortError → List String
  | Refused reason => ["the request was refused: " ++ reason]
  | Fault cause => ["a port failed", cause]

def SessionError.texts : SessionError → List String
  | Rules error => ["the rules of br-llm-messages refuse the change: " ++ error, error]
  | WrongTurn turn =>
      ["the turn " ++ toString turn ++ " is not the AI turn of that agent and author"]
  | WrongMailEntry mail =>
      ["the entry built for the mail " ++ toString mail ++ " is not the entry of that mail"]
  | Port error => error.texts

def CallFailure.texts : CallFailure → List String
  | Client error => ["the client failed: " ++ error, error]
  | Timeout timeout => ["the call exceeded its timeout of " ++ timeout.text]
  | NoThinking =>
      ["the runner declared that the model should think, and the response holds no thinking block"]
  | NoStructuredReply => ["the agent has a shape, and its final response holds no structured block"]
  | UnusableAnswer error => ["the answer of the critic is unusable: " ++ error]

def Fault.texts : Fault → List String
  | Port error => error.texts
  | Session error => error.texts
  | Boundary error =>
      let text := "the instance faulted at the boundary"
      ("the queue could not be stored: " ++ text) :: text :: error.fault.texts
  | Tool cause => ["a tool faulted", cause]
  | DuplicateTool name =>
      ["the tool name " ++ name ++ " appears twice among the tools of an instance"]
  | Model failure => failure.texts
  | Value text => ["a value is refused: " ++ text]
  | Sandbox path => ["the workspace port gave a path outside the sandbox: " ++ path]
  | CriticAtStepLimit message => ["the critic did not validate at the step limit: " ++ message]
  | CriticAtRoundLimit message => ["the critic did not validate at the round limit: " ++ message]
  | ProgrammaticRefusal reason => ["the programmatic critic refused: " ++ reason]
  | BlankExplicitReason => ["the programmatic critic refused with a blank explicit reason"]
  | Panic text => ["a panic: " ++ text]

/-- The texts without the repetition of the one before. -/
def unrepeated : List String → List String
  | [] => []
  | [text] => [text]
  | text :: next :: rest =>
      if text = next then unrepeated (next :: rest) else text :: unrepeated (next :: rest)

/-- `detail`: the text of a fault, with its sources. -/
def Fault.detail (fault : Fault) : String := ": ".intercalate (unrepeated fault.texts)

example : (Fault.Boundary ⟨.Port (.Fault "lost"), .empty⟩).detail =
    "the queue could not be stored: the instance faulted at the boundary: " ++
      "the instance faulted at the boundary: a port failed: lost" := by
  decide

end Texts

/-- What the race of an instance with its signals comes to. -/
inductive Raced (α : Type) where
  | Gone
  | Cancelled
  | Done (result : Except Stop α)

inductive Event (α : Type) where
  | Result (update : α)
  | Failed (fault : Fault)
  | Cancelled

/-- What stopped before its end. -/
def Raced.Stopped {α : Type} : Raced α → Prop
  | Gone | Done (.ok _) => False
  | Cancelled | Done (.error _) => True

/-- The surroundings while an instance is concluded: nothing is raced, so nothing interrupts. -/
def Env.concluding (env : Env) : Env := { env with interrupt := fun _ => none }

namespace Worker

variable {C α : Type} [Conversation C] (env : Env)

/-- The thread access is asked to discard each of the objects. -/
def discards : List EntryId → Doing C (List PortError)
  | [] => return []
  | _ :: rest => do
      match ← ask env.discardAnswer with
      | some error => return error :: (← discards rest)
      | none => discards rest

def discardAll : Doing C (List PortError) := do
  let responses := (← worker).session.responses
  let results := (← worker).session.results
  Act.modify fun worker => { worker with session := worker.session.discardAll }
  emit (responses.map .Discarded)
  let first ← discards env responses
  return first ++ (← discards env results)

/-- The loop of `close_open_turns` over the open turns of an agent.  An error ends it, and is passed on
where it is strict. -/
def closeTurnsOf (reason : ClosureReason) (strict : Bool) (agent : AgentId) : Nat → Doing C Unit
  | 0 => Act.spent
  | bound + 1 => do
      match (← worker).session.openAiTurn agent with
      | none => return ()
      | some turn => do
          match ← (closeTurn env turn reason).caught with
          | .ok () => closeTurnsOf reason strict agent bound
          | .error stop => if strict then Act.stop stop

/-- `close_open_turns`: each closing closes a turn, so the loop goes round no more often than there are
turns, and once more. -/
def closeOpenTurns (reason : ClosureReason) (strict : Bool) : List AgentId → Doing C Unit
  | [] => return ()
  | agent :: rest => do
      let count := (turns (← worker).session.conversation).length
      closeTurnsOf env reason strict agent (count + 1)
      closeOpenTurns reason strict rest

/-- `ClosureReason::failed` of the detail of the fault, or of a text that is always there. -/
def failedReason (fault : Fault) : Option ClosureReason :=
  if env.detailTaken fault.detail then some (.Failed fault.detail)
  else if env.detailTaken "the instance failed" then some (.Failed "the instance failed")
  else none

def result (update : α) : Doing C (Event α) := do
  match (← discardAll env).head? with
  | some error => return .Failed (.Port error)
  | none => return .Result update

def failed (cause : Fault) : Doing C (Event α) := do
  let _ ← discardAll env
  return .Failed cause

def cancelled : Doing C (Event α) := do
  let _ ← discardAll env
  return .Cancelled

/-- The turns that a stop leaves open are closed, as far as that goes. -/
def closeLeft (reason : ClosureReason) : Doing C Unit := do
  let _ ← discardAll env
  closeOpenTurns env reason false (← worker).agents

def conclude (raced : Raced α) : Doing C (Option (Event α)) := do
  Act.modify fun worker => { worker with reading := false }
  match raced with
  | .Gone => return none
  | .Cancelled | .Done (.error .Cancelled) => do
      closeLeft env.concluding .Cancelled
      return some (← cancelled env.concluding)
  | .Done (.error (.Fault fault)) => do
      match failedReason env fault with
      | some reason => closeLeft env.concluding reason
      | none => let _ ← discardAll env.concluding
      return some (← failed env.concluding fault)
  | .Done (.ok update) => return some (← result env.concluding update)

end Worker

section Closing

variable {C : Type} [Conversation C] {env : Env}

/-- No two entries get one identity. -/
def Env.NamesApart (env : Env) : Prop :=
  ∀ one other id, env.entryId one = .ok id → env.entryId other = .ok id → one = other

/-- From here on the thread access takes what it is given, and the identities of entries are new to the
copy. -/
structure Answering (env : Env) (worker : Worker C) : Prop where
  takes : ∀ call, worker.host.threadCalls ≤ call → env.ports.thread call = none
  named : ∀ moment, worker.moment ≤ moment →
    ∃ id, env.entryId moment = .ok id ∧ id ∉ entryIds worker.session.conversation

/-- What holds of a worker whose turns can be closed. -/
structure CanClose (env : Env) (worker : Worker C) : Prop where
  distinct : Distinct worker.session.conversation
  answering : Answering env worker

/-- No turn is opened between the two, and the thread goes with the copy. -/
structure Shut (start worker : Worker C) : Prop where
  stems : ∀ ai, StillOpen worker.session.conversation ai →
    ∃ held, StillOpen start.session.conversation held ∧ held.Same ai
  mirrors : Mirrors start.host.thread start.session.conversation →
    Mirrors worker.host.thread worker.session.conversation
  agents : worker.agents = start.agents
  objects : worker.session.responses = start.session.responses ∧
    worker.session.results = start.session.results

theorem Shut.refl (worker : Worker C) : Shut worker worker :=
  ⟨fun ai hai => ⟨ai, hai, .refl ai⟩, fun hmirrors => hmirrors, rfl, rfl, rfl⟩

theorem Shut.trans {start middle worker : Worker C} (hfirst : Shut start middle)
    (hlater : Shut middle worker) : Shut start worker := by
  refine ⟨fun ai hai => ?_, fun hmirrors => hlater.mirrors (hfirst.mirrors hmirrors),
    hlater.agents.trans hfirst.agents, hlater.objects.1.trans hfirst.objects.1,
    hlater.objects.2.trans hfirst.objects.2⟩
  obtain ⟨held, hheld, hsame⟩ := hlater.stems ai hai
  obtain ⟨first, hfirst, hsame'⟩ := hfirst.stems held hheld
  exact ⟨first, hfirst, hsame'.1.trans hsame.1, hsame'.2.1.trans hsame.2.1,
    hsame'.2.2.trans hsame.2.2⟩

/-- An act that cannot fail from here. -/
abbrev Surely {α : Type} (start : Worker C) (act : Doing C α) (post : α → Worker C → Prop) : Prop :=
  Holds (fun worker => worker = start) act post fun _ _ => False

omit [Conversation C] in
theorem ask_surely {α : Type} (start : Worker C) (answer : Nat → α) :
    Surely start (Worker.ask answer) fun given worker =>
      given = answer start.moment ∧ worker = { start with moment := start.moment + 1 } := by
  rintro worker rfl
  exact .inl ⟨_, _, rfl, rfl, rfl⟩

omit [Conversation C] in
theorem await_surely (hcalm : ∀ moment, env.interrupt moment = none) (start : Worker C) :
    Surely start (Worker.await env) fun _ worker =>
      worker = { start with moment := start.moment + 1 } := by
  refine .bind _ (ask_surely start env.interrupt) fun given => ?_
  cases given with
  | none => exact .pure fun worker hasked => hasked.2
  | some interruption =>
      refine .stop fun worker hasked => ?_
      rw [hcalm] at hasked
      cases hasked.1

omit [Conversation C] in
theorem answer_surely {α : Type} (start : Worker C) (answer : Nat → Except String α) {value : α}
    (hanswer : answer start.moment = .ok value) :
    Surely start (Worker.ask answer >>= Worker.value : Doing C α) fun given worker =>
      given = value ∧ worker = { start with moment := start.moment + 1 } := by
  refine .bind _ (ask_surely start answer) fun given => ?_
  refine .ofExcept (fun found hfound worker hasked => ?_) fun error herror worker hasked => ?_
  · rw [hanswer, hfound] at hasked
    exact ⟨Except.ok.inj hasked.1, hasked.2⟩
  · rw [hanswer, herror] at hasked
    cases hasked.1

omit [Conversation C] in
/-- An addition that the copy and the thread access take. -/
theorem add_taken {M : Type} {ports : Ports M} {session after : Session C} {host host' : Host C}
    {apply : C → Except SessionError C} {next : C} {outcome : Except SessionError Unit}
    (happlied : apply session.conversation = .ok next) (htakes : ports.thread host.threadCalls = none)
    (hadd : session.add ports host apply = (outcome, after, host')) :
    outcome = .ok () ∧ after = { session with conversation := next } ∧
      host'.threadCalls = host.threadCalls + 1 ∧
        ((∃ taken, apply host.thread = .ok taken ∧ host'.thread = taken) ∨
          (∃ refusal, apply host.thread = .error refusal) ∧ host'.thread = host.thread) := by
  unfold Session.add at hadd
  rw [happlied] at hadd
  dsimp only at hadd
  rw [htakes] at hadd
  cases hadd
  refine ⟨rfl, rfl, rfl, ?_⟩
  cases apply host.thread with
  | ok taken => exact .inl ⟨taken, rfl, rfl⟩
  | error refusal => exact .inr ⟨⟨refusal, rfl⟩, rfl⟩

section Closed

variable (hlawful : Conversation.Lawful C) (hclosable : Conversation.Closable C)
  (hapart : env.NamesApart) (hcalm : ∀ moment, env.interrupt moment = none) {reason : ClosureReason}
  (hreason : reason = .Cancelled ∨ ∃ detail, reason = .Failed detail)

include hlawful hclosable hapart hreason in
/-- What is left by a closing that the copy and the thread access take. -/
theorem added_canClose {start : Worker C} (hready : CanClose env start) {ai : AITurn}
    (hai : StillOpen start.session.conversation ai) {entry : EntryId} {next : C} {host : Host C}
    (hentry : env.entryId start.moment = .ok entry)
    (hfresh : entry ∉ entryIds start.session.conversation)
    (happlied : applyClosure start.session.conversation ⟨ai.id, ai.agent, ai.author⟩
      ⟨entry, reason⟩ = .ok next)
    (hcalls : host.threadCalls = start.host.threadCalls + 1)
    (hthread : (∃ taken, applyClosure start.host.thread ⟨ai.id, ai.agent, ai.author⟩
        ⟨entry, reason⟩ = .ok taken ∧ host.thread = taken) ∨
      (∃ refusal, applyClosure start.host.thread ⟨ai.id, ai.agent, ai.author⟩
        ⟨entry, reason⟩ = .error refusal) ∧ host.thread = start.host.thread)
    {moment : Nat} (hmoment : start.moment < moment) :
    CanClose env { start.added next host with moment } ∧
      Shut start { start.added next host with moment } := by
  obtain ⟨hadds, hgains⟩ := applyClosure_adds hlawful hready.distinct happlied
  refine ⟨⟨hadds.distinct, fun call hcall => ?_, fun later hlater => ?_⟩,
    fun later hlater => ?_, fun hmirrors => ?_, rfl, rfl, rfl⟩
  · have hcall : host.threadCalls ≤ call := hcall
    exact hready.answering.takes call (by omega)
  · have hafter : start.moment < later := Nat.lt_of_lt_of_le hmoment hlater
    obtain ⟨other, hother, hnew⟩ := hready.answering.named later (Nat.le_of_lt hafter)
    refine ⟨other, hother, fun hheld => ?_⟩
    rcases (hgains.mem_iff other).mp hheld with hheld | hheld
    · exact hnew hheld
    · obtain rfl := List.mem_singleton.mp hheld
      exact Nat.ne_of_lt hafter (hapart _ _ _ hentry hother)
  · rcases hadds.stems later hlater with ⟨held, hheld, hsame, -⟩ | ⟨_, hnone, -⟩
    · exact ⟨held, hheld, hsame⟩
    · cases hnone
  · have hkept := hmirrors.closes hlawful hclosable hready.distinct hai hfresh hreason happlied
    rcases hthread with ⟨taken, htaken, hsame⟩ | ⟨⟨refusal, hrefused⟩, hsame⟩
    · rcases hkept with ⟨taken', htaken', hkept⟩ | ⟨⟨refusal, hrefused⟩, -⟩
      · rw [htaken] at htaken'
        cases htaken'
        exact hsame ▸ hkept
      · rw [htaken] at hrefused
        cases hrefused
    · rcases hkept with ⟨taken, htaken, -⟩ | ⟨-, hkept⟩
      · rw [hrefused] at htaken
        cases htaken
      · exact hsame ▸ hkept

include hlawful hclosable hapart hcalm hreason in
/-- The closing of an open turn goes well: the agent has an open turn less. -/
theorem closeTurn_surely {start : Worker C} (hready : CanClose env start) {ai : AITurn}
    (hai : StillOpen start.session.conversation ai) :
    Surely start (Worker.closeTurn env ⟨ai.id, ai.agent, ai.author⟩ reason) fun _ worker =>
      (CanClose env worker ∧ Shut start worker) ∧
        (openTurns worker.session.conversation ai.agent).length <
          (openTurns start.session.conversation ai.agent).length := by
  obtain ⟨entry, hentry, hfresh⟩ := hready.answering.named start.moment (Nat.le_refl _)
  obtain ⟨next, happlied⟩ := applyClosure_ok hclosable hready.distinct hai
    ⟨ai.id, ai.agent, ai.author⟩ ⟨entry, reason⟩ rfl rfl rfl hfresh hreason
  refine .bind _ (answer_surely start env.entryId hentry) fun given => ?_
  refine .ghost fun asked hasked => ?_
  obtain ⟨rfl, rfl⟩ := hasked
  refine .read fun seen hseen => ?_
  subst hseen
  rcases hclosed : Session.closeTurn env.ports start.session start.host
    ⟨ai.id, ai.agent, ai.author⟩ ⟨given, reason⟩ with ⟨outcome, session, host⟩
  obtain ⟨rfl, rfl, hcalls, hthread⟩ :=
    add_taken happlied (hready.answering.takes start.host.threadCalls (Nat.le_refl _)) hclosed
  refine .bind (fun _ worker =>
    worker = { start.added next host with moment := start.moment + 1 }) ?_ fun _ => ?_
  · exact .modify fun worker hworker => hworker ▸ rfl
  refine .bind _ (await_surely hcalm _) fun _ => .pure fun worker hworker => ?_
  subst hworker
  have hlater : start.moment < start.moment + 1 + 1 := Nat.lt_succ_of_lt (Nat.lt_succ_self _)
  exact ⟨added_canClose hlawful hclosable hapart hreason hready hai hentry hfresh happlied hcalls hthread
    hlater, applyClosure_fewer hlawful hready.distinct hai happlied⟩

include hlawful hclosable hapart hcalm hreason in
/-- The loop over the open turns of an agent: each turn of it takes one that is open, so it ends. -/
theorem closeTurnsOf_surely (strict : Bool) (agent : AgentId) (bound : Nat) {start : Worker C}
    (hready : CanClose env start)
    (hbound : (openTurns start.session.conversation agent).length < bound) :
    Surely start (Worker.closeTurnsOf env reason strict agent bound) fun _ worker =>
      (CanClose env worker ∧ Shut start worker) ∧
        ∀ ai, StillOpen worker.session.conversation ai → ai.agent ≠ agent := by
  induction bound generalizing start with
  | zero => exact absurd hbound (Nat.not_lt_zero _)
  | succ bound hind =>
      refine .read fun seen hseen => ?_
      subst hseen
      rcases hopen : seen.session.openAiTurn agent with _ | target
      · refine .pure fun worker hworker => ?_
        subst hworker
        exact ⟨⟨hready, .refl worker⟩, openAiTurn_none.mp hopen⟩
      · obtain ⟨ai, hai, rfl, rfl⟩ := openAiTurn_some hopen
        have hclosing := closeTurn_surely hlawful hclosable hapart hcalm hreason hready hai
        refine .bind (fun result worker => result = .ok () ∧ (CanClose env worker ∧ Shut seen worker) ∧
          (openTurns worker.session.conversation ai.agent).length <
            (openTurns seen.session.conversation ai.agent).length) ?_ fun result => ?_
        · exact hclosing.caught (fun _ _ hclosed => ⟨rfl, hclosed⟩) fun _ _ hnever => hnever.elim
        · refine .ghost fun closed hclosed => ?_
          obtain ⟨rfl, ⟨hready', hshut⟩, hfewer⟩ := hclosed
          refine (hind hready' (by omega)).imp (fun _ hworker => hworker) (fun _ worker hlast => ?_)
            fun _ _ hnever => hnever
          exact ⟨⟨hlast.1.1, hshut.trans hlast.1.2⟩, hlast.2⟩

include hlawful hclosable hapart hcalm hreason in
theorem closeOpenTurns_surely (strict : Bool) (agents : List AgentId) {start : Worker C}
    (hready : CanClose env start) :
    Surely start (Worker.closeOpenTurns env reason strict agents) fun _ worker =>
      (CanClose env worker ∧ Shut start worker) ∧
        ∀ ai, StillOpen worker.session.conversation ai → ai.agent ∉ agents := by
  induction agents generalizing start with
  | nil =>
      refine .pure fun worker hworker => ?_
      subst hworker
      exact ⟨⟨hready, .refl worker⟩, fun _ _ => List.not_mem_nil⟩
  | cons agent rest hind =>
      refine .read fun seen hseen => ?_
      subst hseen
      have hcount : (openTurns seen.session.conversation agent).length <
          (turns seen.session.conversation).length + 1 := Nat.lt_succ_of_le (openTurns_length agent)
      refine .bind _ (closeTurnsOf_surely hlawful hclosable hapart hcalm hreason strict agent _
        hready hcount) fun _ => ?_
      refine .ghost fun closed hclosed => ?_
      obtain ⟨⟨hready', hshut⟩, hnone⟩ := hclosed
      refine (hind hready').imp (fun _ hworker => hworker) (fun _ worker hlast => ?_)
        fun _ _ hnever => hnever
      obtain ⟨⟨hlastReady, hlastShut⟩, hlastNone⟩ := hlast
      refine ⟨⟨hlastReady, hshut.trans hlastShut⟩, fun ai hai hmem => ?_⟩
      rcases List.mem_cons.mp hmem with hagent | hrest
      · obtain ⟨held, hheld, hsame⟩ := hlastShut.stems ai hai
        exact hnone held hheld (hsame.2.1.trans hagent)
      · exact hlastNone ai hai hrest

end Closed

omit [Conversation C] in
theorem discards_surely (entries : List EntryId) (start : Worker C) :
    Surely start (Worker.discards env entries) fun _ worker =>
      ∃ moment, start.moment ≤ moment ∧ worker = { start with moment } := by
  induction entries generalizing start with
  | nil => exact .pure fun worker hworker => ⟨start.moment, Nat.le_refl _, hworker⟩
  | cons entry rest hind =>
      refine .bind _ (ask_surely start env.discardAnswer) fun answer => ?_
      refine .ghost fun asked hasked => ?_
      obtain ⟨-, rfl⟩ := hasked
      have hrest : Surely { start with moment := start.moment + 1 } (Worker.discards env rest)
          fun _ worker => ∃ moment, start.moment ≤ moment ∧ worker = { start with moment } := by
        refine (hind _).imp (fun _ hworker => hworker) (fun _ worker hlast => ?_)
          fun _ _ hnever => hnever
        obtain ⟨moment, hmoment, hworker⟩ := hlast
        exact ⟨moment, Nat.le_trans (Nat.le_succ _) hmoment, hworker⟩
      cases answer with
      | none => exact hrest
      | some error => exact .bind _ hrest fun _ => .pure fun _ hlast => hlast

/-- Nothing of a session is open, and neither the copy nor the thread has lost anything else. -/
structure Emptied (start worker : Worker C) : Prop where
  objects : worker.session.openObjects = 0
  conversation : worker.session.conversation = start.session.conversation
  host : worker.host = start.host
  agents : worker.agents = start.agents
  moment : start.moment ≤ worker.moment

omit [Conversation C] in
theorem discardAll_surely (start : Worker C) :
    Surely start (Worker.discardAll env) fun _ worker => Emptied start worker := by
  refine .read fun seen hseen => .read fun again hagain => ?_
  subst hseen hagain
  refine .bind (fun _ worker => worker = { again with session := again.session.discardAll })
    (.modify fun worker hworker => hworker ▸ rfl) fun _ => ?_
  refine .bind (fun _ => Emptied again) (.modify fun worker hworker => ?_) fun _ => ?_
  · subst hworker
    exact ⟨rfl, rfl, rfl, rfl, Nat.le_refl _⟩
  have hmore (entries : List EntryId) : Holds (Emptied again) (Worker.discards env entries)
      (fun _ => Emptied again) fun _ _ => False := by
    refine .ghost fun before hbefore => ?_
    refine (discards_surely entries before).imp (fun _ hworker => hworker) (fun _ worker hlast => ?_)
      fun _ _ hnever => hnever
    obtain ⟨moment, hmoment, rfl⟩ := hlast
    exact ⟨hbefore.objects, hbefore.conversation, hbefore.host, hbefore.agents,
      Nat.le_trans hbefore.moment hmoment⟩
  exact .bind _ (hmore _) fun _ => .bind _ (hmore _) fun _ => .pure fun _ hlast => hlast

theorem Emptied.canClose {start worker : Worker C} (hemptied : Emptied start worker)
    (hready : CanClose env start) : CanClose env worker := by
  refine ⟨?_, fun call hcall => ?_, fun moment hmoment => ?_⟩
  · rw [hemptied.conversation]
    exact hready.distinct
  · rw [hemptied.host] at hcall
    exact hready.answering.takes call hcall
  · rw [hemptied.conversation]
    exact hready.answering.named moment (Nat.le_trans hemptied.moment hmoment)

theorem Emptied.shut {start worker : Worker C} (hemptied : Emptied start worker) :
    (∀ ai, StillOpen worker.session.conversation ai → StillOpen start.session.conversation ai) ∧
      (Mirrors start.host.thread start.session.conversation →
        Mirrors worker.host.thread worker.session.conversation) := by
  rw [hemptied.conversation, hemptied.host]
  exact ⟨fun _ hai => hai, fun hmirrors => hmirrors⟩

/-- What a conclusion leaves: no object of the session is open, and no turn of the agents, in the copy
or, where that went with the copy, in the thread. -/
structure Concluded (start worker : Worker C) : Prop where
  objects : worker.session.openObjects = 0
  copy : ∀ agent ∈ start.agents, worker.session.openAiTurn agent = none
  thread : Mirrors start.host.thread start.session.conversation →
    ∀ ai, StillOpen worker.host.thread ai → ai.agent ∉ start.agents

theorem Concluded.emptied {start before worker : Worker C} (hconcluded : Concluded start before)
    (hemptied : Emptied before worker) : Concluded start worker := by
  refine ⟨hemptied.objects, fun agent hagent => ?_, fun hmirrors => ?_⟩
  · unfold Session.openAiTurn
    rw [hemptied.conversation]
    exact hconcluded.copy agent hagent
  · rw [hemptied.host]
    exact hconcluded.thread hmirrors

section Conclude

variable {α : Type} (hlawful : Conversation.Lawful C) (hclosable : Conversation.Closable C)
  (hapart : env.NamesApart)

include hlawful hclosable hapart in
theorem closeLeft_surely {reason : ClosureReason}
    (hreason : reason = .Cancelled ∨ ∃ detail, reason = .Failed detail) {start : Worker C}
    (hready : CanClose env start) :
    Surely start (Worker.closeLeft env.concluding reason) fun _ => Concluded start := by
  refine .bind _ (discardAll_surely start) fun _ => ?_
  refine .ghost fun emptied hemptied => ?_
  refine .read fun seen hseen => ?_
  subst hseen
  have hready' : CanClose env.concluding seen :=
    ⟨(hemptied.canClose hready).distinct, (hemptied.canClose hready).answering.takes,
      (hemptied.canClose hready).answering.named⟩
  have hnames : env.concluding.NamesApart := hapart
  refine (closeOpenTurns_surely hlawful hclosable hnames (fun _ => rfl) hreason false seen.agents
    hready').imp (fun _ hworker => hworker) (fun _ worker hlast => ?_) fun _ _ hnever => hnever
  obtain ⟨⟨-, hshut⟩, hnone⟩ := hlast
  rw [hemptied.agents] at hnone
  refine ⟨?_, fun agent hagent => ?_, fun hmirrors ai hai hagent => ?_⟩
  · have hobjects := hemptied.objects
    unfold Session.openObjects at hobjects ⊢
    rwa [hshut.objects.1, hshut.objects.2]
  · refine openAiTurn_none.mpr fun ai hai hsame => hnone ai hai ?_
    rwa [hsame]
  · obtain ⟨other, hother, hsame⟩ := (hshut.mirrors (hemptied.shut.2 hmirrors)).opens ai hai
    refine hnone other hother ?_
    rwa [← hsame.2.1]

include hlawful hclosable hapart in
/-- An instance that has stopped concludes with an event, and leaves nothing open. -/
theorem conclude_surely (htaken : env.detailTaken "the instance failed" = true) {raced : Raced α}
    (hstopped : raced.Stopped) {start : Worker C} (hready : CanClose env start) :
    Surely start (Worker.conclude env raced) fun event worker =>
      event.isSome = true ∧ Concluded start worker := by
  refine .bind (fun _ worker => worker = { start with reading := false })
    (.modify fun worker hworker => hworker ▸ rfl) fun _ => ?_
  have hquiet : CanClose env { start with reading := false } :=
    ⟨hready.distinct, hready.answering.takes, hready.answering.named⟩
  have hlast (event : Event α) (before : Worker C) : Surely before
      (do let _ ← Worker.discardAll env.concluding; return event) fun _ => Emptied before :=
    .bind _ (discardAll_surely before) fun _ => .pure fun _ hemptied => hemptied
  have hleft {reason : ClosureReason}
      (hreason : reason = .Cancelled ∨ ∃ detail, reason = .Failed detail) {last : Doing C (Event α)}
      (hends : ∀ before, Surely before last fun _ => Emptied before) :
      Surely { start with reading := false }
        (do Worker.closeLeft env.concluding reason; return some (← last)) fun given worker =>
          given.isSome = true ∧ Concluded start worker := by
    refine .bind _ (closeLeft_surely hlawful hclosable hapart hreason hquiet) fun _ => ?_
    refine .ghost fun left hleft => ?_
    refine .bind _ (hends left) fun _ => .pure fun worker hemptied => ⟨rfl, ?_⟩
    have hlast := hleft.emptied hemptied
    exact ⟨hlast.objects, hlast.copy, hlast.thread⟩
  cases raced with
  | Gone => exact hstopped.elim
  | Cancelled => exact hleft (.inl rfl) (hlast .Cancelled)
  | Done result =>
      cases result with
      | ok update => exact hstopped.elim
      | error stop =>
          cases stop with
          | Cancelled => exact hleft (.inl rfl) (hlast .Cancelled)
          | Fault fault =>
              have hreason : ∃ detail, Worker.failedReason env fault = some (.Failed detail) := by
                unfold Worker.failedReason
                rw [htaken]
                split
                · exact ⟨_, rfl⟩
                · exact ⟨_, rfl⟩
              obtain ⟨detail, hreason⟩ := hreason
              dsimp only
              rw [hreason]
              exact hleft (.inr ⟨detail, rfl⟩) (hlast (.Failed fault))

end Conclude

end Closing

end LlmGraph.Agentic
