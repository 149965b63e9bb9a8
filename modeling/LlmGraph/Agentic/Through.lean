/- digest: Many steps through one slot: the clients are attempted in the order of the list until one
   answers, and from then on that one alone is called, once a step. -/

import LlmGraph.Agentic.Fallback
import LlmGraph.Agentic.Ledger
import LlmGraph.Agentic.Passes

set_option autoImplicit false
set_option relaxedAutoImplicit false

namespace LlmGraph.Agentic

open Lib (Act)
open Lib.Act (Holds)

variable {C : Type}

/-- The worker has called no model: no response was opened, none has ended, no step is counted. -/
structure Quiet (start worker : Worker C) : Prop where
  log : ∃ effects, worker.log = start.log ++ effects ∧ ∀ effect ∈ effects, effect.ofModel = false
  responses : worker.session.responses = start.session.responses
  steps : worker.steps = start.steps

namespace Quiet

theorem refl (worker : Worker C) : Quiet worker worker :=
  ⟨⟨[], (List.append_nil _).symm, fun _ heffect => by cases heffect⟩, rfl, rfl⟩

theorem emit {start worker : Worker C} (hquiet : Quiet start worker) {effect : Effect}
    (hother : effect.ofModel = false) : Quiet start { worker with log := worker.log ++ [effect] } := by
  obtain ⟨⟨effects, hlog, hall⟩, hresponses, hsteps⟩ := hquiet
  refine ⟨⟨effects ++ [effect], by rw [hlog, List.append_assoc], fun other hmem => ?_⟩, hresponses,
    hsteps⟩
  rcases List.mem_append.mp hmem with hbefore | hlast
  · exact hall other hbefore
  · rw [List.mem_singleton.mp hlast]
    exact hother

theorem timeless (start : Worker C) : Timeless (Quiet start) :=
  fun _ _ _ hquiet => ⟨hquiet.log, hquiet.responses, hquiet.steps⟩

variable [Conversation C] {env : Env}

theorem tools (start : Worker C) (turn : TurnId) : ToolsApart env turn (Quiet start) where
  timeless := timeless start
  results _ _ hquiet := ⟨hquiet.log, hquiet.responses, hquiet.steps⟩
  started _ _ hquiet := hquiet.emit rfl
  completed _ _ _ _ _ _ _ hquiet _ := ⟨hquiet.log, hquiet.responses, hquiet.steps⟩

theorem close (start : Worker C) (target : AiTurnRef) (reason : ClosureReason) :
    CloseApart env target reason (Quiet start) :=
  fun _ _ _ _ _ hquiet _ => ⟨hquiet.log, hquiet.responses, hquiet.steps⟩

theorem drain (start : Worker C) : DrainApart env (Quiet start) where
  timeless := timeless start
  queue _ _ _ hquiet := ⟨hquiet.log, hquiet.responses, hquiet.steps⟩
  stored worker queue turn outcome session host left hquiet hstored := by
    have hkept : session.responses = worker.session.responses := by
      have hstores := storeAtBoundary_responses env.ports worker.session worker.host
        worker.agent queue turn
      rw [hstored] at hstores
      exact hstores
    exact ⟨hquiet.log, hkept.trans hquiet.responses, hquiet.steps⟩

end Quiet

section Runs

variable [Conversation C] {env : Env} {list : FallbackList} {start worker : Worker C} {slot : Slot}
  {steps : Nat}

/-- A slot from where it is made on: so many steps have been answered through it, and the worker
does anything between them but call a model. -/
inductive Through (env : Env) (list : FallbackList) (start : Worker C) :
    Nat → Slot → Worker C → Prop
  | start : Through env list start 0 (.new list) start
  | step {steps : Nat} {slot next : Slot} {worker after : Worker C} {id : TurnId}
      (turn : Option TurnId) (warning : Option String) (response : ModelResponse)
      (hbefore : Through env list start steps slot worker)
      (hstep : Worker.step env slot turn warning worker = (.done (response, next, id), after)) :
      Through env list start (steps + 1) next after
  | between {steps : Nat} {slot : Slot} {worker after : Worker C}
      (hbefore : Through env list start steps slot worker) (hquiet : Quiet worker after) :
      Through env list start steps slot after

/-- The slot after so many steps, and the attempts of these steps. -/
def Order (list : FallbackList) (slot : Slot) (log : List Effect) : Nat → Prop
  | 0 => slot = .new list ∧ Attempts [] log
  | steps + 1 => ∃ index client, list.clients[index]? = some client ∧ slot = ⟨list, some index⟩ ∧
      Attempts (failures (list.clients.take index) ++ List.replicate (steps + 1) (client, true)) log

/-- What a step that stops has added to the log: attempts that failed, and one that a fatal error
broke off, or attempts on every client that the slot still has. -/
def Broke (slot : Slot) (reason : Stop) (rest : List Effect) : Prop :=
  (reason.Fatal ∧ ∃ place client before entry part, slot.tries[place]? = some client ∧
    Attempts (failures (slot.tries.take place)) before ∧ Broken entry client part ∧
      rest = before ++ part) ∨
  ∃ failure, reason = .Fault (.Model failure) ∧ Attempts (failures slot.tries) rest

omit [Conversation C] in
theorem Order.proper {log : List Effect} (horder : Order list slot log steps) : slot.Proper := by
  intro index hindex
  cases steps with
  | zero =>
      obtain ⟨rfl, -⟩ := horder
      cases hindex
  | succ steps =>
      obtain ⟨place, client, hclient, rfl, -⟩ := horder
      cases hindex
      exact (List.getElem?_eq_some_iff.mp hclient).1

omit [Conversation C] in
theorem Order.attempts {log : List Effect} (horder : Order list slot log steps) :
    ∃ made, Attempts made log := by
  cases steps with
  | zero => exact ⟨[], horder.2⟩
  | succ steps =>
      obtain ⟨place, client, -, -, hattempts⟩ := horder
      exact ⟨_, hattempts⟩

omit [Conversation C] in
/-- One more step: the first that is answered settles the slot, the others go through its client. -/
private theorem Order.step {log more : List Effect} {next : Slot} {place : Nat}
    {client : ModelClient} (horder : Order list slot log steps)
    (hclient : slot.tries[place]? = some client)
    (hnext : next = { slot with settled := some (slot.settled.getD place) })
    (hattempts : Attempts (failures (slot.tries.take place) ++ [(client, true)]) more) :
    Order list next (log ++ more) (steps + 1) := by
  cases steps with
  | zero =>
      obtain ⟨rfl, hnone⟩ := horder
      exact ⟨place, client, hclient, hnext, hnone.append hattempts⟩
  | succ steps =>
      obtain ⟨index, settled, hsettled, rfl, hbefore⟩ := horder
      have htries : Slot.tries ⟨list, some index⟩ = [settled] := by
        show list.clients[index]?.toList = [settled]
        rw [hsettled]
        rfl
      rw [htries] at hclient hattempts
      have hplace : place = 0 := by
        have hlt := (List.getElem?_eq_some_iff.mp hclient).1
        have hone : [settled].length = 1 := rfl
        omega
      subst hplace
      obtain rfl : settled = client := Option.some.inj hclient
      refine ⟨index, settled, hsettled, hnext, ?_⟩
      have hboth := hbefore.append hattempts
      rw [List.append_assoc] at hboth
      rw [List.replicate_succ']
      exact hboth

private theorem Through.order (hentitles : env.Entitles) (hfresh : start.session.responses = [])
    (hthrough : Through env list start steps slot worker) :
    ∃ log, Reached start log [] worker ∧ Order list slot log steps := by
  induction hthrough with
  | start => exact ⟨[], ⟨(List.append_nil _).symm, hfresh⟩, rfl, .none⟩
  | @step steps slot next worker after id turn warning response hbefore hstep hind =>
      obtain ⟨log, hreached, horder⟩ := hind
      have hhere : Reached worker [] [] worker := ⟨(List.append_nil _).symm, hreached.responses⟩
      rcases step_holds hentitles horder.proper turn warning worker hhere with
        ⟨result, last, hresult, hstepped⟩ | ⟨reason, last, hstop, -⟩
      · rw [hstep] at hresult
        cases hresult
        obtain ⟨place, client, more, hclient, hnext, hattempts, hlast⟩ := hstepped
        refine ⟨log ++ more, ⟨?_, hlast.responses⟩, horder.step hclient hnext hattempts⟩
        rw [hlast.log, hreached.log, List.append_assoc]
      · rw [hstep] at hstop
        cases hstop
  | @between steps slot worker after hbefore hquiet hind =>
      obtain ⟨log, hreached, horder⟩ := hind
      obtain ⟨⟨effects, hlog, hothers⟩, hresponses, -⟩ := hquiet
      refine ⟨log ++ effects, ⟨?_, hresponses.trans hreached.responses⟩, ?_⟩
      · rw [hlog, hreached.log, List.append_assoc]
      · cases steps with
        | zero => exact ⟨horder.1, horder.2.quiet hothers⟩
        | succ steps =>
            obtain ⟨index, client, hclient, hslot, hattempts⟩ := horder
            exact ⟨index, client, hclient, hslot, hattempts.quiet hothers⟩

omit [Conversation C] in
private theorem Broke.oneOpen {reason : Stop} {log rest : List Effect}
    (hlog : ∃ made, Attempts made log) (hbroke : Broke slot reason rest) :
    OneOpen [] (log ++ rest) := by
  obtain ⟨made, hmade⟩ := hlog
  rcases hbroke with ⟨-, place, client, before, entry, part, -, hbefore, hpart, rfl⟩ |
    ⟨failure, -, hall⟩
  · have hwhole := hmade.append hbefore
    rw [← List.append_assoc]
    refine hwhole.oneOpen.append ?_
    rw [hwhole.opened]
    exact hpart.oneOpen
  · exact (hmade.append hall).oneOpen

end Runs

section Passes

variable [Conversation C] {env : Env} {list : FallbackList} {start worker : Worker C} {slot : Slot}

/-- In the middle of a pass: steps were answered through the slot, and so many remain. -/
def Remains (env : Env) (list : FallbackList) (start : Worker C) (left : Nat) (slot : Slot)
    (worker : Worker C) : Prop :=
  ∃ steps, Through env list start steps slot worker ∧ worker.steps.remaining = left

/-- A run through a slot was stopped, between two steps or in one. -/
def RunStopped (env : Env) (list : FallbackList) (start : Worker C) (reason : Stop)
    (worker : Worker C) : Prop :=
  ∃ steps slot last, Through env list start steps slot last ∧
    (reason.Fatal ∧ Quiet last worker ∨
      ∃ turn warning, Worker.step env slot turn warning last = (.stop reason, worker))

private theorem Remains.quiet {left : Nat} {after : Worker C}
    (hremains : Remains env list start left slot worker) (hquiet : Quiet worker after) :
    Remains env list start left slot after := by
  obtain ⟨steps, hthrough, hleft⟩ := hremains
  exact ⟨steps, hthrough.between hquiet, hquiet.steps ▸ hleft⟩

/-- An act that is quiet from wherever it starts goes on with the run, or stops it between steps. -/
private theorem quiet_holds {α : Type} {act : Doing C α} {left : Nat}
    (hact : ∀ seen, Holds (Quiet seen) act (fun _ => Quiet seen)
      fun reason worker => reason.Fatal ∧ Quiet seen worker) :
    Holds (Remains env list start left slot) act (fun _ => Remains env list start left slot)
      (RunStopped env list start) := by
  refine .ghost fun seen hseen => ?_
  refine (hact seen).imp (fun worker hsame => hsame ▸ .refl seen)
    (fun _ worker hquiet => hseen.quiet hquiet) fun reason worker hstopped => ?_
  obtain ⟨steps, hthrough, -⟩ := hseen
  exact ⟨steps, slot, seen, hthrough, .inl hstopped⟩

private theorem leaves_runStopped {left : Nat} :
    Leaves (Remains env list start left slot) (RunStopped env list start) := by
  intro reason worker hfatal hremains
  obtain ⟨steps, hthrough, -⟩ := hremains
  exact ⟨steps, slot, worker, hthrough, .inl ⟨hfatal, .refl worker⟩⟩

omit [Conversation C] in
private theorem leaves_quiet (seen : Worker C) :
    Leaves (Quiet seen) fun reason worker => reason.Fatal ∧ Quiet seen worker :=
  fun _ _ hfatal hquiet => ⟨hfatal, hquiet⟩

/-- A step is a step of the run, and counted. -/
private theorem step_remains {left : Nat} (turn : Option TurnId) (warning : Option String) :
    Holds (Remains env list start (left + 1) slot) (Worker.step env slot turn warning)
      (fun result => Remains env list start left result.2.1) (RunStopped env list start) := by
  intro worker hremains
  obtain ⟨steps, hthrough, hleft⟩ := hremains
  have hcounted : Holds (fun state => state.steps = worker.steps)
      (Worker.step env slot turn warning)
      (fun result after => ∃ kept : Worker C, kept.steps = worker.steps ∧
        after = kept.stepped result.1) fun _ _ => True := by
    have hapart (id : TurnId) : StepApart env id (fun _ => True)
        fun state : Worker C => state.steps = worker.steps :=
      ⟨fun _ _ _ hsame => hsame, fun _ _ hsame => hsame, fun _ _ _ hsame => hsame,
        fun _ _ _ _ _ _ _ hsame _ => hsame⟩
    exact (step_apart (hapart 0).timeless hapart (fun _ _ => trivial) (fun _ _ _ hsame => hsame)
      (fun _ _ _ _ => trivial) (fun _ _ _ _ => trivial) warning).imp (fun _ hsame => hsame)
      (fun _ _ hkept => hkept.2) fun _ _ hlast => hlast
  rcases hcounted worker rfl with ⟨⟨response, next, id⟩, after, hstep, kept, hkept, rfl⟩ |
    ⟨reason, after, hstep, -⟩
  · refine .inl ⟨_, _, hstep, steps + 1, hthrough.step turn warning response hstep, ?_⟩
    show kept.steps.count.remaining = left
    rw [hkept]
    exact Steps.remaining_count hleft
  · exact .inr ⟨reason, after, hstep, steps, slot, worker, hthrough, .inr ⟨turn, warning, hstep⟩⟩

/-- A pass does nothing with its slot but what such a run does, and ends within the steps that
remain. -/
theorem pass_through {bound left : Nat} (hbound : left < bound) (turn : Option TurnId)
    (warn : Bool) :
    Holds (Remains env list start (left + 1) slot) (Worker.passFrom env bound slot turn warn)
      (fun result after => ∃ left, Remains env list start left result.2 after)
      (RunStopped env list start) := by
  have hclose (left : Nat) (slot : Slot) (target : AiTurnRef) (reason : ClosureReason) :
      Holds (Remains env list start left slot) (Worker.closeTurn env target reason)
        (fun _ after => ∃ left, Remains env list start left slot after)
        (RunStopped env list start) :=
    (quiet_holds fun seen => closeTurn_holds (Quiet.timeless seen) (leaves_quiet seen)
      (Quiet.close seen target reason)).imp (fun _ hremains => hremains)
      (fun _ _ hremains => ⟨left, hremains⟩) fun _ _ hstopped => hstopped
  have hloop : PassBy env (fun left slot _ => Remains env list start left slot)
      (fun left slot _ _ => Remains env list start left slot)
      (fun left slot _ => Remains env list start left slot)
      (fun result after => ∃ left, Remains env list start left result.2 after)
      (RunStopped env list start) := ?_
  · exact passFrom_by hloop hbound slot turn warn
  refine {
    step := fun left slot turn warning => step_remains turn warning
    remaining := fun left slot turn response worker hremains => ?_
    leaves := fun _ _ _ _ => leaves_runStopped
    final := fun left slot target response => ?_
    limit := fun slot target response => ?_
    again := fun _ _ _ _ _ hremains => hremains
    tools := fun left slot turn response => ?_
    toolsLeave := fun _ _ _ => leaves_runStopped
    drain := fun left slot turn => ?_
    goOn := fun _ _ _ _ hremains => hremains }
  · obtain ⟨steps, -, hleft⟩ := hremains
    exact hleft
  · exact (hclose left slot target .Completed).imp (fun _ hstate => hstate.1)
      (fun _ _ hlast => hlast) fun _ _ hlast => hlast
  · exact (hclose 0 slot target _).imp (fun _ hstate => hstate.1) (fun _ _ hlast => hlast)
      fun _ _ hlast => hlast
  · exact quiet_holds fun seen => toolRound_holds (Quiet.tools seen turn) (leaves_quiet seen) response
  · refine quiet_holds fun seen => (drain_holds (Quiet.drain seen) (leaves_quiet seen)).imp
      (fun _ hquiet => hquiet) (fun drained worker hdrained => ?_) fun _ _ hlast => hlast
    obtain ⟨kept, hquiet, ⟨-, -, rfl⟩ | ⟨-, rfl⟩⟩ := hdrained
    · have hemitted : Quiet seen { kept with log := kept.log ++ [.RequestStored] } :=
        hquiet.emit rfl
      exact ⟨hemitted.log, hemitted.responses, hemitted.steps⟩
    · exact hquiet

end Passes

section Example

private def clientNamed (name : Nat) : ModelClient := ⟨name, .NotExpected⟩

private def threeClients : FallbackList :=
  ⟨[clientNamed 0, clientNamed 1, clientNamed 2], by decide⟩

/-- The client `0` fails, the others answer without a call of a tool. -/
private def firstFails : Env := .calm fun _ client entry =>
  if client.client = 0 then some (.error "overloaded")
  else some (.ok ⟨⟨entry, [], .Finished⟩, false, false⟩)

private def newWorker : Worker Ledger where
  session := .start ⟨[]⟩
  host := ⟨⟨[]⟩, [], 0, 0, 0⟩
  hasInbox := false
  agent := 1
  agents := [1]
  author := some "author"
  shaped := false
  tools := ⟨[], List.nodup_nil⟩
  modelTimeout := 60000000000
  toolTimeout := 60000000000
  queue := []
  reading := false
  steps := .new ⟨4, by decide, by decide⟩
  counters := .zero
  moment := 0
  log := []

private theorem firstFails_entitles : firstFails.Entitles := by
  intro moment client entry reply hanswer
  change (if client.client = 0 then _ else _) = _ at hanswer
  split at hanswer
  · cases hanswer
  · cases hanswer
    rfl

private def firstStep := Worker.step firstFails (.new threeClients) none none newWorker

private def secondStep := Worker.step firstFails ⟨threeClients, some 1⟩ (some 0) none firstStep.2

private theorem firstFails_through :
    Through firstFails threeClients newWorker 2 ⟨threeClients, some 1⟩ secondStep.2 := by
  have hfirst : firstStep.1 = .done (⟨9, [], .Finished⟩, ⟨threeClients, some 1⟩, 0) := by
    decide +kernel
  have hsecond : secondStep.1 = .done (⟨16, [], .Finished⟩, ⟨threeClients, some 1⟩, 0) := by
    decide +kernel
  have hone : Worker.step firstFails (.new threeClients) none none newWorker =
      (.done (⟨9, [], .Finished⟩, ⟨threeClients, some 1⟩, 0), firstStep.2) := by
    rw [← hfirst, firstStep]
  have htwo : Worker.step firstFails ⟨threeClients, some 1⟩ (some 0) none firstStep.2 =
      (.done (⟨16, [], .Finished⟩, ⟨threeClients, some 1⟩, 0), secondStep.2) := by
    rw [← hsecond, secondStep]
  exact (Through.start.step none none _ hone).step (some 0) none _ htwo

end Example

end LlmGraph.Agentic
