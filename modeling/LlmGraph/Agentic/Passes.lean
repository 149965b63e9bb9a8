/- digest: The rule of a pass: what its steps, its rounds of tools and its boundaries keep holds of the
   whole pass, which ends within the steps that remain. -/

import LlmGraph.Agentic.Untouched

set_option autoImplicit false
set_option relaxedAutoImplicit false

namespace LlmGraph.Agentic

open Lib (Act)
open Lib.Act (Holds)

variable {C : Type} [Conversation C] {env : Env} {exit : Stop → Worker C → Prop}

/-- Whether the response is final in the turn as the worker holds it. -/
def Judged (env : Env) (turn : TurnId) (response : ModelResponse) (final : Bool)
    (worker : Worker C) : Prop :=
  ∃ ai, turnOf worker.session.conversation turn = some (.AITurn ai) ∧
    isFinal response (env.turnState ai) = final

/-- A loop of a pass: what holds before a step when so many steps remain, after it, and after a round
of tools. -/
structure PassBy (env : Env) (before : Nat → Slot → Option TurnId → Worker C → Prop)
    (after : Nat → Slot → TurnId → ModelResponse → Worker C → Prop)
    (tooled : Nat → Slot → TurnId → Worker C → Prop) (post : PassEnd × Slot → Worker C → Prop)
    (exit : Stop → Worker C → Prop) : Prop where
  step : ∀ left slot turn warning, Holds (before (left + 1) slot turn)
    (Worker.step env slot turn warning)
    (fun result => after left result.2.1 result.2.2 result.1) exit
  remaining : ∀ left slot turn response worker, after left slot turn response worker →
    worker.steps.remaining = left
  leaves : ∀ left slot turn response, Leaves (after left slot turn response) exit
  final : ∀ left slot target response,
    Holds (fun worker => after left slot target.id response worker ∧
      Judged env target.id response true worker)
      (Worker.closeTurn env target .Completed) (fun _ => post (.Final response, slot)) exit
  limit : ∀ slot target response,
    Holds (fun worker => after 0 slot target.id response worker ∧
      Judged env target.id response false worker)
      (Worker.closeTurn env target (.BudgetExhausted (some "the step limit was reached")))
      (fun _ => post (.StepLimit response, slot)) exit
  again : ∀ left slot turn response worker, after (left + 1) slot turn response worker →
    before (left + 1) slot (some turn) worker
  tools : ∀ left slot turn response, Holds (after (left + 1) slot turn response)
    (Worker.toolRound env turn response) (fun _ => tooled (left + 1) slot turn) exit
  toolsLeave : ∀ left slot turn, Leaves (tooled left slot turn) exit
  drain : ∀ left slot turn, Holds (tooled (left + 1) slot turn) (Worker.drain env)
    (fun _ => before (left + 1) slot (some turn)) exit
  goOn : ∀ left slot turn worker, tooled (left + 1) slot turn worker →
    before (left + 1) slot (some turn) worker

variable {before : Nat → Slot → Option TurnId → Worker C → Prop}
  {after : Nat → Slot → TurnId → ModelResponse → Worker C → Prop}
  {tooled : Nat → Slot → TurnId → Worker C → Prop} {post : PassEnd × Slot → Worker C → Prop}

/-- The steps that remain bound how often the loop goes round. -/
theorem passFrom_by (hloop : PassBy env before after tooled post exit) {bound left : Nat}
    (hbound : left < bound) (slot : Slot) (turn : Option TurnId) (warn : Bool) :
    Holds (before (left + 1) slot turn) (Worker.passFrom env bound slot turn warn) post exit := by
  induction bound generalizing left slot turn warn with
  | zero => omega
  | succ bound hind =>
      refine .read fun seen hseen => ?_
      refine Holds.imp ?_ (fun worker hsame => hsame ▸ hseen) (fun _ _ hlast => hlast)
        fun _ _ hlast => hlast
      refine .bind _ (hloop.step left slot turn _) fun result => ?_
      obtain ⟨response, slot, id⟩ := result
      have hleaves := hloop.leaves left slot id response
      refine .bind _ (turnRef_holds hleaves id) fun target => ?_
      refine .ghost fun made hmade => ?_
      obtain ⟨rfl, -, -, hafter⟩ := hmade
      refine Holds.imp ?_ (fun worker hsame => hsame ▸ hafter) (fun _ _ hlast => hlast)
        fun _ _ hlast => hlast
      refine .bind _ (turnState_holds hleaves target.id) fun state => ?_
      by_cases hfinal : isFinal response state = true
      · rw [if_pos hfinal]
        refine .bind _ ((hloop.final left slot target response).imp (fun worker hstate => ?_)
          (fun _ _ hlast => hlast) fun _ _ hlast => hlast) fun _ => .pure fun _ hpost => hpost
        obtain ⟨⟨ai, hturn, rfl⟩, hstill⟩ := hstate
        exact ⟨hstill, ai, hturn, hfinal⟩
      rw [if_neg hfinal]
      refine .read fun judged hjudged => ?_
      obtain ⟨⟨ai, hturn, rfl⟩, hstill⟩ := hjudged
      have hnotFinal : Judged env target.id response false judged :=
        ⟨ai, hturn, Bool.not_eq_true _ ▸ hfinal⟩
      refine .weaken (fun worker => after left slot target.id response worker ∧
        Judged env target.id response false worker) _ ?_ fun worker hsame => hsame ▸ ⟨hstill, hnotFinal⟩
      rw [hloop.remaining left slot target.id response judged hstill]
      cases left with
      | zero =>
          exact .bind _ (hloop.limit slot target response) fun _ => .pure fun _ hpost => hpost
      | succ left =>
          rw [if_neg (Nat.succ_ne_zero left)]
          have hnext (warn : Bool) := hind (Nat.lt_of_succ_lt_succ hbound) slot (some target.id) warn
          by_cases hcalls : response.runtimeCalls.isEmpty = true
          · rw [if_pos hcalls]
            exact (hnext false).imp
              (fun worker hstate => hloop.again left slot target.id response worker hstate.1)
              (fun _ _ hlast => hlast) fun _ _ hlast => hlast
          · rw [if_neg hcalls]
            refine .bind _ ((hloop.tools left slot target.id response).imp
              (fun _ hstate => hstate.1) (fun _ _ hlast => hlast) fun _ _ hlast => hlast) fun _ => ?_
            refine .bind _ (turnState_holds (hloop.toolsLeave (left + 1) slot target.id) target.id)
              fun state => ?_
            dsimp only
            split
            · refine .bind _ ((hloop.drain left slot target.id).imp (fun _ hstate => hstate.2)
                (fun _ _ hlast => hlast) fun _ _ hlast => hlast) fun _ => hnext true
            · exact (hnext true).imp (fun worker hstate => hloop.goOn left slot _ worker hstate.2)
                (fun _ _ hlast => hlast) fun _ _ hlast => hlast

section Apart

variable {inv : Worker C → Prop} {may : ModelClient → Prop}

/-- Nothing in a pass that calls such clients touches the invariant, whatever its turn. -/
structure PassApart (env : Env) (may : ModelClient → Prop) (inv : Worker C → Prop) : Prop where
  step : ∀ turn, StepApart env turn may inv
  tools : ∀ turn, ToolsApart env turn inv
  drain : DrainApart env inv
  close : ∀ target reason, CloseApart env target reason inv
  stepped : ∀ worker response, inv worker → inv (worker.stepped response)
  requested : ∀ worker, inv worker → inv worker.requested
  entered : ∀ worker remaining, inv worker →
    inv { worker with log := worker.log ++ [.PassEntered remaining] }

/-- At so many steps that remain: what only the steps change. -/
def AtSteps (inv : Worker C → Prop) (left : Nat) (worker : Worker C) : Prop :=
  inv worker ∧ worker.steps.remaining = left

omit [Conversation C] in
theorem AtSteps.timeless (htimeless : Timeless inv) (left : Nat) : Timeless (AtSteps inv left) :=
  fun worker moment hle hat => ⟨htimeless worker moment hle hat.1, hat.2⟩

theorem AtSteps.step {turn : TurnId} (hapart : StepApart env turn may inv) (left : Nat) :
    StepApart env turn may (AtSteps inv left) where
  timeless := timeless hapart.timeless left
  responses worker responses hat := ⟨hapart.responses worker responses hat.1, hat.2⟩
  called worker effects heffects hat := ⟨hapart.called worker effects heffects hat.1, hat.2⟩
  completed worker target response outcome session host htarget hat hcompleted :=
    ⟨hapart.completed worker target response outcome session host htarget hat.1 hcompleted, hat.2⟩

theorem AtSteps.tools {turn : TurnId} (hapart : ToolsApart env turn inv) (left : Nat) :
    ToolsApart env turn (AtSteps inv left) where
  timeless := timeless hapart.timeless left
  results worker results hat := ⟨hapart.results worker results hat.1, hat.2⟩
  started worker call hat := ⟨hapart.started worker call hat.1, hat.2⟩
  completed worker target results outcome session host htarget hat hcompleted :=
    ⟨hapart.completed worker target results outcome session host htarget hat.1 hcompleted, hat.2⟩

theorem AtSteps.drain (hapart : DrainApart env inv) (left : Nat) :
    DrainApart env (AtSteps inv left) where
  timeless := timeless hapart.timeless left
  queue worker queue reading hat := ⟨hapart.queue worker queue reading hat.1, hat.2⟩
  stored worker queue turn outcome session host left hat hstored :=
    ⟨hapart.stored worker queue turn outcome session host left hat.1 hstored, hat.2⟩

theorem AtSteps.close {target : AiTurnRef} {reason : ClosureReason}
    (hapart : CloseApart env target reason inv) (left : Nat) :
    CloseApart env target reason (AtSteps inv left) :=
  fun worker entry outcome session host hat hclosed =>
    ⟨hapart worker entry outcome session host hat.1 hclosed, hat.2⟩

theorem step_counts {slot : Slot} {turn : Option TurnId} {left : Nat}
    (hapart : ∀ turn, StepApart env turn may inv)
    (hmay : ∀ client ∈ slot.list.clients, may client)
    (hstepped : ∀ worker response, inv worker → inv (worker.stepped response))
    (hexit : ∀ reason worker, inv worker → exit reason worker) (warning : Option String) :
    Holds (AtSteps inv (left + 1)) (Worker.step env slot turn warning)
      (fun result worker => AtSteps inv left worker ∧ result.2.1.list = slot.list) exit := by
  have hstep (id : TurnId) := AtSteps.step (hapart id) (left + 1)
  refine (step_apart (AtSteps.timeless (hapart 0).timeless _) hstep hmay (fun _ _ _ hat => hat)
    (fun reason worker _ hat => hexit reason worker hat.1)
    (fun _ reason worker hat => hexit reason worker hat.1) warning).imp (fun _ hat => hat)
    (fun result worker hkept => ?_) fun _ _ hlast => hlast
  obtain ⟨hlist, kept, hat, rfl⟩ := hkept
  exact ⟨⟨hstepped kept _ hat.1, Steps.remaining_count hat.2⟩, hlist⟩

/-- A pass takes a step at least, and keeps what nothing in it touches. -/
theorem pass_apart (hapart : PassApart env may inv)
    (hexit : ∀ reason worker, inv worker → exit reason worker) (slot : Slot)
    (hmay : ∀ client ∈ slot.list.clients, may client) (left : Nat) :
    Holds (AtSteps inv (left + 1)) (Worker.pass env slot)
      (fun _ worker => inv worker ∧ worker.steps.remaining ≤ left) exit := by
  have hleaves (at_ : Nat) : Leaves (AtSteps inv at_) exit :=
    fun reason worker _ hat => hexit reason worker hat.1
  refine .read fun seen hseen => ?_
  rw [hseen.2]
  refine .bind (fun _ => AtSteps inv (left + 1)) ?_ fun _ => ?_
  · refine .modify fun worker hsame => ?_
    rw [hsame]
    exact ⟨hapart.entered seen _ hseen.1, hseen.2⟩
  have hclose (left' : Nat) (hle : left' ≤ left) (target : AiTurnRef) (reason : ClosureReason) :
      Holds (AtSteps inv left') (Worker.closeTurn env target reason)
        (fun _ worker => inv worker ∧ worker.steps.remaining ≤ left) exit :=
    (closeTurn_holds (AtSteps.timeless hapart.drain.timeless left') (hleaves left')
      (AtSteps.close (hapart.close target reason) left')).imp (fun _ hat => hat)
      (fun _ _ hat => ⟨hat.1, hat.2 ▸ hle⟩) fun _ _ hlast => hlast
  have hby : PassBy env
      (fun left' at_ _ worker => (AtSteps inv left' worker ∧ left' ≤ left + 1) ∧
        at_.list = slot.list)
      (fun left' at_ _ _ worker => (AtSteps inv left' worker ∧ left' ≤ left) ∧
        at_.list = slot.list)
      (fun left' at_ _ worker => (AtSteps inv left' worker ∧ left' ≤ left) ∧ at_.list = slot.list)
      (fun _ worker => inv worker ∧ worker.steps.remaining ≤ left) exit := {
    step := fun left' at_ turn warning => by
      refine .ghost fun worker hat => ?_
      have hclients : ∀ client ∈ at_.list.clients, may client := hat.2 ▸ hmay
      refine (step_counts hapart.step hclients hapart.stepped hexit warning).imp
        (fun _ hsame => hsame ▸ hat.1.1) (fun _ _ hafter => ⟨⟨hafter.1, ?_⟩, ?_⟩)
        fun _ _ hlast => hlast
      · exact Nat.le_of_succ_le_succ hat.1.2
      · exact hafter.2.trans hat.2
    remaining := fun _ _ _ _ _ hat => hat.1.1.2
    leaves := fun left' _ _ _ reason worker hfatal hat => hleaves left' reason worker hfatal hat.1.1
    final := fun left' slot target response => by
      refine .ghost fun worker hat => ?_
      exact (hclose left' hat.1.1.2 target _).imp (fun _ hsame => hsame ▸ hat.1.1.1)
        (fun _ _ hlast => hlast) fun _ _ hlast => hlast
    limit := fun slot target response =>
      (hclose 0 (Nat.zero_le left) target _).imp (fun _ hat => hat.1.1.1)
        (fun _ _ hlast => hlast) fun _ _ hlast => hlast
    again := fun _ _ _ _ _ hat => ⟨⟨hat.1.1, Nat.le_succ_of_le hat.1.2⟩, hat.2⟩
    tools := fun left' slot turn response => by
      refine .ghost fun worker hat => ?_
      exact (toolRound_holds (AtSteps.tools (hapart.tools turn) (left' + 1)) (hleaves _)
        response).imp (fun _ hsame => hsame ▸ hat.1.1)
        (fun _ _ hafter => ⟨⟨hafter, hat.1.2⟩, hat.2⟩) fun _ _ hlast => hlast
    toolsLeave := fun left' _ _ reason worker hfatal hat =>
      hleaves left' reason worker hfatal hat.1.1
    drain := fun left' slot turn => by
      refine .ghost fun worker hat => ?_
      refine (drain_holds (AtSteps.drain hapart.drain (left' + 1)) (hleaves _)).imp
        (fun _ hsame => hsame ▸ hat.1.1) (fun drained last hdrained => ?_) fun _ _ hlast => hlast
      obtain ⟨kept, hkept, ⟨-, -, rfl⟩ | ⟨-, rfl⟩⟩ := hdrained
      · exact ⟨⟨⟨hapart.requested kept hkept.1, hkept.2⟩, Nat.le_succ_of_le hat.1.2⟩, hat.2⟩
      · exact ⟨⟨hkept, Nat.le_succ_of_le hat.1.2⟩, hat.2⟩
    goOn := fun _ _ _ _ hat => ⟨⟨hat.1.1, Nat.le_succ_of_le hat.1.2⟩, hat.2⟩ }
  exact (passFrom_by hby (Nat.lt_succ_of_lt (Nat.lt_succ_self left)) slot none false).imp
    (fun _ hat => ⟨⟨hat, Nat.le_refl _⟩, rfl⟩) (fun _ _ hlast => hlast) fun _ _ hlast => hlast

end Apart

section Grown

/-- The log of a worker has grown from what it was. -/
def Grown (seen worker : Worker C) : Prop := seen.log <+: worker.log

omit [Conversation C] in
private theorem Grown.emit {seen worker : Worker C} (hgrown : Grown seen worker)
    (effects : List Effect) : Grown seen { worker with log := worker.log ++ effects } :=
  hgrown.trans (List.prefix_append _ _)

private theorem grown_apart (seen : Worker C) : PassApart env (fun _ => True) (Grown seen) where
  step _ :=
    { timeless := fun _ _ _ hgrown => hgrown
      responses := fun _ _ hgrown => hgrown
      called := fun _ effects _ hgrown => hgrown.emit effects
      completed := fun _ _ _ _ _ _ _ hgrown _ => hgrown }
  tools _ :=
    { timeless := fun _ _ _ hgrown => hgrown
      results := fun _ _ hgrown => hgrown
      started := fun _ _ hgrown => hgrown.emit _
      completed := fun _ _ _ _ _ _ _ hgrown _ => hgrown }
  drain :=
    { timeless := fun _ _ _ hgrown => hgrown
      queue := fun _ _ _ hgrown => hgrown
      stored := fun _ _ _ _ _ _ _ hgrown _ => hgrown }
  close _ _ _ _ _ _ _ hgrown _ := hgrown
  stepped _ _ hgrown := hgrown.emit _
  requested _ hgrown := hgrown.emit _
  entered _ _ hgrown := hgrown.emit _

/-- The last that the world sees of a step is its response. -/
def SteppedLast (seen : Worker C) (response : ModelResponse) (worker : Worker C) : Prop :=
  ∃ more, worker.log = seen.log ++ more ++ [.Stepped response]

/-- A pass ends with the step of its response: closing the turn shows the world nothing. -/
theorem pass_stepped (seen : Worker C) (slot : Slot) {left : Nat}
    (hleft : seen.steps.remaining = left + 1) :
    Holds (fun worker => worker = seen) (Worker.pass env slot)
      (fun result => SteppedLast seen result.1.intoResponse) fun _ _ => True := by
  have hapart : PassApart env (fun _ => True) (Grown seen) := grown_apart seen
  refine .read fun before hbefore => ?_
  subst hbefore
  rw [hleft]
  refine .bind (fun _ => AtSteps (Grown before) (left + 1)) ?_ fun _ => ?_
  · refine .modify fun worker hsame => ?_
    rw [hsame]
    exact ⟨List.prefix_append _ _, hleft⟩
  have hclose (at_ : Nat) (response : ModelResponse) (target : AiTurnRef) (reason : ClosureReason) :
      Holds (AtSteps (SteppedLast before response) at_) (Worker.closeTurn env target reason)
        (fun _ => SteppedLast before response) fun _ _ => True :=
    (closeTurn_holds (fun _ _ _ hat => hat) (fun _ _ _ _ => trivial)
      fun _ _ _ _ _ hat _ => hat).imp (fun _ hat => hat) (fun _ _ hat => hat.1)
      fun _ _ hlast => hlast
  have hgrown (response : ModelResponse) (worker : Worker C)
      (hlast : SteppedLast before response worker) : Grown before worker := by
    obtain ⟨more, hmore⟩ := hlast
    exact ⟨more ++ [.Stepped response], by rw [hmore, List.append_assoc]⟩
  have hby : PassBy env (fun left _ _ => AtSteps (Grown before) left)
      (fun left _ _ response => AtSteps (SteppedLast before response) left)
      (fun left _ _ => AtSteps (Grown before) left)
      (fun result => SteppedLast before result.1.intoResponse) fun _ _ => True := {
    step := fun left slot turn warning => by
      refine (step_apart (AtSteps.timeless hapart.drain.timeless _)
        (fun id => AtSteps.step (hapart.step id) (left + 1)) (fun _ _ => trivial)
        (fun _ _ _ hat => hat) (fun _ _ _ _ => trivial) (fun _ _ _ _ => trivial) warning).imp
        (fun _ hat => hat) (fun result worker hkept => ?_) fun _ _ hlast => hlast
      obtain ⟨-, kept, ⟨⟨more, hmore⟩, hat⟩, rfl⟩ := hkept
      refine ⟨⟨more, ?_⟩, Steps.remaining_count hat⟩
      show kept.log ++ [.Stepped result.1] = _
      rw [← hmore]
    remaining := fun _ _ _ _ _ hat => hat.2
    leaves := fun _ _ _ _ _ _ _ _ => trivial
    final := fun left slot target response => (hclose left response target _).imp
      (fun _ hat => hat.1) (fun _ _ hlast => hlast) fun _ _ hlast => hlast
    limit := fun slot target response => (hclose 0 response target _).imp
      (fun _ hat => hat.1) (fun _ _ hlast => hlast) fun _ _ hlast => hlast
    again := fun _ _ _ response worker hat => ⟨hgrown response worker hat.1, hat.2⟩
    tools := fun left slot turn response =>
      (toolRound_holds (AtSteps.tools (hapart.tools turn) (left + 1)) (fun _ _ _ _ => trivial)
        response).imp (fun worker hat => ⟨hgrown response worker hat.1, hat.2⟩)
        (fun _ _ hat => hat) fun _ _ hlast => hlast
    toolsLeave := fun _ _ _ _ _ _ _ => trivial
    drain := fun left slot turn => by
      refine (drain_holds (AtSteps.drain hapart.drain (left + 1)) (fun _ _ _ _ => trivial)).imp
        (fun _ hat => hat) (fun drained worker hdrained => ?_) fun _ _ hlast => hlast
      obtain ⟨kept, hat, ⟨-, -, rfl⟩ | ⟨-, rfl⟩⟩ := hdrained
      · exact ⟨hapart.requested kept hat.1, hat.2⟩
      · exact hat
    goOn := fun _ _ _ _ hat => hat }
  exact passFrom_by hby (Nat.lt_succ_of_lt (Nat.lt_succ_self left)) slot none false

end Grown

end LlmGraph.Agentic
