/- digest: Every history of the operations on one instance: the inputs the node receives, when the
   input is shut, and what recv reports. -/

import LlmGraph.Contract.Instance

set_option autoImplicit false
set_option relaxedAutoImplicit false

namespace LlmGraph.Contract.Core

variable {F : Type} [Fields F]

/-- An operation of one of the four handles; each is one locked section. -/
inductive Action (F : Type) [Fields F] where
  | Give (input : Input F)
  | CloseInput
  | Next (waker : Waker)
  | ForgetReaderWaker
  | Drain
  | Finish (event : Event F)
  | SenderGone
  | InputEndDropped
  | EventEndDropped
  | Recv (waker : Waker)
  | ForgetEventWaker
  | PollDropped (key : Option Nat) (waker : Waker)
  | RemoveDroppedWaiter (key : Nat)

inductive Outcome (F : Type) [Fields F] where
  | Done
  | Given (accepted : Bool)
  | Next (poll : Poll (Option (Input F)))
  | Drained (inputs : List (Input F))
  | Received (poll : Poll (Except EventEndError (Event F)))
  | Dropped (ready : Bool)

namespace Action

/-- The operations that end the instance, on one side or the other. -/
def Ends : Action F → Prop
  | Finish _ | SenderGone | InputEndDropped | EventEndDropped => True
  | _ => False

/-- The operations after which no input is taken. -/
def Closes : Action F → Prop
  | CloseInput => True
  | action => action.Ends

end Action

/-- An operation: the core it leaves, what it reports and the wakers it wakes. -/
def act (core : Core F) : Action F → Core F × Outcome F × List Waker
  | .Give input =>
      match core.give input with
      | some (next, woken) => (next, .Given true, woken)
      | none => (core, .Given false, [])
  | .CloseInput => (core.closeInput.1, .Done, core.closeInput.2)
  | .Next waker => ((core.pollNext waker).1, .Next (core.pollNext waker).2, [])
  | .ForgetReaderWaker => (core.forgetReaderWaker, .Done, [])
  | .Drain => (core.drain.1, .Drained core.drain.2, [])
  | .Finish event => ((core.finish event).1, .Done, (core.finish event).2)
  | .SenderGone => (core.senderGone.1, .Done, core.senderGone.2)
  | .InputEndDropped => (core.inputEndDropped.1, .Done, core.inputEndDropped.2)
  | .EventEndDropped => (core.eventEndDropped.1, .Done, core.eventEndDropped.2)
  | .Recv waker => ((core.pollRecv waker).1, .Received (core.pollRecv waker).2, [])
  | .ForgetEventWaker => (core.forgetEventWaker, .Done, [])
  | .PollDropped key waker =>
      ((core.pollDropped key waker).1, .Dropped (core.pollDropped key waker).2.2, [])
  | .RemoveDroppedWaiter key => (core.removeDroppedWaiter key, .Done, [])

/-- The core after a history of operations, in any order. -/
def run (core : Core F) (history : List (Action F)) : Core F :=
  history.foldl (fun core action => (core.act action).1) core

/-- What an operation reports after a history. -/
def outcome (core : Core F) (history : List (Action F)) (action : Action F) : Outcome F :=
  ((core.run history).act action).2.1

/-- The inputs that a history accepts, in order. -/
def accepted (core : Core F) : List (Action F) → List (Input F)
  | [] => []
  | action :: later =>
      (match action, (core.act action).2.1 with
        | .Give input, .Given true => [input]
        | _, _ => []) ++ (core.act action).1.accepted later

/-- The inputs that the node receives, one by one or drained, in order. -/
def received (core : Core F) : List (Action F) → List (Input F)
  | [] => []
  | action :: later =>
      (match (core.act action).2.1 with
        | .Next (.Ready (some input)) => [input]
        | .Drained inputs => inputs
        | _ => []) ++ (core.act action).1.received later

/-- The terminal events that the executor receives. -/
def delivered (core : Core F) : List (Action F) → List (Event F)
  | [] => []
  | action :: later =>
      (match (core.act action).2.1 with
        | .Received (.Ready (.ok event)) => [event]
        | _ => []) ++ (core.act action).1.delivered later

section Steps

variable {core : Core F} {action : Action F}

/-- What each operation does to the node's side. -/
theorem act_node : (core.act action).1.node =
    match action, core.node with
    | .CloseInput, .Working .Open => .Working .Closed
    | .Finish event, .Working _ => .Sent event
    | .SenderGone, .Working _ => .Vanished
    | .InputEndDropped, .Working _ => .Ended
    | .EventEndDropped, .Working _ => .Ended
    | .EventEndDropped, .Sent _ => .Ended
    | .Recv _, .Sent _ => .Ended
    | _, node => node := by
  rcases core with ⟨id, queue, node, executor, reader, event, waiters⟩
  cases action with
  | Give input =>
      rcases node with (_ | _) | _ | _ | _ <;> simp [act, give, acceptsInput]
  | Next waker =>
      rcases queue with _ | ⟨first, rest⟩
      · rcases node with (_ | _) | _ | _ | _ <;> simp [act, pollNext, acceptsInput]
      · rcases node with (_ | _) | _ | _ | _ <;> simp [act, pollNext]
  | PollDropped key waker =>
      rcases executor with _ | _
      · rcases node with (_ | _) | _ | _ | _ <;> simp [act, pollDropped, isDropped]
      · rcases node with (_ | _) | _ | _ | _ <;> simp [act, pollDropped, isDropped]
  | CloseInput | ForgetReaderWaker | Drain | Finish | SenderGone | InputEndDropped
  | EventEndDropped | Recv | ForgetEventWaker | RemoveDroppedWaiter =>
      rcases node with (_ | _) | _ | _ | _ <;> rfl

/-- An operation on a core that takes no input receives what is queued, at most. -/
private theorem act_shut (hshut : core.acceptsInput = false) (hidle : core.queue = []) :
    (core.act action).1.acceptsInput = false ∧ (core.act action).1.queue = [] ∧
      (∀ input, (core.act action).2.1 ≠ .Next (.Ready (some input))) ∧
      ∀ inputs, (core.act action).2.1 = .Drained inputs → inputs = [] := by
  rcases core with ⟨id, queue, node, executor, reader, event, waiters⟩
  cases hidle
  cases action with
  | PollDropped key waker =>
      rcases executor with _ | _
      · exact ⟨hshut, rfl, by simp [act], by simp [act]⟩
      · exact ⟨hshut, rfl, by simp [act], by simp [act]⟩
  | Give | CloseInput | Next | ForgetReaderWaker | Drain | Finish | SenderGone | InputEndDropped
  | EventEndDropped | Recv | ForgetEventWaker | RemoveDroppedWaiter =>
      rcases node with (_ | _) | _ | _ | _ <;>
        simp_all [act, give, closeInput, pollNext, forgetReaderWaker, drain, finish, senderGone,
          inputEndDropped, eventEndDropped, detach, retire, pollRecv, forgetEventWaker,
          removeDroppedWaiter, acceptsInput, isWorking]

/-- Nothing more is received from a core that is shut and idle. -/
private theorem received_shut (hshut : core.acceptsInput = false) (hidle : core.queue = [])
    (history : List (Action F)) : core.received history = [] := by
  induction history generalizing core with
  | nil => rfl
  | cons action later hstep =>
      obtain ⟨hshutAfter, hidleAfter, hnothing, hdrained⟩ := @act_shut _ _ core action hshut hidle
      unfold received
      rw [hstep hshutAfter hidleAfter, List.append_nil]
      split
      · rename_i input hreported
        exact absurd hreported (hnothing input)
      · rename_i inputs hreported
        exact hdrained inputs hreported
      · rfl

/-- What an operation receives comes off the queue, what it accepts goes behind it; an operation
that drops the queue leaves the core shut and idle. -/
private theorem act_queue :
    (core.act action).1.acceptsInput = false ∧ (core.act action).1.queue = [] ∧
        (core.received [action]) = [] ∨
      core.received [action] ++ (core.act action).1.queue =
        core.queue ++ core.accepted [action] := by
  rcases core with ⟨id, queue, node, executor, reader, event, waiters⟩
  cases action with
  | Finish | SenderGone | InputEndDropped | EventEndDropped =>
      refine Or.inl ?_
      rcases node with (_ | _) | _ | _ | _ <;> exact ⟨rfl, rfl, rfl⟩
  | Give input =>
      refine Or.inr ?_
      rcases node with (_ | _) | _ | _ | _ <;> simp [received, accepted, act, give, acceptsInput]
  | CloseInput =>
      refine Or.inr ?_
      rcases node with (_ | _) | _ | _ | _ <;> simp [received, accepted, act, closeInput]
  | Next waker =>
      refine Or.inr ?_
      rcases queue with _ | ⟨first, rest⟩
      · rcases node with (_ | _) | _ | _ | _ <;>
          simp [received, accepted, act, pollNext, acceptsInput]
      · simp [received, accepted, act, pollNext]
  | Drain => exact Or.inr (by simp [received, accepted, act, drain])
  | PollDropped key waker =>
      refine Or.inr ?_
      rcases executor with _ | _ <;> simp [received, accepted, act, pollDropped, isDropped]
  | Recv waker =>
      refine Or.inr ?_
      rcases node with _ | _ | _ | _ <;> simp [received, accepted, act, pollRecv]
  | ForgetReaderWaker | ForgetEventWaker | RemoveDroppedWaiter =>
      exact Or.inr (by simp [received, accepted, act, forgetReaderWaker, forgetEventWaker,
        removeDroppedWaiter])

private theorem received_cons (later : List (Action F)) : core.received (action :: later) =
    core.received [action] ++ (core.act action).1.received later := by
  simp [received]

private theorem accepted_cons (later : List (Action F)) : core.accepted (action :: later) =
    core.accepted [action] ++ (core.act action).1.accepted later := by
  simp [accepted]

/-- What the node receives is a prefix of what was queued and what is accepted since. -/
private theorem received_queued (history : List (Action F)) :
    core.received history <+: core.queue ++ core.accepted history := by
  induction history generalizing core with
  | nil => exact List.nil_prefix
  | cons action later hstep =>
      rw [received_cons, accepted_cons]
      rcases @act_queue _ _ core action with ⟨hshut, hidle, hnothing⟩ | hmoved
      · rw [hnothing, received_shut hshut hidle]
        exact List.nil_prefix
      · rw [← List.append_assoc, ← hmoved, List.append_assoc]
        exact (List.prefix_append_right_inj _).mpr hstep

/-- `recv` reports what the node's side stands at. -/
private theorem recv_reports (waker : Waker) : (core.act (.Recv waker)).2.1 =
    .Received (match core.node with
      | .Sent event => .Ready (.ok event)
      | .Ended => .Ready (.error .Finished)
      | .Vanished => .Ready (.error .Vanished)
      | .Working _ => .Pending) := by
  rcases core with ⟨id, queue, node, executor, reader, event, waiters⟩
  rcases node with _ | _ | _ | _ <;> rfl

private theorem delivers {event : Event F}
    (hreported : (core.act action).2.1 = .Received (.Ready (.ok event))) :
    core.node = .Sent event ∧ (core.act action).1.node = .Ended := by
  have hnode := @act_node _ _ core action
  cases action with
  | Recv waker =>
      rw [recv_reports] at hreported
      split at hreported
      · rename_i sent hhere
        cases hreported
        rw [hhere] at hnode
        exact ⟨hhere, hnode⟩
      · cases hreported
      · cases hreported
      · cases hreported
  | Give input =>
      rcases hgiven : core.give input with _ | ⟨next, woken⟩
      · simp [act, hgiven] at hreported
      · simp [act, hgiven] at hreported
  | _ => cases hreported

/-- What comes to the executor from a node's side. -/
private theorem delivered_le (history : List (Action F)) :
    (core.delivered history).length ≤ 1 ∧
      (core.node = .Ended ∨ core.node = .Vanished → core.delivered history = []) := by
  induction history generalizing core with
  | nil => exact ⟨Nat.zero_le _, fun _ => rfl⟩
  | cons action later hstep =>
      obtain ⟨hmost, hnothing⟩ := @hstep (core.act action).1
      have hnode := @act_node _ _ core action
      unfold delivered
      split
      · rename_i event hreported
        obtain ⟨hsent, hended⟩ := delivers hreported
        rw [hnothing (Or.inl hended)]
        refine ⟨Nat.le_refl _, fun hover => ?_⟩
        rw [hsent] at hover
        rcases hover with himpossible | himpossible
        · cases himpossible
        · cases himpossible
      · rw [List.nil_append]
        refine ⟨hmost, fun hover => hnothing ?_⟩
        rw [hnode]
        rcases hover with hended | hvanished
        · rw [hended]
          cases action <;> exact Or.inl rfl
        · rw [hvanished]
          cases action <;> exact Or.inr rfl

/-- A core that takes no input never takes one again. -/
private theorem act_closed (hshut : core.node ≠ .Working .Open) :
    (core.act action).1.node ≠ .Working .Open := by
  rw [act_node]
  split <;> simp_all

end Steps

section Histories

variable {core : Core F} {before after history : List (Action F)} {action : Action F}

private theorem run_append : core.run (before ++ after) = (core.run before).run after :=
  List.foldl_append

private theorem run_cons : core.run (action :: after) = (core.act action).1.run after := rfl

private theorem run_closed (hshut : core.node ≠ .Working .Open) :
    (core.run history).node ≠ .Working .Open := by
  induction history generalizing core with
  | nil => exact hshut
  | cons action later hstep => exact hstep (act_closed hshut)

/-- The node works as long as nothing ends the instance. -/
private theorem run_working (hworking : ∃ gate, core.node = .Working gate)
    (hquiet : ∀ action ∈ history, ¬ action.Ends) : ∃ gate,
    (core.run history).node = .Working gate := by
  induction history generalizing core with
  | nil => exact hworking
  | cons action later hstep =>
      refine hstep ?_ fun other hmember => hquiet other (List.mem_cons_of_mem _ hmember)
      obtain ⟨gate, hhere⟩ := hworking
      have hcalm := hquiet action List.mem_cons_self
      rw [act_node, hhere]
      cases action with
      | CloseInput =>
          cases gate with
          | Open => exact ⟨.Closed, rfl⟩
          | Closed => exact ⟨.Closed, rfl⟩
      | Finish | SenderGone | InputEndDropped | EventEndDropped => exact absurd trivial hcalm
      | Give | Next | ForgetReaderWaker | Drain | Recv | ForgetEventWaker | PollDropped
      | RemoveDroppedWaiter => exact ⟨gate, rfl⟩

private theorem run_ended (hended : core.node = .Ended) : (core.run history).node = .Ended := by
  induction history generalizing core with
  | nil => exact hended
  | cons action later hstep =>
      refine hstep ?_
      rw [act_node, hended]
      cases action <;> rfl

private theorem run_vanished (hvanished : core.node = .Vanished) :
    (core.run history).node = .Vanished := by
  induction history generalizing core with
  | nil => exact hvanished
  | cons action later hstep =>
      refine hstep ?_
      rw [act_node, hvanished]
      cases action <;> rfl

/-- The operations that take the event away. -/
def Action.Takes : Action F → Prop
  | Recv _ | EventEndDropped => True
  | _ => False

/-- The event stays until it is received or the event end is dropped. -/
private theorem run_sent {event : Event F} (hsent : core.node = .Sent event) :
    (core.run history).node = .Sent event ∧ (∀ action ∈ history, ¬ action.Takes) ∨
      (core.run history).node = .Ended ∧ ∃ action ∈ history, action.Takes := by
  induction history generalizing core with
  | nil => exact Or.inl ⟨hsent, by simp⟩
  | cons action later hstep =>
      have hnode := @act_node _ _ core action
      rw [hsent] at hnode
      have htaken : action.Takes → (core.act action).1.node = .Ended := by
        intro htakes
        cases action with
        | Recv | EventEndDropped => exact hnode
        | _ => cases htakes
      have hkept : ¬ action.Takes → (core.act action).1.node = .Sent event := by
        intro hkeeps
        cases action with
        | Recv | EventEndDropped => exact absurd trivial hkeeps
        | _ => exact hnode
      by_cases htakes : action.Takes
      · have hended : ((core.act action).1.run later).node = .Ended := run_ended (htaken htakes)
        exact Or.inr ⟨hended, action, List.mem_cons_self, htakes⟩
      · rcases hstep (hkept htakes) with ⟨hstill, hnone⟩ | ⟨hended, other, hmember, htakes⟩
        · refine Or.inl ⟨hstill, fun other hmember => ?_⟩
          rcases List.mem_cons.mp hmember with rfl | hlater
          · exact htakes
          · exact hnone other hlater
        · exact Or.inr ⟨hended, other, List.mem_cons_of_mem _ hmember, htakes⟩

/-- A history ends nothing, or has a first operation that ends the instance. -/
private theorem first_end (history : List (Action F)) : (∀ action ∈ history, ¬ action.Ends) ∨
    ∃ before action after, history = before ++ action :: after ∧ action.Ends ∧
      ∀ other ∈ before, ¬ other.Ends := by
  induction history with
  | nil => exact Or.inl (by simp)
  | cons action later hstep =>
      by_cases hends : action.Ends
      · exact Or.inr ⟨[], action, later, rfl, hends, by simp⟩
      · rcases hstep with hquiet | ⟨before, other, after, hsame, hends', hquiet⟩
        · refine Or.inl fun other hmember => ?_
          rcases List.mem_cons.mp hmember with rfl | hlater
          · exact hends
          · exact hquiet other hlater
        · refine Or.inr ⟨action :: before, other, after, by rw [hsame]; rfl, hends', ?_⟩
          intro first hmember
          rcases List.mem_cons.mp hmember with rfl | hlater
          · exact hends
          · exact hquiet first hlater

/-- After the first operation that ends the instance, the node's side stands where it put it. -/
private theorem run_first_end (hworking : ∃ gate, core.node = .Working gate)
    (hquiet : ∀ other ∈ before, ¬ other.Ends) :
    (∀ event, action = .Finish event →
      ((core.run (before ++ action :: after)).node = .Sent event ∧
          (∀ other ∈ after, ¬ other.Takes) ∨
        (core.run (before ++ action :: after)).node = .Ended ∧ ∃ other ∈ after, other.Takes)) ∧
    (action = .SenderGone → (core.run (before ++ action :: after)).node = .Vanished) ∧
    (action = .InputEndDropped ∨ action = .EventEndDropped →
      (core.run (before ++ action :: after)).node = .Ended) := by
  obtain ⟨gate, hhere⟩ := run_working hworking hquiet
  rw [run_append, run_cons]
  have hnode := @act_node _ _ (core.run before) action
  rw [hhere] at hnode
  refine ⟨?_, ?_, ?_⟩
  · rintro event rfl
    exact run_sent hnode
  · rintro rfl
    exact run_vanished hnode
  · rintro (rfl | rfl)
    · exact run_ended hnode
    · exact run_ended hnode

/-- The instance works, or was ended first by the node's event, by the loss of its sender, or by
the drop of an end. -/
private theorem run_stands (hworking : ∃ gate, core.node = .Working gate)
    (history : List (Action F)) :
    (∀ action ∈ history, ¬ action.Ends) ∧ (∃ gate, (core.run history).node = .Working gate) ∨
    (∃ before event after, history = before ++ .Finish event :: after ∧
      (∀ other ∈ before, ¬ other.Ends) ∧ (∀ other ∈ after, ¬ other.Takes) ∧
        (core.run history).node = .Sent event) ∨
    (∃ before after, history = before ++ .SenderGone :: after ∧
      (∀ other ∈ before, ¬ other.Ends) ∧ (core.run history).node = .Vanished) ∨
    (∃ action ∈ history, action.Ends) ∧ (core.run history).node = .Ended := by
  rcases first_end history with hquiet | ⟨before, action, after, rfl, hends, hquiet⟩
  · exact Or.inl ⟨hquiet, run_working hworking hquiet⟩
  · obtain ⟨hfinished, hvanished, hdropped⟩ :=
      @run_first_end _ _ _ before after action hworking hquiet
    have hmember : action ∈ before ++ action :: after :=
      List.mem_append_right _ List.mem_cons_self
    cases action with
    | Finish event =>
        rcases hfinished event rfl with ⟨hsent, hkept⟩ | ⟨hended, -⟩
        · exact Or.inr (Or.inl ⟨before, event, after, rfl, hquiet, hkept, hsent⟩)
        · exact Or.inr (Or.inr (Or.inr ⟨⟨_, hmember, trivial⟩, hended⟩))
    | SenderGone => exact Or.inr (Or.inr (Or.inl ⟨before, after, rfl, hquiet, hvanished rfl⟩))
    | InputEndDropped =>
        exact Or.inr (Or.inr (Or.inr ⟨⟨_, hmember, trivial⟩, hdropped (Or.inl rfl)⟩))
    | EventEndDropped =>
        exact Or.inr (Or.inr (Or.inr ⟨⟨_, hmember, trivial⟩, hdropped (Or.inr rfl)⟩))
    | _ => cases hends

private theorem recv_after (waker : Waker) : core.outcome history (.Recv waker) =
    .Received (match (core.run history).node with
      | .Sent event => .Ready (.ok event)
      | .Ended => .Ready (.error .Finished)
      | .Vanished => .Ready (.error .Vanished)
      | .Working _ => .Pending) := recv_reports waker

/-- Nothing but another `recv`, its end or the end of the instance takes the waker of `recv`. -/
private theorem act_eventWaker (hcalm : ¬ action.Ends)
    (hwaiting : action ≠ .ForgetEventWaker ∧ ∀ waker, action ≠ .Recv waker) :
    (core.act action).1.eventWaker = core.eventWaker := by
  rcases core with ⟨id, queue, node, executor, reader, event, waiters⟩
  cases action with
  | Finish | SenderGone | InputEndDropped | EventEndDropped => exact absurd trivial hcalm
  | ForgetEventWaker => exact absurd rfl hwaiting.1
  | Recv waker => exact absurd rfl (hwaiting.2 waker)
  | ForgetReaderWaker | Drain | RemoveDroppedWaiter => rfl
  | Give input => rcases node with (_ | _) | _ | _ | _ <;> rfl
  | CloseInput => rcases node with (_ | _) | _ | _ | _ <;> rfl
  | Next waker =>
      rcases queue with _ | ⟨first, rest⟩
      · rcases node with (_ | _) | _ | _ | _ <;> rfl
      · rfl
  | PollDropped key waker => rcases executor with _ | _ <;> rfl

/-- The waker of `recv` is found by whatever ends the instance. -/
private theorem recv_woken {waker : Waker} (hregistered : core.eventWaker = some waker)
    (hquiet : ∀ action ∈ history, ¬ action.Ends)
    (hwaiting : ∀ action ∈ history, action ≠ .ForgetEventWaker ∧ ∀ other, action ≠ .Recv other)
    (hends : action.Ends) : waker ∈ ((core.run history).act action).2.2 := by
  induction history generalizing core with
  | nil =>
      have hheld : waker ∈ core.readerWaker.toList ++ core.eventWaker.toList := by
        rw [hregistered]
        exact List.mem_append_right _ List.mem_cons_self
      cases action with
      | Finish event =>
          have hwoken : ((core.run []).act (.Finish event)).2.2 =
              core.readerWaker.toList ++ core.eventWaker.toList := by
            change (core.finish event).2 = _
            unfold finish retire
            split
            · rfl
            · rfl
          rw [hwoken]
          exact hheld
      | SenderGone =>
          have hwoken : ((core.run []).act .SenderGone).2.2 =
              core.readerWaker.toList ++ core.eventWaker.toList := by
            change core.senderGone.2 = _
            unfold senderGone retire
            split
            · rfl
            · rfl
          rw [hwoken]
          exact hheld
      | InputEndDropped => exact List.mem_append_left _ hheld
      | EventEndDropped => exact List.mem_append_left _ hheld
      | _ => cases hends
  | cons first later hstep =>
      refine hstep ?_ (fun other hmember => hquiet other (List.mem_cons_of_mem _ hmember))
        fun other hmember => hwaiting other (List.mem_cons_of_mem _ hmember)
      rw [act_eventWaker (hquiet first List.mem_cons_self) (hwaiting first List.mem_cons_self)]
      exact hregistered

end Histories

/-- For every history of operations on an instance: the node receives a prefix of the accepted
inputs; nothing is accepted once the input is closed or the instance ended; at most one event is
delivered; `recv` delivers the event that ended the instance, once and unless the event end went;
it reports that the sender vanished exactly when that ended the instance; it stays pending exactly
while nothing has, and whatever does wakes it; and otherwise it reports that the instance is
finished. -/
theorem channel_delivers (id : InstanceId) (history : List (Action F)) :
    (new id).received history <+: (new id).accepted history ∧
    (∀ before action after, history = before ++ action :: after → action.Closes →
      ∀ input, (new id : Core F).outcome history (.Give input) = .Given false) ∧
    ((new id).delivered history).length ≤ 1 ∧
    (∀ waker event, (new id).outcome history (.Recv waker) = .Received (.Ready (.ok event)) ↔
      ∃ before after, history = before ++ .Finish event :: after ∧
        (∀ action ∈ before, ¬ action.Ends) ∧ .EventEndDropped ∉ after ∧
          ∀ first other rest, after = first ++ .Recv other :: rest →
            (new id).outcome (before ++ .Finish event :: first) (.Recv other) =
              .Received .Pending) ∧
    (∀ waker, (new id : Core F).outcome history (.Recv waker) =
        .Received (.Ready (.error .Vanished)) ↔
      ∃ before after, history = before ++ .SenderGone :: after ∧
        ∀ action ∈ before, ¬ action.Ends) ∧
    (∀ waker, (new id : Core F).outcome history (.Recv waker) = .Received .Pending ↔
      ∀ action ∈ history, ¬ action.Ends) ∧
    (∀ waker, (new id : Core F).outcome history (.Recv waker) ≠ .Received .Pending →
      (∀ event, (new id).outcome history (.Recv waker) ≠ .Received (.Ready (.ok event))) →
      (new id : Core F).outcome history (.Recv waker) ≠ .Received (.Ready (.error .Vanished)) →
      (new id : Core F).outcome history (.Recv waker) = .Received (.Ready (.error .Finished))) ∧
    (∀ before waker after action, history = before ++ .Recv waker :: after →
      (∀ other ∈ history, ¬ other.Ends) →
      (∀ other ∈ after, other ≠ .ForgetEventWaker ∧ ∀ waker, other ≠ .Recv waker) →
      action.Ends → waker ∈ (((new id : Core F).run history).act action).2.2) := by
  have hworking : ∃ gate, (new id : Core F).node = .Working gate := ⟨.Open, rfl⟩
  have hstands := run_stands hworking history
  refine ⟨received_queued history, ?_, (delivered_le history).1, fun waker event => ⟨?_, ?_⟩,
    fun waker => ⟨?_, ?_⟩, fun waker => ⟨?_, ?_⟩, fun waker => ?_, ?_⟩
  · rintro before action after rfl hcloses input
    have hshut : ((new id : Core F).run (before ++ action :: after)).node ≠ .Working .Open := by
      rw [run_append, run_cons]
      refine run_closed ?_
      rw [act_node]
      cases action with
      | CloseInput | Finish | SenderGone | InputEndDropped | EventEndDropped =>
          split <;> simp_all
      | _ => cases hcloses
    have hrefused : ((new id : Core F).run (before ++ action :: after)).give input = none := by
      rw [← Option.not_isSome_iff_eq_none, give_isSome]
      exact hshut
    simp [outcome, act, hrefused]
  · intro hreported
    rw [recv_after] at hreported
    rcases hstands with ⟨-, gate, hhere⟩ | ⟨before, event', after, hsame, hquiet, hkept, hhere⟩ |
      ⟨before, after, -, -, hhere⟩ | ⟨-, hhere⟩
    · rw [hhere] at hreported
      cases hreported
    · rw [hhere] at hreported
      cases hreported
      refine ⟨before, after, hsame, hquiet, fun hmember => hkept _ hmember trivial, ?_⟩
      rintro first other rest rfl
      exact absurd trivial (hkept (.Recv other) (List.mem_append_right _ List.mem_cons_self))
    · rw [hhere] at hreported
      cases hreported
    · rw [hhere] at hreported
      cases hreported
  · rintro ⟨before, after, rfl, hquiet, hheld, hfirst⟩
    rw [recv_after]
    rcases (@run_first_end _ _ _ before after (.Finish event) hworking hquiet).1 event rfl with
      ⟨hsent, -⟩ | ⟨-, htaken⟩
    · rw [hsent]
    · obtain ⟨other, hmember, htakes⟩ := htaken
      cases other with
      | EventEndDropped => exact absurd hmember hheld
      | Recv other =>
          obtain ⟨start, rest, rfl⟩ := List.append_of_mem hmember
          have hpending := hfirst start other rest rfl
          rw [recv_after] at hpending
          rcases (@run_first_end _ _ _ before start (.Finish event) hworking hquiet).1 event rfl
            with ⟨hsent, -⟩ | ⟨hended, -⟩
          · rw [hsent] at hpending
            cases hpending
          · rw [hended] at hpending
            cases hpending
      | _ => cases htakes
  · intro hreported
    rw [recv_after] at hreported
    rcases hstands with ⟨-, gate, hhere⟩ | ⟨before, event, after, -, -, -, hhere⟩ |
      ⟨before, after, hsame, hquiet, -⟩ | ⟨-, hhere⟩
    · rw [hhere] at hreported
      cases hreported
    · rw [hhere] at hreported
      cases hreported
    · exact ⟨before, after, hsame, hquiet⟩
    · rw [hhere] at hreported
      cases hreported
  · rintro ⟨before, after, rfl, hquiet⟩
    rw [recv_after, (@run_first_end _ _ _ before after .SenderGone hworking hquiet).2.1 rfl]
  · intro hreported
    rw [recv_after] at hreported
    rcases hstands with ⟨hquiet, -⟩ | ⟨before, event, after, -, -, -, hhere⟩ |
      ⟨before, after, -, -, hhere⟩ | ⟨-, hhere⟩
    · exact hquiet
    · rw [hhere] at hreported
      cases hreported
    · rw [hhere] at hreported
      cases hreported
    · rw [hhere] at hreported
      cases hreported
  · intro hquiet
    obtain ⟨gate, hhere⟩ := run_working hworking hquiet
    rw [recv_after, hhere]
  · rw [recv_after]
    rcases (run (new id) history).node with gate | event | _ | _
    · exact fun hunfinished => absurd rfl hunfinished
    · exact fun _ hundelivered => absurd rfl (hundelivered event)
    · exact fun _ _ _ => rfl
    · exact fun _ _ hpresent => absurd rfl hpresent
  · rintro before waker after action rfl hquiet hwaiting hends
    obtain ⟨gate, hhere⟩ := run_working hworking fun other hmember =>
      hquiet other (List.mem_append_left _ hmember)
    have hregistered : (((new id : Core F).run before).act (.Recv waker)).1.eventWaker =
        some waker := by
      change (pollRecv _ waker).1.eventWaker = some waker
      unfold pollRecv
      rw [hhere]
    rw [run_append, run_cons]
    exact recv_woken hregistered
      (fun other hmember => hquiet other (List.mem_append_right _ (List.mem_cons_of_mem _ hmember)))
      hwaiting hends

end LlmGraph.Contract.Core
