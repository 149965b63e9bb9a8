/- digest: What holds of a map-reduce instance in every run: where its task stands, what it has
   recorded of each element, and what a result it sends rests on. -/

import LlmGraph.Flow.Elements

set_option autoImplicit false
set_option relaxedAutoImplicit false

namespace LlmGraph.Flow

open Lib (Attempt)
open Contract

variable {F G : Type} [Fields F] [Fields G]

/-- What can have happened at the instance of an element: nothing; an instance that is not the one
asked for or takes no input, and nothing else; or one instance, its one input and at most one end. -/
def Orderly (log : List (Effect F G)) (position : Nat) : Prop :=
  concerning position log = [] ∨
  (∃ asked core, concerning position log = [.Created position asked core] ∧
    ¬ (core.id = asked ∧ core.acceptsInput = true)) ∨
  ∃ core input, core.acceptsInput = true ∧
    (concerning position log = [.Created position core.id core, .Given position input] ∨
      ∃ received, concerning position log =
        [.Created position core.id core, .Given position input, .Ended position received])

/-- The outcome that `reduce` is given for an element, by what its instance ended with. -/
def Accounts (node : MapReduce F G) (base : List (State G)) (log : List (Effect F G))
    (outcomes : List (ElementOutcome G)) (position : Nat) : Prop :=
  ∃ received now state, base[position]? = some state ∧
    Begun base log position [.Ended position received] ∧
    ((∃ update next, received = .ok (.Result update) ∧ state.apply now update = .ok next ∧
        outcomes[position]? = some (.Done next)) ∨
      node.faultMode = .NonStrict ∧ (∃ text, outcomes[position]? = some (.Failed text)) ∧
        ∀ update next, received = .ok (.Result update) → state.apply now update ≠ .ok next)

/-- The elements of the last input taken, as the states they start from. -/
def Mapped (node : MapReduce F G) (log : List (Effect F G)) (base : List (State G)) : Prop :=
  ∃ last elements now, (acceptances log).getLast? = some (.Accepted last) ∧
    node.map last.state = some elements ∧
    initialStates node.internalSizeLimit now 0 elements = .ok base

/-- What a result rests on. -/
def Delivered (node : MapReduce F G) (log : List (Effect F G)) (update : Fields.Update F) : Prop :=
  ∃ base outcomes, Mapped node log base ∧ reductions log = [.Reduced outcomes] ∧
    node.reduce outcomes = some update ∧ outcomes.length = base.length ∧
    ∀ position < base.length, Accounts node base log outcomes position

/-- The work on the elements, as long as whoever created the instance has not left it. -/
def Working (node : MapReduce F G) (own : Core F) (log : List (Effect F G)) (work : Work G) : Prop :=
  own.acceptsInput = false ∧ reductions log = [] ∧
    ∃ base, (own.isWorking = true → Mapped node log base) ∧ work.Sound node base log

def Quiet (log : List (Effect F G)) : Prop :=
  reductions log = [] ∧ ∀ position, concerning position log = []

/-- What holds where the task stands. -/
def Phase.Holds (node : MapReduce F G) (own : Core F) (log : List (Effect F G)) :
    Phase F G → Prop
  | Reading => Quiet log ∧
      (own.isWorking = true → acceptances log = own.queue.map .Accepted)
  | Closing first => Quiet log ∧
      (own.isWorking = true → acceptances log = (first :: own.queue).map .Accepted)
  | Draining first => own.acceptsInput = false ∧ Quiet log ∧
      (own.isWorking = true → acceptances log = (first :: own.queue).map .Accepted)
  | Starting last => own.acceptsInput = false ∧ Quiet log ∧
      (own.isWorking = true → (acceptances log).getLast? = some (.Accepted last))
  | Creating work _ => Working node own log work ∧ work.next < work.states.length
  | Waiting work => Working node own log work
  | StopCancelled work | StopFailed work _ => ∃ base, Listening base log work.children
  | Settling event => ∀ update, event = .Result update → own.acceptsInput = false ∧
      (own.isWorking = true → Delivered node log update)
  | Gone => own.isWorking = false ∧
      ∀ update, Effect.Sent (.Result update) ∈ log → Delivered node log update

/-- What holds of an instance of the node in every run. -/
structure World.Sound (node : MapReduce F G) (world : World F G) : Prop where
  orderly : ∀ position, Orderly world.log position
  unsent : world.phase = .Gone ∨ ∀ event, Effect.Sent event ∉ world.log
  holds : world.phase.Holds node world.own world.log

section Own

variable {own : Core F} {action : Core.Action F}

/-- An operation from outside opens nothing again, and adds to the queue what it accepts. -/
private theorem outer_acts (hallowed : Outer action = true ∨ ∃ key waker, action = .PollDropped key
    waker) :
    ((own.act action).1.isWorking = true → own.isWorking = true ∧
      (own.act action).1.queue = own.queue ++ own.accepted [action]) ∧
    (own.acceptsInput = false → (own.act action).1.acceptsInput = false ∧
      own.accepted [action] = []) := by
  rcases own with ⟨id, queue, node, executor, reader, event, waiters⟩
  cases action with
  | Give input =>
      rcases node with (_ | _) | _ | _ | _ <;>
        simp [Core.act, Core.give, Core.acceptsInput, Core.isWorking, Core.accepted]
  | InputEndDropped | EventEndDropped | Recv | ForgetEventWaker =>
      rcases node with (_ | _) | _ | _ | _ <;>
        simp [Core.act, Core.inputEndDropped, Core.eventEndDropped, Core.detach, Core.retire,
          Core.pollRecv, Core.forgetEventWaker, Core.acceptsInput, Core.isWorking, Core.accepted]
  | PollDropped key waker =>
      rcases executor with _ | _ <;> rcases node with (_ | _) | _ | _ | _ <;>
        simp [Core.act, Core.pollDropped, Core.isDropped, Core.acceptsInput, Core.isWorking,
          Core.accepted]
  | CloseInput | Next | ForgetReaderWaker | Drain | Finish | SenderGone | RemoveDroppedWaiter =>
      rcases hallowed with himpossible | ⟨key, waker, himpossible⟩
      · cases himpossible
      · cases himpossible

private theorem closeInput_facts (own : Core F) :
    own.closeInput.1.acceptsInput = false ∧ own.closeInput.1.queue = own.queue ∧
      own.closeInput.1.isWorking = own.isWorking := by
  rcases own with ⟨id, queue, (_ | _) | _ | _ | _, executor, reader, event, waiters⟩
  all_goals exact ⟨rfl, rfl, rfl⟩

private theorem senderGone_gone (own : Core F) : own.senderGone.1.isWorking = false := by
  rcases own with ⟨id, queue, (_ | _) | _ | _ | _, executor, reader, event, waiters⟩
  all_goals rfl

private theorem finish_gone (own : Core F) (event : Event F) :
    (own.finish event).1.isWorking = false := by
  rcases own with ⟨id, queue, (_ | _) | _ | _ | _, executor, reader, waker, waiters⟩
  all_goals rfl

end Own

section Frames

variable {node : MapReduce F G} {log more : List (Effect F G)}

private theorem Orderly.frame {position : Nat} (horderly : Orderly log position)
    (hother : concerning position more = []) : Orderly (log ++ more) position := by
  unfold Orderly
  rw [concerning_append, hother, List.append_nil]
  exact horderly

private theorem Delivered.frame {update : Fields.Update F} (hdelivered : Delivered node log update)
    (helements : ∀ position, concerning position more = []) (hreduced : reductions more = [])
    (haccepted : acceptances more = []) : Delivered node (log ++ more) update := by
  obtain ⟨base, outcomes, hmapped, honce, hresult, hsize, haccounts⟩ := hdelivered
  refine ⟨base, outcomes, ?_, ?_, hresult, hsize, ?_⟩
  · unfold Mapped
    rw [acceptances_append, haccepted, List.append_nil]
    exact hmapped
  · rw [reductions_append, hreduced, List.append_nil]
    exact honce
  · intro position hinside
    obtain ⟨received, now, state, helement, hbegun, houtcome⟩ := haccounts position hinside
    exact ⟨received, now, state, helement, hbegun.frame (helements position), houtcome⟩

private theorem Mapped.frame {base : List (State G)} (hmapped : Mapped node log base)
    (haccepted : acceptances more = []) : Mapped node (log ++ more) base := by
  unfold Mapped
  rw [acceptances_append, haccepted, List.append_nil]
  exact hmapped

end Frames

section Steps

variable {node : MapReduce F G} {world : World F G}

/-- The task ends without an event. -/
private theorem sound_vanish (horderly : ∀ position, Orderly world.log position)
    (hunsent : ∀ event, Effect.Sent event ∉ world.log) : world.vanish.Sound node := by
  refine ⟨horderly, Or.inl rfl, senderGone_gone world.own, ?_⟩
  intro update hsent
  exact absurd hsent (hunsent _)

private theorem sound_halt {work : Work G} {base : List (State G)}
    (horderly : ∀ position, Orderly world.log position)
    (hunsent : ∀ event, Effect.Sent event ∉ world.log)
    (hlistening : Listening base world.log work.children) (halt : Halt) :
    (world.halt work halt).Sound node := by
  cases halt with
  | Dropped => exact sound_vanish horderly hunsent
  | Cancel => exact ⟨horderly, Or.inr hunsent, base, hlistening⟩
  | Fault error => exact ⟨horderly, Or.inr hunsent, base, hlistening⟩

/-- The work goes on, or the outcomes are reduced. -/
private theorem sound_complete {work : Work G} (horderly : ∀ position, Orderly world.log position)
    (hunsent : ∀ event, Effect.Sent event ∉ world.log)
    (hworking : Working node world.own world.log work) (id : Except Cause InstanceId) :
    (world.complete node work id).Sound node := by
  obtain ⟨hshut, hunreduced, base, hmapped, hsound⟩ := hworking
  unfold World.complete
  split
  · rename_i hroom
    split
    · exact ⟨horderly, Or.inr hunsent, base, hsound.listening⟩
    · split
      · exact ⟨horderly, Or.inr hunsent, base, hsound.listening⟩
      · exact ⟨horderly, Or.inr hunsent, ⟨hshut, hunreduced, base, hmapped, hsound⟩, hroom.1⟩
  · rename_i hfull
    split
    · rename_i hidle
      have hnoneLeft : work.children = [] := List.isEmpty_iff.mp hidle
      split
      · exact ⟨horderly, Or.inr hunsent, fun update himpossible => by cases himpossible⟩
      · have hover : work.next = base.length := by
          have hempty : work.children.length = 0 := by rw [hnoneLeft]; rfl
          have hpositive : 0 < (node.limit : Nat) := node.limit.2
          have hbound := hsound.next
          have hlong := hsound.states
          omega
        have hquiet : ∀ position, concerning position
            ([.Reduced work.outcomes] : List (Effect F G)) = [] := fun _ => rfl
        have horderly' : ∀ position, Orderly (world.log ++ [.Reduced work.outcomes]) position :=
          fun position => (horderly position).frame (hquiet position)
        have hunsent' : ∀ event, Effect.Sent event ∉ world.log ++ [.Reduced work.outcomes] := by
          intro event hmember
          rcases List.mem_append.mp hmember with hbefore | hnew
          · exact hunsent event hbefore
          · cases List.mem_singleton.mp hnew
        dsimp only
        split
        · exact sound_vanish horderly' hunsent'
        · rename_i update hreduced
          refine ⟨horderly', Or.inr hunsent', ?_⟩
          rintro other hsame
          cases hsame
          refine ⟨hshut, fun hattached => ?_⟩
          obtain ⟨hsize, haccounts⟩ := hsound.outcomes hnoneLeft hover
          refine ⟨base, work.outcomes, (hmapped hattached).frame rfl, ?_, hreduced, hsize, ?_⟩
          · show reductions (world.log ++ [.Reduced work.outcomes]) = _
            rw [reductions_append, hunreduced]
            rfl
          · intro position hinside
            obtain ⟨received, now, state, helement, hbegun, houtcome⟩ := haccounts position hinside
            exact ⟨received, now, state, helement, hbegun.frame (hquiet position), houtcome⟩
    · exact ⟨horderly, Or.inr hunsent, hshut, hunreduced, base, hmapped, hsound⟩

/-- What is recorded at one element leaves the others as they were. -/
private theorem concerning_other {position other : Nat} (hdiffers : other ≠ position)
    (effect : Effect F G) (hone : ∀ third, effect.concerns third = (position == third)) :
    concerning other [effect] = [] := by
  have hunequal : (position == other) = false := by simpa using fun hsame => hdiffers hsame.symm
  simp [concerning, hone, hunequal]

/-- The end of `start`: the element's one instance and its one input, or the work halts. -/
private theorem sound_created {work : Work G} {asked : InstanceId}
    (horderly : ∀ position, Orderly world.log position)
    (hunsent : ∀ event, Effect.Sent event ∉ world.log)
    (hworking : Working node world.own world.log work) (hroom : work.next < work.states.length)
    (id : Except Cause InstanceId) (result : Attempt Cause (Core G)) :
    (world.created node work asked id result).Sound node := by
  obtain ⟨hshut, hunreduced, base, hmapped, hsound⟩ := hworking
  rcases result with core | cause | text
  · have hfresh := hsound.fresh work.next (Nat.le_refl _)
    have hcreated : concerning work.next (world.log ++ [.Created work.next asked core]) =
        [.Created work.next asked core] := by
      rw [concerning_append, hfresh]
      simp [concerning, Effect.concerns]
    have hothers : ∀ position, position ≠ work.next →
        Orderly (world.log ++ [.Created work.next asked core]) position := fun position hdiffers =>
      (horderly position).frame (concerning_other hdiffers _ fun _ => rfl)
    have hunsent' : ∀ event, Effect.Sent event ∉ world.log ++ [.Created work.next asked core] := by
      intro event hmember
      rcases List.mem_append.mp hmember with hbefore | hnew
      · exact hunsent event hbefore
      · cases List.mem_singleton.mp hnew
    have hlistening : Listening base (world.log ++ [.Created work.next asked core])
        work.children := by
      refine ⟨hsound.listening.distinct, fun child hmember => ?_⟩
      have hbefore := hsound.below child hmember
      exact (hsound.listening.begun child hmember).frame
        (concerning_other (Nat.ne_of_lt hbefore) _ fun _ => rfl)
    unfold World.created
    dsimp only
    split
    · rename_i hwrong
      refine @sound_halt _ _ _ _ node (world.record [.Created work.next asked core]) _ _ ?_ hunsent'
        hlistening _
      intro position
      by_cases hhere : position = work.next
      · subst hhere
        exact Or.inr (Or.inl ⟨asked, core, hcreated, fun hright => hwrong hright.1⟩)
      · exact hothers position hhere
    · rename_i hright
      have hsame : core.id = asked := not_not.mp hright
      subst hsame
      split
      · rename_i hmissing
        exact absurd hmissing (by rw [List.getElem?_eq_getElem hroom]; exact Option.some_ne_none _)
      · rename_i state helement
        split
        · rename_i hrefused
          refine @sound_halt _ _ _ _ node (world.record [.Created work.next core.id core]) _ _ ?_
            hunsent' hlistening _
          intro position
          by_cases hhere : position = work.next
          · subst hhere
            refine Or.inr (Or.inl ⟨core.id, core, hcreated, fun hboth => ?_⟩)
            unfold Core.give at hrefused
            rw [if_pos hboth.2] at hrefused
            cases hrefused
          · exact hothers position hhere
        · rename_i given woken haccepted
          have haccepts : core.acceptsInput = true := by
            unfold Core.give at haccepted
            split at haccepted
            · rename_i hopen'
              exact hopen'
            · cases haccepted
          refine @sound_complete _ _ _ _ node ((world.record [.Created work.next core.id core]).record
            [.Given work.next ⟨0, state⟩]) _ ?_ ?_ ⟨hshut, ?_, base, fun hattached => ?_,
              hsound.give helement haccepts⟩ id
          · intro position
            by_cases hhere : position = work.next
            · subst hhere
              refine Or.inr (Or.inr ⟨core, ⟨0, state⟩, haccepts, Or.inl ?_⟩)
              show concerning work.next (world.log ++ [.Created work.next core.id core] ++
                [.Given work.next ⟨0, state⟩]) = _
              rw [concerning_append, hcreated]
              simp [concerning, Effect.concerns]
            · exact (hothers position hhere).frame (concerning_other hhere _ fun _ => rfl)
          · intro event hmember
            rcases List.mem_append.mp hmember with hbefore | hnew
            · exact hunsent' event hbefore
            · cases List.mem_singleton.mp hnew
          · show reductions (world.log ++ [.Created work.next core.id core] ++
              [.Given work.next ⟨0, state⟩]) = _
            rw [reductions_append, reductions_append, hunreduced]
            rfl
          · exact ((hmapped hattached).frame rfl).frame rfl
  · exact sound_halt horderly hunsent hsound.listening (.Fault (.InstanceNotCreated work.next cause))
  · exact sound_halt horderly hunsent hsound.listening
      (.Fault (.InstanceNotCreated work.next (.shows text)))

/-- A child that joins: its element is settled and the work goes on, or the work halts. -/
private theorem sound_joined {work : Work G} {position now : Nat} {goOn : Work G → World F G}
    {next : World F G} (horderly : ∀ position, Orderly world.log position)
    (hunsent : ∀ event, Effect.Sent event ∉ world.log)
    (hworking : Working node world.own world.log work)
    (hjoined : world.joined node work position now goOn = some next)
    (hfurther : ∀ left, Working node world.own world.log left →
      left.next = work.next → left.states.length = work.states.length → (goOn left).Sound node) :
    next.Sound node := by
  obtain ⟨hshut, hunreduced, base, hmapped, hsound⟩ := hworking
  unfold World.joined at hjoined
  obtain ⟨⟨received, left⟩, htaken, rfl⟩ := Option.map_eq_some_iff.mp hjoined
  have hlistening : Listening base world.log left.children := by
    obtain ⟨child, -, -, -, rfl⟩ := Work.join_some htaken
    exact hsound.listening.leave position
  dsimp only
  split
  · rename_i settled hended
    have hkept := hsound.receive htaken hended
    refine hfurther settled ⟨hshut, hunreduced, base, hmapped, hkept⟩ ?_ ?_
    · obtain ⟨child, -, -, -, rfl⟩ := Work.join_some htaken
      rcases Work.receive_ok hended with ⟨_, _, _, _, _, _, rfl⟩ | ⟨_, ⟨_, rfl⟩, _⟩
      · rfl
      · rfl
    · rw [hkept.states, hsound.states]
  · exact sound_halt horderly hunsent hlistening _
  · exact sound_vanish horderly hunsent

private theorem joinFailed_listening {work left : Work G} {base : List (State G)}
    {log : List (Effect F G)} {position : Nat} (hlistening : Listening base log work.children)
    (htaken : work.joinFailed position = some left) : Listening base log left.children := by
  unfold Work.joinFailed at htaken
  split at htaken
  · cases htaken
    exact hlistening.leave position
  · cases htaken

/-- The branches of the two `select`s that halt the work. -/
private theorem sound_halting {work : Work G} {next : World F G}
    (horderly : ∀ position, Orderly world.log position)
    (hunsent : ∀ event, Effect.Sent event ∉ world.log)
    (hworking : Working node world.own world.log work) :
    ((if world.own.isDropped then some (world.halt work .Dropped) else none) = some next →
      next.Sound node) ∧
    ((if world.cancelled then some (world.halt work .Cancel) else none) = some next →
      next.Sound node) ∧
    ∀ position, ((work.joinFailed position).map fun work => world.halt work .Dropped) = some next →
      next.Sound node := by
  obtain ⟨hshut, hunreduced, base, hmapped, hsound⟩ := hworking
  refine ⟨fun htaken => ?_, fun htaken => ?_, fun position htaken => ?_⟩
  · split at htaken
    · cases htaken
      exact sound_halt horderly hunsent hsound.listening .Dropped
    · cases htaken
  · split at htaken
    · cases htaken
      exact sound_halt horderly hunsent hsound.listening .Cancel
    · cases htaken
  · obtain ⟨left, -, rfl⟩ := Option.map_eq_some_iff.mp htaken
    exact sound_vanish horderly hunsent

/-- The event is sent, and kept while the node side works. -/
private theorem sound_settle {event : Event F} (horderly : ∀ position, Orderly world.log position)
    (hunsent : ∀ event, Effect.Sent event ∉ world.log)
    (hholds : (Phase.Settling event : Phase F G).Holds node world.own world.log) :
    (world.settle event).Sound node := by
  unfold World.settle
  dsimp only
  split
  · rename_i hattached
    refine ⟨fun position => (horderly position).frame rfl, Or.inl rfl, finish_gone _ _, ?_⟩
    intro update hsent
    rcases List.mem_append.mp hsent with hbefore | hnew
    · exact absurd hbefore (hunsent _)
    · cases List.mem_singleton.mp hnew
      obtain ⟨-, hdelivered⟩ := hholds update rfl
      have hworking : world.own.isWorking = true := by
        rw [← (closeInput_facts world.own).2.2]
        exact hattached
      exact (hdelivered hworking).frame (fun _ => rfl) rfl rfl
  · refine ⟨horderly, Or.inl rfl, finish_gone _ _, ?_⟩
    intro update hsent
    exact absurd hsent (hunsent _)

/-- The instance's input is read, closed and emptied; the last one is mapped. -/
private theorem sound_reading (hsound : world.Sound node) {choice : Choice G} {next : World F G}
    (hbefore : world.phase.work = none) (htaken : world.task node choice = some next) :
    next.Sound node := by
  obtain ⟨own, cancelled, phase, log⟩ := world
  obtain ⟨horderly, hunsent, hholds⟩ := hsound
  dsimp only at horderly hunsent hholds hbefore
  have hquiet : phase ≠ .Gone → ∀ event, Effect.Sent event ∉ log := fun halive =>
    hunsent.resolve_left halive
  cases phase with
  | Creating | Waiting | StopCancelled | StopFailed => cases hbefore
  | Gone => cases choice <;> cases htaken
  | Settling event =>
      have hunsent' := hquiet fun himpossible => by cases himpossible
      cases choice with
      | Settle =>
          cases htaken
          exact @sound_settle _ _ _ _ node ⟨own, cancelled, .Settling event, log⟩ event horderly
            hunsent' hholds
      | _ => cases htaken
  | Reading =>
      have hunsent' := hquiet fun himpossible => by cases himpossible
      cases choice with
      | Dropped =>
          unfold World.task at htaken
          dsimp only at htaken
          split at htaken
          · cases htaken
            exact sound_vanish horderly hunsent'
          · cases htaken
      | Cancel =>
          unfold World.task at htaken
          dsimp only at htaken
          split at htaken
          · cases htaken
            exact ⟨horderly, Or.inr hunsent', fun update himpossible => by cases himpossible⟩
          · cases htaken
      | Next waker =>
          obtain ⟨hcalm, hqueued⟩ := hholds
          rcases own with ⟨id, queue, side, executor, reader, event, waiters⟩
          rcases queue with _ | ⟨first, rest⟩
          · by_cases haccepts :
                Core.acceptsInput (⟨id, [], side, executor, reader, event, waiters⟩ : Core F)
            · simp only [World.task, Core.pollNext, if_pos haccepts] at htaken
              cases htaken
              exact ⟨horderly, Or.inr hunsent', hcalm, hqueued⟩
            · simp only [World.task, Core.pollNext, if_neg haccepts] at htaken
              cases htaken
              exact sound_vanish horderly hunsent'
          · simp only [World.task, Core.pollNext] at htaken
            cases htaken
            exact ⟨horderly, Or.inr hunsent', hcalm, hqueued⟩
      | _ => cases htaken
  | Closing first =>
      have hunsent' := hquiet fun himpossible => by cases himpossible
      obtain ⟨hcalm, hqueued⟩ := hholds
      obtain ⟨hshut, hsame, hworking⟩ := closeInput_facts own
      cases choice with
      | Close =>
          cases htaken
          refine ⟨horderly, Or.inr hunsent', hshut, hcalm, fun hattached => ?_⟩
          dsimp only at hattached ⊢
          rw [hsame]
          exact hqueued (hworking ▸ hattached)
      | _ => cases htaken
  | Draining first =>
      have hunsent' := hquiet fun himpossible => by cases himpossible
      obtain ⟨hshut, hcalm, hqueued⟩ := hholds
      cases choice with
      | Drain =>
          cases htaken
          refine ⟨horderly, Or.inr hunsent', hshut, hcalm, fun hattached => ?_⟩
          dsimp only
          rw [hqueued hattached, List.map_cons, List.getLast?_cons]
          unfold Core.drain
          rw [List.getLast?_map]
          cases own.queue.getLast? with
          | none => rfl
          | some last => rfl
      | _ => cases htaken
  | Starting last =>
      have hunsent' := hquiet fun himpossible => by cases himpossible
      obtain ⟨hshut, hcalm, haccepted⟩ := hholds
      cases choice with
      | Start now id =>
          unfold World.task at htaken
          dsimp only at htaken
          split at htaken
          · cases htaken
            exact sound_vanish horderly hunsent'
          · rename_i elements hmapped
            split at htaken
            · cases htaken
              exact ⟨horderly, Or.inr hunsent', fun update himpossible => by cases himpossible⟩
            · rename_i base hmade
              cases htaken
              refine sound_complete horderly hunsent'
                ⟨hshut, hcalm.1, base, ?_, Work.sound_start hcalm.2⟩ id
              exact fun hattached => ⟨last, elements, now, haccepted hattached, hmapped, hmade⟩
      | _ => cases htaken

/-- The work goes on, halts, or stops. -/
private theorem sound_working (hsound : world.Sound node) {choice : Choice G} {next : World F G}
    {work : Work G} (hworks : world.phase.work = some work)
    (htaken : world.task node choice = some next) : next.Sound node := by
  obtain ⟨own, cancelled, phase, log⟩ := world
  obtain ⟨horderly, hunsent, hholds⟩ := hsound
  dsimp only at horderly hunsent hholds hworks
  have hquiet : phase ≠ .Gone → ∀ event, Effect.Sent event ∉ log := fun halive =>
    hunsent.resolve_left halive
  cases phase with
  | Reading | Closing | Draining | Starting | Settling | Gone => cases hworks
  | Creating other asked =>
      cases hworks
      have hunsent' := hquiet fun himpossible => by cases himpossible
      obtain ⟨hworking, hroom⟩ := hholds
      have hhalting := @sound_halting _ _ _ _ node
        ⟨own, cancelled, .Creating work asked, log⟩ work next
        horderly hunsent' hworking
      cases choice with
      | Dropped => exact hhalting.1 htaken
      | Cancel => exact hhalting.2.1 htaken
      | JoinFailed position => exact hhalting.2.2 position htaken
      | Created result id =>
          cases htaken
          exact sound_created horderly hunsent' hworking hroom id result
      | Joined position now id =>
          refine sound_joined horderly hunsent' hworking htaken fun left hkept hfurther hlong => ?_
          exact ⟨horderly, Or.inr hunsent', hkept, by rw [hfurther, hlong]; exact hroom⟩
      | _ => cases htaken
  | Waiting other =>
      cases hworks
      have hunsent' := hquiet fun himpossible => by cases himpossible
      have hworking : Working node own log work := hholds
      have hhalting := @sound_halting _ _ _ _ node ⟨own, cancelled, .Waiting work, log⟩ work next
        horderly hunsent' hworking
      cases choice with
      | Dropped => exact hhalting.1 htaken
      | Cancel => exact hhalting.2.1 htaken
      | JoinFailed position => exact hhalting.2.2 position htaken
      | Joined position now id =>
          exact sound_joined horderly hunsent' hworking htaken fun left hkept _ _ =>
            sound_complete horderly hunsent' hkept id
      | _ => cases htaken
  | StopCancelled other =>
      cases hworks
      have hunsent' := hquiet fun himpossible => by cases himpossible
      obtain ⟨base, hlistening⟩ := hholds
      cases choice with
      | Dropped =>
          unfold World.task at htaken
          dsimp only at htaken
          split at htaken
          · cases htaken
            exact sound_vanish horderly hunsent'
          · cases htaken
      | Joined position now id =>
          obtain ⟨⟨received, left⟩, hfound, rfl⟩ := Option.map_eq_some_iff.mp htaken
          obtain ⟨child, -, -, -, rfl⟩ := Work.join_some hfound
          exact ⟨horderly, Or.inr hunsent', base, hlistening.leave position⟩
      | JoinFailed position =>
          obtain ⟨left, hfound, rfl⟩ := Option.map_eq_some_iff.mp htaken
          exact ⟨horderly, Or.inr hunsent', base, joinFailed_listening hlistening hfound⟩
      | Shutdown =>
          unfold World.task at htaken
          dsimp only at htaken
          split at htaken
          · cases htaken
            exact ⟨horderly, Or.inr hunsent', fun update himpossible => by cases himpossible⟩
          · cases htaken
      | _ => cases htaken
  | StopFailed other error =>
      cases hworks
      have hunsent' := hquiet fun himpossible => by cases himpossible
      cases choice with
      | Shutdown =>
          cases htaken
          exact ⟨horderly, Or.inr hunsent', fun update himpossible => by cases himpossible⟩
      | _ => cases htaken

/-- The children change, and what each of them listens to does not. -/
private theorem sound_children (hsound : world.Sound node) {work : Work G}
    (hworks : world.phase.work = some work) {children : List (Child G)} {more : List (Effect F G)}
    (hlistening : ∀ base, Listening base world.log work.children →
      Listening base (world.log ++ more) children)
    (hsame : children.map Child.position = work.children.map Child.position)
    (htheirs : ∀ position, position ∉ work.children.map Child.position →
      concerning position more = [])
    (horderly : ∀ position, Orderly (world.log ++ more) position)
    (honly : reductions more = [] ∧ acceptances more = [] ∧ ∀ event, Effect.Sent event ∉ more) :
    World.Sound node
      ⟨world.own, world.cancelled, world.phase.withChildren children, world.log ++ more⟩ := by
  obtain ⟨own, cancelled, phase, log⟩ := world
  obtain ⟨-, hunsent, hholds⟩ := hsound
  obtain ⟨hunreduced, haccepted, hsilent⟩ := honly
  dsimp only at hlistening horderly hunsent hholds hworks
  have halive : phase ≠ .Gone := by
    rintro rfl
    cases hworks
  have hunsent' : ∀ event, Effect.Sent event ∉ log ++ more := by
    intro event hmember
    exact (List.mem_append.mp hmember).elim (hunsent.resolve_left halive event) (hsilent event)
  have hworking : Working node own log work →
      Working node own (log ++ more) { work with children } := by
    rintro ⟨hshut, hbefore, base, hmapped, hkept⟩
    refine ⟨hshut, ?_, base, fun hattached => (hmapped hattached).frame haccepted,
      hkept.children (hlistening base hkept.listening) hsame htheirs⟩
    rw [reductions_append, hbefore, hunreduced]
    rfl
  cases phase with
  | Reading | Closing | Draining | Starting | Settling | Gone => cases hworks
  | Creating other asked =>
      cases hworks
      exact ⟨horderly, Or.inr hunsent', hworking hholds.1, hholds.2⟩
  | Waiting other =>
      cases hworks
      exact ⟨horderly, Or.inr hunsent', hworking hholds⟩
  | StopCancelled other | StopFailed other error =>
      cases hworks
      obtain ⟨base, hlistens⟩ := hholds
      exact ⟨horderly, Or.inr hunsent', base, hlistening base hlistens⟩

theorem World.Sound.listening (hsound : world.Sound node) {work : Work G}
    (hworks : world.phase.work = some work) : ∃ base, Listening base world.log work.children := by
  obtain ⟨own, cancelled, phase, log⟩ := world
  obtain ⟨-, -, hholds⟩ := hsound
  dsimp only at hholds hworks
  cases phase with
  | Reading | Closing | Draining | Starting | Settling | Gone => cases hworks
  | Creating other asked =>
      cases hworks
      obtain ⟨⟨-, -, base, -, hkept⟩, -⟩ := hholds
      exact ⟨base, hkept.listening⟩
  | Waiting other =>
      cases hworks
      obtain ⟨-, -, base, -, hkept⟩ := hholds
      exact ⟨base, hkept.listening⟩
  | StopCancelled other | StopFailed other error =>
      cases hworks
      exact hholds

/-- Children that the node sees as before. -/
private theorem sound_unseen (hsound : world.Sound node) {work : Work G}
    (hworks : world.phase.work = some work) (f : Child G → Child G)
    (hsame : ∀ child ∈ work.children, (f child).position = child.position ∧
      (f child).received = child.received) :
    World.Sound node { world with phase := world.phase.withChildren (work.children.map f) } := by
  have hplaces : (work.children.map f).map Child.position = work.children.map Child.position := by
    rw [List.map_map]
    exact List.map_congr_left fun child hmember => (hsame child hmember).1
  have hkept := @sound_children _ _ _ _ node world hsound work hworks (work.children.map f) []
    (fun base hlistening => by rw [List.append_nil]; exact hlistening.act f hsame) hplaces
    (fun _ _ => rfl) (fun position => (hsound.orderly position).frame rfl)
    ⟨rfl, rfl, fun event himpossible => by cases himpossible⟩
  rw [List.append_nil] at hkept
  exact hkept

private theorem sound_listen (hsound : world.Sound node) {position : Nat} {waker : Waker}
    {next : World F G} (htaken : world.listen position waker = some next) : next.Sound node := by
  unfold World.listen at htaken
  obtain ⟨work, hworks, hrest⟩ := Option.bind_eq_some_iff.mp htaken
  obtain ⟨child, hfound, hlast⟩ := Option.bind_eq_some_iff.mp hrest
  have hmember := List.mem_of_find?_eq_some hfound
  have hhere : child.position = position := by simpa using List.find?_some hfound
  obtain ⟨base, hlistening⟩ := hsound.listening hworks
  subst hhere
  split at hlast
  · cases hlast
  · rename_i hquiet
    have hsilent : child.received = none := by simpa using hquiet
    dsimp only at hlast
    split at hlast
    · cases hlast
      refine sound_unseen hsound hworks _ fun other hamong => ?_
      split
      · rename_i hsame
        have hone : other = child :=
          List.inj_on_of_nodup_map hlistening.distinct hamong hmember hsame
        subst hone
        exact ⟨rfl, hsilent.symm⟩
      · exact ⟨rfl, rfl⟩
    · rename_i core received hpolled
      cases hlast
      refine sound_children hsound hworks
        (fun base hlistens => hlistens.listen hmember hsilent _ received) ?_ ?_ ?_ ?_
      · rw [List.map_map]
        refine List.map_congr_left fun other _ => ?_
        simp only [Function.comp]
        split
        · rfl
        · rfl
      · intro other habsent
        refine concerning_other ?_ _ fun _ => rfl
        rintro rfl
        exact habsent (List.mem_map_of_mem hmember)
      · intro other
        by_cases hsame : other = child.position
        · subst hsame
          obtain ⟨core, state, -, haccepts, heffects⟩ := hlistening.begun child hmember
          rw [Child.effects, hsilent] at heffects
          refine Or.inr (Or.inr ⟨core, ⟨0, state⟩, haccepts, Or.inr ⟨received, ?_⟩⟩)
          rw [concerning_append, heffects]
          simp [concerning, Effect.concerns]
        · exact (hsound.orderly other).frame (concerning_other hsame _ fun _ => rfl)
      · refine ⟨rfl, rfl, fun event himpossible => ?_⟩
        cases List.mem_singleton.mp himpossible

private theorem sound_own (hsound : world.Sound node) {action : Core.Action F}
    (hallowed : Outer action = true ∨ ∃ key waker, action = .PollDropped key waker) :
    (world.ownAct action).Sound node := by
  obtain ⟨own, cancelled, phase, log⟩ := world
  obtain ⟨horderly, hunsent, hholds⟩ := hsound
  dsimp only at horderly hunsent hholds
  obtain ⟨hqueued, hclosed⟩ := @outer_acts _ _ own action hallowed
  have helements : ∀ (inputs : List (Input F)) position,
      concerning position (inputs.map (Effect.Accepted : Input F → Effect F G)) = [] := by
    intro inputs position
    refine List.filter_eq_nil_iff.mpr fun effect hmember => ?_
    obtain ⟨input, -, rfl⟩ := List.mem_map.mp hmember
    exact Bool.false_ne_true
  have hreduced : ∀ inputs : List (Input F),
      reductions (inputs.map (Effect.Accepted : Input F → Effect F G)) = [] := by
    intro inputs
    refine List.filter_eq_nil_iff.mpr fun effect hmember => ?_
    obtain ⟨input, -, rfl⟩ := List.mem_map.mp hmember
    exact Bool.false_ne_true
  have haccepted : ∀ inputs : List (Input F),
      acceptances (inputs.map (Effect.Accepted : Input F → Effect F G)) =
        inputs.map .Accepted := by
    intro inputs
    refine List.filter_eq_self.mpr fun effect hmember => ?_
    obtain ⟨input, -, rfl⟩ := List.mem_map.mp hmember
    rfl
  refine ⟨fun position => (horderly position).frame (helements _ position), ?_, ?_⟩
  · refine hunsent.imp_right fun hsilent event hmember => ?_
    rcases List.mem_append.mp hmember with hbefore | hnew
    · exact hsilent event hbefore
    · obtain ⟨input, -, himpossible⟩ := List.mem_map.mp hnew
      cases himpossible
  have hcalm : Quiet log → Quiet (log ++ (own.accepted [action]).map .Accepted) := by
    rintro ⟨hnone, hfresh⟩
    refine ⟨?_, fun position => ?_⟩
    · rw [reductions_append, hnone, hreduced]
      rfl
    · rw [concerning_append, hfresh, helements]
      rfl
  have hunchanged : own.acceptsInput = false →
      log ++ (own.accepted [action]).map (Effect.Accepted : Input F → Effect F G) = log := by
    intro hshut
    rw [(hclosed hshut).2]
    exact List.append_nil log
  show phase.Holds node (own.act action).1 (log ++ (own.accepted [action]).map .Accepted)
  have hworking : ∀ work, Working node own log work →
      Working node (own.act action).1 (log ++ (own.accepted [action]).map .Accepted) work := by
    rintro work ⟨hshut, hnone, base, hmapped, hkept⟩
    rw [hunchanged hshut]
    exact ⟨(hclosed hshut).1, hnone, base, fun hattached => hmapped (hqueued hattached).1, hkept⟩
  cases phase with
  | Reading =>
      refine ⟨hcalm hholds.1, fun hattached => ?_⟩
      obtain ⟨hbefore, hlonger⟩ := hqueued hattached
      rw [acceptances_append, haccepted, hholds.2 hbefore, hlonger, List.map_append]
  | Closing first =>
      refine ⟨hcalm hholds.1, fun hattached => ?_⟩
      obtain ⟨hbefore, hlonger⟩ := hqueued hattached
      rw [acceptances_append, haccepted, hholds.2 hbefore, hlonger, ← List.map_append]
      rfl
  | Draining first =>
      obtain ⟨hshut, hquiet, hall⟩ := hholds
      refine ⟨(hclosed hshut).1, hcalm hquiet, fun hattached => ?_⟩
      obtain ⟨hbefore, hlonger⟩ := hqueued hattached
      rw [acceptances_append, haccepted, hall hbefore, hlonger, ← List.map_append]
      rfl
  | Starting last =>
      obtain ⟨hshut, hquiet, hall⟩ := hholds
      rw [hunchanged hshut]
      exact ⟨(hclosed hshut).1, hquiet, fun hattached => hall (hqueued hattached).1⟩
  | Creating work asked => exact ⟨hworking work hholds.1, hholds.2⟩
  | Waiting work => exact hworking work hholds
  | StopCancelled work | StopFailed work error =>
      obtain ⟨base, hlistening⟩ := hholds
      exact ⟨base, hlistening.frame (helements _)⟩
  | Settling event =>
      intro update hsame
      obtain ⟨hshut, hdelivered⟩ := hholds update hsame
      rw [hunchanged hshut]
      exact ⟨(hclosed hshut).1, fun hattached => hdelivered (hqueued hattached).1⟩
  | Gone =>
      obtain ⟨hover, hdelivered⟩ := hholds
      have hshut : own.acceptsInput = false := by
        rcases own with ⟨id, queue, (_ | _) | _ | _ | _, executor, reader, event, waiters⟩
        all_goals first | rfl | cases hover
      rw [hunchanged hshut]
      refine ⟨?_, hdelivered⟩
      by_contra hattached
      rw [(hqueued (by simpa using hattached)).1] at hover
      cases hover

/-- One step keeps what holds, whatever happens. -/
theorem World.Sound.step (hsound : world.Sound node) {label : Label F G} {next : World F G}
    (htaken : world.step node label = some next) : next.Sound node := by
  cases label with
  | Own action =>
      unfold World.step at htaken
      dsimp only at htaken
      split at htaken
      · rename_i houter
        cases htaken
        exact sound_own hsound (Or.inl houter)
      · cases htaken
  | Watch key waker =>
      cases htaken
      exact sound_own hsound (Or.inr ⟨key, waker, rfl⟩)
  | Trigger =>
      cases htaken
      exact ⟨hsound.orderly, hsound.unsent, hsound.holds⟩
  | Child position action =>
      unfold World.step at htaken
      dsimp only at htaken
      split at htaken
      · unfold World.childAct at htaken
        obtain ⟨work, hworks, hlast⟩ := Option.bind_eq_some_iff.mp htaken
        cases hlast
        refine sound_unseen hsound hworks _ fun other _ => ?_
        split
        · exact ⟨rfl, rfl⟩
        · exact ⟨rfl, rfl⟩
      · cases htaken
  | Listen position waker => exact sound_listen hsound htaken
  | Task choice =>
      rcases hworks : world.phase.work with _ | work
      · exact sound_reading hsound hworks htaken
      · exact sound_working hsound hworks htaken

theorem World.Sound.run (hsound : world.Sound node) {labels : List (Label F G)} {last : World F G}
    (hran : world.run node labels = some last) : last.Sound node := by
  induction labels generalizing world with
  | nil =>
      cases hran
      exact hsound
  | cons label later hstep =>
      obtain ⟨next, htaken, hrest⟩ := Option.bind_eq_some_iff.mp hran
      exact hstep (hsound.step htaken) hrest

theorem World.opening_sound (node : MapReduce F G) (id : InstanceId) :
    (World.opening id : World F G).Sound node where
  orderly _ := Or.inl rfl
  unsent := Or.inr fun _ himpossible => by cases himpossible
  holds := ⟨⟨rfl, fun _ => rfl⟩, fun _ => rfl⟩

end Steps

end LlmGraph.Flow
