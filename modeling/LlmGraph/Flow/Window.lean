/- digest: The concurrency window of a map-reduce node: how many instances of elements there are at
   once, in which order elements are begun, and when no more are. -/

import Mathlib.Data.List.Range
import LlmGraph.Flow.Runs
import LlmGraph.Lib.Keyed

set_option autoImplicit false
set_option relaxedAutoImplicit false

namespace LlmGraph.Flow

open Lib (Attempt)
open Contract

variable {F G : Type} [Fields F] [Fields G]

namespace Phase

/-- The task has halted its work, or has none any more. -/
def Over : Phase F G → Prop
  | StopCancelled _ | StopFailed _ _ | Settling _ | Gone => True
  | Reading | Closing _ | Draining _ | Starting _ | Creating _ _ | Waiting _ => False

/-- The task has not come to its elements. -/
def Early : Phase F G → Prop
  | Reading | Closing _ | Draining _ | Starting _ => True
  | Creating _ _ | Waiting _ | StopCancelled _ | StopFailed _ _ | Settling _ | Gone => False

/-- What holds where the task stands, when it has begun `count` elements. -/
def Window (limit count : Nat) : Phase F G → Prop
  | Reading | Closing _ | Draining _ | Starting _ => count = 0
  | Creating work _ => work.next < work.states.length ∧ work.children.length + 1 ≤ limit ∧
      count = work.next + 1
  | Waiting work => work.children ≠ [] ∧ work.children.length ≤ limit ∧ count = work.next
  | StopCancelled work | StopFailed work _ => work.children.length ≤ limit
  | Settling _ | Gone => True

/-- The instances of elements that are live, and the one that is being created. -/
def inFlight : Phase F G → Nat
  | Creating work _ => (work.children.filter (·.received.isNone)).length + 1
  | Waiting work | StopCancelled work | StopFailed work _ =>
      (work.children.filter (·.received.isNone)).length
  | Reading | Closing _ | Draining _ | Starting _ | Settling _ | Gone => 0

theorem Window.inFlight_le {limit count : Nat} {phase : Phase F G}
    (hwindow : phase.Window limit count) : phase.inFlight ≤ limit := by
  have hlive (work : Work G) :
      (work.children.filter (·.received.isNone)).length ≤ work.children.length :=
    List.length_filter_le _ _
  cases phase with
  | Reading | Closing | Draining | Starting | Settling | Gone => exact Nat.zero_le _
  | Creating work asked => exact (Nat.succ_le_succ (hlive work)).trans hwindow.2.1
  | Waiting work => exact (hlive work).trans hwindow.2.1
  | StopCancelled work | StopFailed work error => exact (hlive work).trans hwindow

theorem Over.not_creating {phase : Phase F G} (hover : phase.Over) (work : Work G)
    (asked : InstanceId) : phase ≠ .Creating work asked := by
  rintro rfl
  exact hover

end Phase

namespace World

/-- The element whose instance a step begins to create. -/
def begins (world next : World F G) : Option Nat :=
  match next.phase with
  | .Creating work _ =>
      match world.phase with
      | .Creating before _ => if before.next = work.next then none else some work.next
      | _ => some work.next
  | _ => none

/-- The elements that a run begins, in order. -/
def begun (node : MapReduce F G) (world : World F G) : List (Label F G) → List Nat
  | [] => []
  | label :: later =>
      match world.step node label with
      | none => []
      | some next => (world.begins next).toList ++ next.begun node later

/-- The node takes an end of an element's instance out of the set and finds a fault in it. -/
def ReadsFault (world : World F G) (label : Label F G) : Prop :=
  ∃ position now id work received left error, label = .Task (.Joined position now id) ∧
    world.phase.work = some work ∧ work.join position = some (received, left) ∧
      left.elementEnd world.cancelled now position received = .error (.Fault error)

variable {node : MapReduce F G} {world next : World F G}

private theorem begins_none (hphase : ∀ work asked, next.phase ≠ .Creating work asked) :
    world.begins next = none := by
  unfold begins
  split
  · rename_i work asked hcreating
    exact absurd hcreating (hphase work asked)
  · rfl

private theorem begins_of_over (hover : next.phase.Over) : world.begins next = none :=
  begins_none hover.not_creating

/-- What `complete` goes on to: it begins the next element, waits for a child, or is over. -/
inductive Completed (limit : Nat) (cancelled : Bool) (work : Work G) : Phase F G → Prop
  | creating (asked : InstanceId) (hmore : work.next < work.states.length)
      (hroom : work.children.length < limit) (hquiet : cancelled = false) :
      Completed limit cancelled work (.Creating work asked)
  | waiting (hchildren : work.children ≠ []) : Completed limit cancelled work (.Waiting work)
  | ends {phase : Phase F G} (hover : phase.Over)
      (hkept : ∀ left, phase.work = some left → left.children = work.children) :
      Completed limit cancelled work phase

theorem complete_completed (node : MapReduce F G) (world : World F G) (work : Work G)
    (id : Except Cause InstanceId) :
    Completed node.limit world.cancelled work (world.complete node work id).phase := by
  unfold complete
  split
  · rename_i hroom
    split
    · exact .ends trivial fun left hleft => by cases hleft; rfl
    · rename_i hquiet
      rw [Bool.or_eq_true, not_or, Bool.not_eq_true] at hquiet
      split
      · exact .ends trivial fun left hleft => by cases hleft; rfl
      · exact .creating _ hroom.1 hroom.2 hquiet.1
  · split
    · split
      · exact .ends trivial fun left hleft => by cases hleft
      · dsimp only
        split
        · exact .ends trivial fun left hleft => by cases hleft
        · exact .ends trivial fun left hleft => by cases hleft
    · rename_i hsome
      exact .waiting (by simpa using hsome)

theorem complete_cancelled (node : MapReduce F G) (world : World F G) (work : Work G)
    (id : Except Cause InstanceId) : (world.complete node work id).cancelled = world.cancelled := by
  unfold complete
  split
  · split
    · rfl
    · split <;> rfl
  · split
    · split
      · rfl
      · dsimp only
        split <;> rfl
    · rfl

/-- A halt is over, with the children as they are. -/
theorem halt_over (world : World F G) (work : Work G) (halt : Halt) :
    (world.halt work halt).phase.Over ∧ (world.halt work halt).cancelled = world.cancelled ∧
      ∀ left, (world.halt work halt).phase.work = some left → left.children = work.children := by
  cases halt with
  | Dropped => exact ⟨trivial, rfl, fun left hleft => by cases hleft⟩
  | Cancel => exact ⟨trivial, rfl, fun left hleft => by cases hleft; rfl⟩
  | Fault error => exact ⟨trivial, rfl, fun left hleft => by cases hleft; rfl⟩

/-- What a step can do to the phase. -/
inductive Turn (limit : Nat) (cancelled : Bool) : Phase F G → Phase F G → Prop
  | early {phase next : Phase F G} (hbefore : phase.Early) (hafter : next.Early) :
      Turn limit cancelled phase next
  | creating (work left : Work G) (asked : InstanceId) (hnext : left.next = work.next)
      (hstates : left.states.length = work.states.length)
      (hchildren : left.children.length ≤ work.children.length) :
      Turn limit cancelled (.Creating work asked) (.Creating left asked)
  | waiting (work left : Work G) (hnext : left.next = work.next)
      (hchildren : left.children.length = work.children.length) :
      Turn limit cancelled (.Waiting work) (.Waiting left)
  | ends {phase next : Phase F G} (hover : next.Over)
      (hchildren : ∀ left, next.work = some left → ∃ work, phase.work = some work ∧
        left.children.length ≤ work.children.length) : Turn limit cancelled phase next
  | starts {phase next : Phase F G} (states : List (State G)) (hbefore : phase.Early)
      (hcompleted : Completed limit cancelled (.start states) next) :
      Turn limit cancelled phase next
  | goesOn (work left : Work G) {next : Phase F G} (hnext : left.next = work.next)
      (hchildren : left.children.length ≤ work.children.length)
      (hcompleted : Completed limit cancelled left next) :
      Turn limit cancelled (.Waiting work) next
  | created (work left : Work G) (asked : InstanceId) {next : Phase F G}
      (hnext : left.next = work.next + 1)
      (hchildren : left.children.length = work.children.length + 1)
      (hcompleted : Completed limit cancelled left next) :
      Turn limit cancelled (.Creating work asked) next

private theorem join_length {work left : Work G} {position : Nat} {received : Received G}
    (hjoined : work.join position = some (received, left)) : left.next = work.next ∧
      left.states = work.states ∧ left.children.length ≤ work.children.length := by
  obtain ⟨child, -, -, -, rfl⟩ := Work.join_some hjoined
  exact ⟨rfl, rfl, List.length_filter_le _ _⟩

private theorem joinFailed_length {work left : Work G} {position : Nat}
    (hjoined : work.joinFailed position = some left) :
    left.children.length ≤ work.children.length := by
  unfold Work.joinFailed at hjoined
  split at hjoined
  · cases hjoined
    exact List.length_filter_le _ _
  · cases hjoined

private theorem receive_length {work left : Work G} {mode : FaultMode} {cancelled : Bool}
    {now position : Nat} {received : Received G}
    (hreceived : work.receive mode cancelled now position received = .ok left) :
    left.next = work.next ∧ left.states.length = work.states.length ∧
      left.children = work.children := by
  unfold Work.receive at hreceived
  split at hreceived
  · split at hreceived
    · split at hreceived
      · cases hreceived
        exact ⟨rfl, rfl, rfl⟩
      · cases hreceived
    · cases hreceived
  · unfold Work.elementEnd at hreceived
    split at hreceived
    · split at hreceived
      · cases hreceived
      · split at hreceived
        · cases hreceived
          exact ⟨rfl, List.length_set .., rfl⟩
        · cases hreceived
        · cases hreceived
    · cases hreceived
    · cases hreceived
    · split at hreceived <;> cases hreceived
    · cases hreceived

/-- A halt from a phase with the same children, or more. -/
private theorem turn_halt {limit : Nat} {cancelled : Bool} {work left : Work G}
    {phase : Phase F G} (hwork : phase.work = some work)
    (hchildren : left.children.length ≤ work.children.length) (world : World F G) (halt : Halt) :
    Turn limit cancelled phase (world.halt left halt).phase := by
  obtain ⟨hover, -, hkept⟩ := halt_over world left halt
  refine .ends hover fun other hother => ⟨work, hwork, ?_⟩
  rw [hkept other hother]
  exact hchildren

/-- A child that joins: the work goes on with fewer children, or halts. -/
private theorem turn_joined {work : Work G} {position now : Nat} {goOn : Work G → World F G}
    (hwork : world.phase.work = some work)
    (hjoined : world.joined node work position now goOn = some next)
    (hgoOn : ∀ left : Work G, left.next = work.next → left.states.length = work.states.length →
      left.children.length ≤ work.children.length →
        Turn node.limit world.cancelled world.phase (goOn left).phase) :
    Turn node.limit world.cancelled world.phase next.phase := by
  obtain ⟨⟨received, left⟩, hleft, hnext⟩ := Option.map_eq_some_iff.mp hjoined
  obtain ⟨hkept, hstates, hchildren⟩ := join_length hleft
  dsimp only at hnext
  split at hnext
  · rename_i further hreceived
    obtain ⟨hsame, hlength, hothers⟩ := receive_length hreceived
    subst hnext
    exact hgoOn further (hsame.trans hkept) (by rw [hlength, hstates])
      (by rw [hothers]; exact hchildren)
  · subst hnext
    exact turn_halt hwork hchildren world _
  · subst hnext
    exact .ends trivial fun other hother => by cases hother

/-- The task is over, and listens to no child. -/
private theorem turn_over {limit : Nat} {cancelled : Bool} {phase after : Phase F G}
    (hover : after.Over) (hwork : after.work = none) : Turn limit cancelled phase after := by
  refine .ends hover fun left hleft => ?_
  rw [hwork] at hleft
  cases hleft

/-- A step of the task before its elements. -/
private theorem turn_early {choice : Choice G} (hearly : world.phase.Early)
    (hstep : world.task node choice = some next) :
    Turn node.limit world.cancelled world.phase next.phase := by
  obtain ⟨own, cancelled, phase, log⟩ := world
  dsimp only at hearly
  cases phase with
  | Creating | Waiting | StopCancelled | StopFailed | Settling | Gone => exact hearly.elim
  | Reading =>
      cases choice with
      | Dropped | Cancel =>
          unfold World.task at hstep
          dsimp only at hstep
          split at hstep
          · cases hstep
            exact turn_over trivial rfl
          · cases hstep
      | Next waker =>
          unfold World.task at hstep
          dsimp only at hstep
          split at hstep
          · cases hstep
            exact .early trivial trivial
          · cases hstep
            exact turn_over trivial rfl
          · cases hstep
            exact .early trivial trivial
      | _ => cases hstep
  | Closing first =>
      cases choice with
      | Close =>
          cases hstep
          exact .early trivial trivial
      | _ => cases hstep
  | Draining first =>
      cases choice with
      | Drain =>
          cases hstep
          exact .early trivial trivial
      | _ => cases hstep
  | Starting last =>
      cases choice with
      | Start now id =>
          unfold World.task at hstep
          dsimp only at hstep
          split at hstep
          · cases hstep
            exact turn_over trivial rfl
          · split at hstep
            · cases hstep
              exact turn_over trivial rfl
            · cases hstep
              exact .starts _ trivial (complete_completed node _ _ id)
      | _ => cases hstep

/-- The end of a creation: one child more, or a halt. -/
private theorem turn_created {work : Work G} {asked : InstanceId} (id : Except Cause InstanceId)
    (result : Attempt Cause (Core G)) (hphase : world.phase = .Creating work asked) :
    Turn node.limit world.cancelled world.phase
      (world.created node work asked id result).phase := by
  have hwork : world.phase.work = some work := by rw [hphase]; rfl
  rcases result with core | cause | text
  · unfold World.created
    dsimp only
    split
    · exact turn_halt hwork (Nat.le_refl _) _ _
    · split
      · exact turn_over trivial rfl
      · split
        · exact turn_halt hwork (Nat.le_refl _) _ _
        · rename_i given _ _
          have hmore : (work.children ++ [(⟨work.next, given, none⟩ : Child G)]).length =
              work.children.length + 1 := List.length_append ..
          rw [hphase]
          exact .created work _ asked rfl hmore (complete_completed node
            ((world.record [.Created work.next asked core]).record [.Given work.next ⟨0, _⟩]) _ id)
  · exact turn_halt hwork (Nat.le_refl _) world _
  · exact turn_halt hwork (Nat.le_refl _) world _

/-- A step of the task that works on its elements. -/
private theorem turn_working {choice : Choice G} {work : Work G}
    (hwork : world.phase.work = some work) (hstep : world.task node choice = some next) :
    Turn node.limit world.cancelled world.phase next.phase := by
  obtain ⟨own, cancelled, phase, log⟩ := world
  have hkept := Nat.le_refl work.children.length
  dsimp only at hwork
  cases phase with
  | Reading | Closing | Draining | Starting | Settling | Gone => cases hwork
  | Creating other asked =>
      cases hwork
      cases choice with
      | Dropped | Cancel =>
          unfold World.task at hstep
          dsimp only at hstep
          split at hstep
          · cases hstep
            exact turn_halt rfl hkept _ _
          · cases hstep
      | JoinFailed position =>
          obtain ⟨left, hleft, rfl⟩ := Option.map_eq_some_iff.mp hstep
          exact turn_halt rfl (joinFailed_length hleft) _ _
      | Created result id =>
          cases hstep
          exact turn_created id result rfl
      | Joined position now id =>
          exact turn_joined rfl hstep fun left hnext hstates hchildren =>
            .creating work left asked hnext hstates hchildren
      | _ => cases hstep
  | Waiting other =>
      cases hwork
      cases choice with
      | Dropped | Cancel =>
          unfold World.task at hstep
          dsimp only at hstep
          split at hstep
          · cases hstep
            exact turn_halt rfl hkept _ _
          · cases hstep
      | JoinFailed position =>
          obtain ⟨left, hleft, rfl⟩ := Option.map_eq_some_iff.mp hstep
          exact turn_halt rfl (joinFailed_length hleft) _ _
      | Joined position now id =>
          exact turn_joined rfl hstep fun left hnext _ hchildren =>
            .goesOn work left hnext hchildren (complete_completed node _ _ id)
      | _ => cases hstep
  | StopCancelled other =>
      cases hwork
      cases choice with
      | Dropped =>
          unfold World.task at hstep
          dsimp only at hstep
          split at hstep
          · cases hstep
            exact turn_over trivial rfl
          · cases hstep
      | Joined position now id =>
          obtain ⟨⟨received, left⟩, hleft, rfl⟩ := Option.map_eq_some_iff.mp hstep
          exact .ends trivial fun kept hkept =>
            ⟨work, rfl, by cases hkept; exact (join_length hleft).2.2⟩
      | JoinFailed position =>
          obtain ⟨left, hleft, rfl⟩ := Option.map_eq_some_iff.mp hstep
          exact .ends trivial fun kept hkept =>
            ⟨work, rfl, by cases hkept; exact joinFailed_length hleft⟩
      | Shutdown =>
          unfold World.task at hstep
          dsimp only at hstep
          split at hstep
          · cases hstep
            exact turn_over trivial rfl
          · cases hstep
      | _ => cases hstep
  | StopFailed other error =>
      cases hwork
      cases choice with
      | Shutdown =>
          cases hstep
          exact turn_over trivial rfl
      | _ => cases hstep

theorem task_turn {choice : Choice G} (hstep : world.task node choice = some next) :
    Turn node.limit world.cancelled world.phase next.phase := by
  rcases hwork : world.phase.work with _ | work
  · by_cases hearly : world.phase.Early
    · exact turn_early hearly hstep
    · obtain ⟨own, cancelled, phase, log⟩ := world
      dsimp only at hearly hwork
      cases phase with
      | Reading | Closing | Draining | Starting => exact (hearly trivial).elim
      | Creating | Waiting | StopCancelled | StopFailed => cases hwork
      | Settling event =>
          cases choice with
          | Settle =>
              cases hstep
              refine turn_over ?_ ?_
              · unfold settle
                dsimp only
                split <;> trivial
              · unfold settle
                dsimp only
                split <;> rfl
          | _ => cases hstep
      | Gone => cases choice <;> cases hstep
  · exact turn_working hwork hstep

/-- Other values of the same children. -/
private theorem turn_children {limit : Nat} {cancelled : Bool} {phase : Phase F G} {work : Work G}
    (hwork : phase.work = some work) (change : Child G → Child G) :
    Turn limit cancelled phase (phase.withChildren (work.children.map change)) := by
  have hlength : (work.children.map change).length = work.children.length := List.length_map _
  cases phase with
  | Reading | Closing | Draining | Starting | Settling | Gone => cases hwork
  | Creating other asked =>
      cases hwork
      exact .creating _ _ asked rfl rfl hlength.le
  | Waiting other =>
      cases hwork
      exact .waiting _ _ rfl hlength
  | StopCancelled other | StopFailed other error =>
      cases hwork
      exact .ends trivial fun left hleft => ⟨work, rfl, by cases hleft; exact hlength.le⟩

/-- A step that leaves the phase as it is. -/
private theorem turn_same {limit : Nat} {cancelled : Bool} (phase : Phase F G) :
    Turn limit cancelled phase phase := by
  have hkept (work : Work G) := Nat.le_refl work.children.length
  cases phase with
  | Reading | Closing | Draining | Starting => exact .early trivial trivial
  | Creating work asked => exact .creating work work asked rfl rfl (hkept work)
  | Waiting work => exact .waiting work work rfl rfl
  | StopCancelled work | StopFailed work error =>
      exact .ends trivial fun left hleft => ⟨work, rfl, by cases hleft; exact hkept work⟩
  | Settling | Gone => exact turn_over trivial rfl

theorem step_turn {label : Label F G} (hstep : world.step node label = some next) :
    Turn node.limit world.cancelled world.phase next.phase := by
  cases label with
  | Own action =>
      unfold World.step at hstep
      dsimp only at hstep
      split at hstep
      · cases hstep
        exact turn_same world.phase
      · cases hstep
  | Watch key waker =>
      cases hstep
      exact turn_same world.phase
  | Trigger =>
      cases hstep
      exact turn_same world.phase
  | Child position action =>
      unfold World.step at hstep
      dsimp only at hstep
      split at hstep
      · obtain ⟨work, hwork, hnext⟩ := Option.bind_eq_some_iff.mp hstep
        cases hnext
        exact turn_children hwork _
      · cases hstep
  | Listen position waker =>
      obtain ⟨work, hwork, hlistens⟩ := Option.bind_eq_some_iff.mp hstep
      obtain ⟨child, -, hnext⟩ := Option.bind_eq_some_iff.mp hlistens
      split at hnext
      · cases hnext
      · dsimp only at hnext
        split at hnext
        · cases hnext
          exact turn_children hwork _
        · cases hnext
          exact turn_children hwork _
  | Task choice => exact task_turn hstep

/-- Once the task is over it stays so. -/
private theorem turn_stays {limit : Nat} {cancelled : Bool} {phase after : Phase F G}
    (hover : phase.Over) (hturn : Turn limit cancelled phase after) : after.Over := by
  cases hturn with
  | early hbefore | starts states hbefore =>
      cases phase with
      | Reading | Closing | Draining | Starting => exact hover.elim
      | _ => exact hbefore.elim
  | creating | waiting | goesOn | created => exact hover.elim
  | ends hafter => exact hafter

private theorem window_early {limit count : Nat} {phase : Phase F G} (hearly : phase.Early) :
    phase.Window limit count ↔ count = 0 := by
  cases phase with
  | Reading | Closing | Draining | Starting => exact Iff.rfl
  | Creating | Waiting | StopCancelled | StopFailed | Settling | Gone => exact hearly.elim

private theorem window_children {limit count : Nat} {phase : Phase F G} {work : Work G}
    (hwindow : phase.Window limit count) (hwork : phase.work = some work) :
    work.children.length ≤ limit := by
  cases phase with
  | Reading | Closing | Draining | Starting | Settling | Gone => cases hwork
  | Creating other asked =>
      cases hwork
      exact Nat.le_of_succ_le hwindow.2.1
  | Waiting other =>
      cases hwork
      exact hwindow.2.1
  | StopCancelled other | StopFailed other error =>
      cases hwork
      exact hwindow

private theorem window_over {limit count : Nat} {phase : Phase F G} (hover : phase.Over)
    (hchildren : ∀ work, phase.work = some work → work.children.length ≤ limit) :
    phase.Window limit count := by
  cases phase with
  | StopCancelled work | StopFailed work error => exact hchildren work rfl
  | Settling | Gone => trivial
  | Reading | Closing | Draining | Starting | Creating | Waiting => exact hover.elim

/-- A step begins no element, or the next one, and only while the token is not triggered. -/
private def Begins (limit count : Nat) (cancelled : Bool) (world next : World F G) : Prop :=
  world.begins next = none ∧ next.phase.Window limit count ∨
    world.begins next = some count ∧ next.phase.Window limit (count + 1) ∧ cancelled = false

private theorem begins_completed {limit count : Nat} {cancelled : Bool} {left : Work G}
    (hcompleted : Completed limit cancelled left next.phase) (hnext : left.next = count)
    (hchildren : left.children.length ≤ limit)
    (hfresh : ∀ work asked, world.phase = .Creating work asked → work.next ≠ left.next) :
    Begins limit count cancelled world next := by
  obtain ⟨own, triggered, phase, log⟩ := next
  dsimp only at hcompleted
  cases hcompleted with
  | creating asked hmore hroom hquiet =>
      refine Or.inr ⟨?_, ⟨hmore, hroom, by rw [hnext]⟩, hquiet⟩
      unfold begins
      dsimp only
      split
      · rename_i before asked' hphase
        rw [if_neg (hfresh before asked' hphase), hnext]
      · rw [hnext]
  | waiting hsome =>
      exact Or.inl ⟨begins_none fun work asked h => (by cases h), hsome, hchildren, hnext.symm⟩
  | ends hover hkept =>
      refine Or.inl ⟨begins_of_over hover, window_over hover fun work hwork => ?_⟩
      rw [hkept work hwork]
      exact hchildren

private theorem begins_turn {limit count : Nat} {cancelled : Bool}
    (hwindow : world.phase.Window limit count)
    (hturn : Turn limit cancelled world.phase next.phase) :
    Begins limit count cancelled world next := by
  obtain ⟨own, triggered, phase, log⟩ := world
  have hcompletes {left : Work G} := @begins_completed _ _ _ _ ⟨own, triggered, phase, log⟩ next
    limit count cancelled left
  obtain ⟨own', triggered', after, log'⟩ := next
  dsimp only at hwindow hturn hcompletes
  cases hturn with
  | early hbefore hafter =>
      refine Or.inl ⟨begins_none fun work asked hphase => ?_, ?_⟩
      · dsimp only at hphase
        subst hphase
        exact hafter
      · exact (window_early hafter).mpr ((window_early hbefore).mp hwindow)
  | starts states hbefore hcompleted =>
      refine hcompletes hcompleted ((window_early hbefore).mp hwindow).symm (Nat.zero_le _) ?_
      intro work asked hphase
      subst hphase
      exact hbefore.elim
  | ends hover hkept =>
      refine Or.inl ⟨begins_of_over hover, window_over hover fun left hleft => ?_⟩
      obtain ⟨work, hwork, hfewer⟩ := hkept left hleft
      exact hfewer.trans (window_children hwindow hwork)
  | creating work left asked hnext hstates hchildren =>
      obtain ⟨hmore, hroom, hcount⟩ := hwindow
      refine Or.inl ⟨if_pos hnext.symm, ?_, ?_, ?_⟩
      · rw [hnext, hstates]
        exact hmore
      · exact (Nat.succ_le_succ hchildren).trans hroom
      · rw [hnext]
        exact hcount
  | waiting work left hnext hchildren =>
      obtain ⟨hsome, hroom, hcount⟩ := hwindow
      refine Or.inl ⟨begins_none fun work asked hphase => (by cases hphase), ?_, ?_, ?_⟩
      · rw [← List.length_pos_iff, hchildren]
        exact List.length_pos_iff.mpr hsome
      · exact hchildren.le.trans hroom
      · rw [hnext]
        exact hcount
  | goesOn work left hnext hchildren hcompleted =>
      obtain ⟨-, hroom, hcount⟩ := hwindow
      exact hcompletes hcompleted (hnext.trans hcount.symm) (hchildren.trans hroom)
        fun other asked hphase => by cases hphase
  | created work left asked hnext hchildren hcompleted =>
      obtain ⟨-, hroom, hcount⟩ := hwindow
      refine hcompletes hcompleted (hnext.trans hcount.symm) (hchildren.le.trans hroom) ?_
      intro other asked' hphase
      cases hphase
      omega

theorem joined_cancelled {work : Work G} {position now : Nat} {goOn : Work G → World F G}
    (hjoined : world.joined node work position now goOn = some next)
    (hgoOn : ∀ left, (goOn left).cancelled = world.cancelled) :
    next.cancelled = world.cancelled := by
  obtain ⟨⟨received, left⟩, -, hnext⟩ := Option.map_eq_some_iff.mp hjoined
  dsimp only at hnext
  split at hnext
  · rw [← hnext]
    exact hgoOn _
  · rw [← hnext]
    exact (halt_over world _ _).2.1
  · rw [← hnext]
    rfl

theorem created_cancelled (node : MapReduce F G) (world : World F G) (work : Work G)
    (asked : InstanceId) (id : Except Cause InstanceId) (result : Attempt Cause (Core G)) :
    (world.created node work asked id result).cancelled = world.cancelled := by
  rcases result with core | cause | text
  · unfold created
    dsimp only
    split
    · rfl
    · split
      · rfl
      · split
        · rfl
        · exact complete_cancelled node _ _ id
  · rfl
  · rfl

/-- The task leaves the token alone. -/
theorem task_cancelled {choice : Choice G} (hstep : world.task node choice = some next) :
    next.cancelled = world.cancelled := by
  unfold task at hstep
  split at hstep
  case h_1 | h_2 | h_16 | h_19 =>
    split at hstep
    · cases hstep
      rfl
    · cases hstep
  case h_3 =>
    split at hstep
    all_goals
      cases hstep
      rfl
  case h_4 | h_5 | h_20 =>
    cases hstep
    rfl
  case h_6 =>
    split at hstep
    · cases hstep
      rfl
    · split at hstep
      · cases hstep
        rfl
      · cases hstep
        exact complete_cancelled node _ _ _
  case h_7 | h_8 | h_9 | h_10 =>
    split at hstep
    · cases hstep
      exact (halt_over world _ _).2.1
    · cases hstep
  case h_11 | h_12 | h_17 | h_18 =>
    obtain ⟨left, -, rfl⟩ := Option.map_eq_some_iff.mp hstep
    rfl
  case h_13 => exact joined_cancelled hstep fun left => rfl
  case h_14 => exact joined_cancelled hstep fun left => complete_cancelled node world left _
  case h_15 =>
    cases hstep
    exact created_cancelled node world _ _ _ _
  case h_21 =>
    cases hstep
    unfold settle
    dsimp only
    split <;> rfl
  case h_22 => cases hstep

/-- A token that is triggered stays so. -/
theorem step_cancelled {label : Label F G} (hstep : world.step node label = some next)
    (hcancelled : world.cancelled = true) : next.cancelled = true := by
  cases label with
  | Own action =>
      unfold World.step at hstep
      dsimp only at hstep
      split at hstep
      · cases hstep
        exact hcancelled
      · cases hstep
  | Watch key waker =>
      cases hstep
      exact hcancelled
  | Trigger =>
      cases hstep
      rfl
  | Child position action =>
      unfold World.step at hstep
      dsimp only at hstep
      split at hstep
      · obtain ⟨work, -, hnext⟩ := Option.bind_eq_some_iff.mp hstep
        cases hnext
        exact hcancelled
      · cases hstep
  | Listen position waker =>
      obtain ⟨work, -, hlistens⟩ := Option.bind_eq_some_iff.mp hstep
      obtain ⟨child, -, hnext⟩ := Option.bind_eq_some_iff.mp hlistens
      split at hnext
      · cases hnext
      · dsimp only at hnext
        split at hnext
        · cases hnext
          exact hcancelled
        · cases hnext
          exact hcancelled
  | Task choice => exact (task_cancelled hstep).trans hcancelled

/-- In strict mode, a fault that the node reads leaves it over. -/
theorem fault_over {label : Label F G} (hstrict : node.faultMode = .Strict)
    (hfault : world.ReadsFault label) (hstep : world.step node label = some next) :
    next.phase.Over := by
  obtain ⟨position, now, id, work, received, left, error, rfl, hwork, hjoin, hend⟩ := hfault
  have hreceive : left.receive node.faultMode world.cancelled now position received =
      .error (.Fault error) := by
    unfold Work.receive
    rw [hend]
    exact if_neg (by rw [hstrict]; exact FaultMode.noConfusion)
  obtain ⟨own, cancelled, phase, log⟩ := world
  have hjoined (goOn : Work G → World F G) :
      World.joined node ⟨own, cancelled, phase, log⟩ work position now goOn = some next →
        next.phase.Over := by
    intro hnext
    unfold joined at hnext
    rw [hjoin] at hnext
    dsimp only [Option.map_some] at hnext
    rw [hreceive] at hnext
    cases hnext
    trivial
  dsimp only at hwork
  cases phase with
  | Reading | Closing | Draining | Starting | Settling | Gone => cases hwork
  | Creating other asked =>
      cases hwork
      exact hjoined _ hstep
  | Waiting other =>
      cases hwork
      exact hjoined _ hstep
  | StopCancelled other =>
      obtain ⟨⟨received', left'⟩, -, rfl⟩ := Option.map_eq_some_iff.mp hstep
      trivial
  | StopFailed other error' => cases hstep

section Runs

private theorem begun_cons {label : Label F G} (hstep : world.step node label = some next)
    (later : List (Label F G)) :
    world.begun node (label :: later) = (world.begins next).toList ++ next.begun node later := by
  rw [begun, hstep]

/-- A run begins the elements in the order of the list, each once. -/
theorem begun_range {labels : List (Label F G)} {last : World F G} {count : Nat}
    (hwindow : world.phase.Window node.limit count) (hrun : world.run node labels = some last) :
    ∃ more, world.begun node labels = List.range' count more ∧
      last.phase.Window node.limit (count + more) := by
  induction labels generalizing world count with
  | nil =>
      cases hrun
      exact ⟨0, rfl, hwindow⟩
  | cons label later hind =>
      obtain ⟨next, hstep, hlater⟩ := Option.bind_eq_some_iff.mp hrun
      rw [begun_cons hstep]
      rcases begins_turn hwindow (step_turn hstep) with ⟨hnone, hkept⟩ | ⟨hsome, hkept, -⟩
      · obtain ⟨more, hbegun, hlast⟩ := hind hkept hlater
        exact ⟨more, by rw [hnone, hbegun]; rfl, hlast⟩
      · obtain ⟨more, hbegun, hlast⟩ := hind hkept hlater
        refine ⟨more + 1, ?_, ?_⟩
        · rw [hsome, hbegun]
          rfl
        · rw [Nat.add_comm more, ← Nat.add_assoc]
          exact hlast

/-- While the task is over, or its token is triggered, no element is begun. -/
theorem begun_stopped {labels : List (Label F G)} {last : World F G} {count : Nat}
    (hwindow : world.phase.Window node.limit count) (hrun : world.run node labels = some last)
    (hstopped : world.cancelled = true ∨ world.phase.Over) : world.begun node labels = [] := by
  induction labels generalizing world count with
  | nil => rfl
  | cons label later hind =>
      obtain ⟨next, hstep, hlater⟩ := Option.bind_eq_some_iff.mp hrun
      have hturn := step_turn hstep
      rw [begun_cons hstep]
      have hnone : world.begins next = none ∧ ∃ count, next.phase.Window node.limit count := by
        rcases begins_turn hwindow hturn with ⟨hnone, hkept⟩ | ⟨hsome, hkept, hquiet⟩
        · exact ⟨hnone, count, hkept⟩
        · rcases hstopped with hcancelled | hover
          · rw [hcancelled] at hquiet
            cases hquiet
          · exact ⟨begins_of_over (turn_stays hover hturn), count + 1, hkept⟩
      obtain ⟨hnone, count', hkept⟩ := hnone
      rw [hnone]
      exact hind hkept hlater
        (hstopped.imp (step_cancelled hstep) fun hover => turn_stays hover hturn)

theorem run_split {before after : List (Label F G)} {last : World F G}
    (hrun : world.run node (before ++ after) = some last) :
    ∃ seen, world.run node before = some seen ∧ seen.run node after = some last ∧
      world.begun node (before ++ after) = world.begun node before ++ seen.begun node after := by
  induction before generalizing world with
  | nil => exact ⟨world, rfl, hrun, rfl⟩
  | cons label later hind =>
      obtain ⟨next, hstep, hlater⟩ := Option.bind_eq_some_iff.mp hrun
      obtain ⟨seen, hbefore, hafter, hbegun⟩ := hind hlater
      refine ⟨seen, ?_, hafter, ?_⟩
      · unfold run
        rw [hstep]
        exact hbefore
      · rw [List.cons_append, begun_cons hstep, begun_cons hstep, hbegun, List.append_assoc]

end Runs

/-- A child that has received can be taken out of the set. -/
private theorem join_received {work : Work G} {child : Child G}
    (hdistinct : (work.children.map Child.position).Nodup) (hchild : child ∈ work.children)
    (hreceived : child.received ≠ none) : (work.join child.position).isSome = true := by
  obtain ⟨received, hends⟩ := Option.ne_none_iff_exists'.mp hreceived
  have hfound : work.children.find? (·.position == child.position) = some child :=
    Lib.find?_of_mem hdistinct hchild
  unfold Work.join
  rw [hfound]
  dsimp only [Option.bind_eq_bind, Option.bind_some]
  rw [hends]
  rfl

/-- While the task works on its elements an instance is being created, a child is live, or its next
step is to take a child out of the set or to stop. -/
theorem Sound.never_waits (hsound : world.Sound node) {count : Nat} {work : Work G}
    (hwindow : world.phase.Window node.limit count) (hwork : world.phase.work = some work) :
    (∃ asked, world.phase = .Creating work asked) ∨ (∃ child ∈ work.children, child.received = none) ∨
      (∃ position, ∀ now id, (world.task node (.Joined position now id)).isSome = true) ∨
        (world.task node .Shutdown).isSome = true := by
  obtain ⟨base, hlistening⟩ := hsound.listening hwork
  have hchildren : work.children ≠ [] → (∃ child ∈ work.children, child.received = none) ∨
      ∃ position, (work.join position).isSome = true := by
    intro hsome
    obtain ⟨child, hchild⟩ := List.exists_mem_of_ne_nil _ hsome
    by_cases hlive : child.received = none
    · exact Or.inl ⟨child, hchild, hlive⟩
    · exact Or.inr ⟨child.position, join_received hlistening.distinct hchild hlive⟩
  obtain ⟨own, cancelled, phase, log⟩ := world
  dsimp only at hwork hwindow
  cases phase with
  | Reading | Closing | Draining | Starting | Settling | Gone => cases hwork
  | Creating other asked =>
      cases hwork
      exact Or.inl ⟨asked, rfl⟩
  | Waiting other =>
      cases hwork
      rcases hchildren hwindow.1 with hlive | ⟨position, hjoin⟩
      · exact Or.inr (Or.inl hlive)
      · refine Or.inr (Or.inr (Or.inl ⟨position, fun now id => ?_⟩))
        exact Option.isSome_map.trans hjoin
  | StopCancelled other =>
      cases hwork
      by_cases hsome : work.children = []
      · refine Or.inr (Or.inr (Or.inr ?_))
        unfold task
        dsimp only
        rw [hsome]
        rfl
      · rcases hchildren hsome with hlive | ⟨position, hjoin⟩
        · exact Or.inr (Or.inl hlive)
        · refine Or.inr (Or.inr (Or.inl ⟨position, fun now id => ?_⟩))
          exact Option.isSome_map.trans hjoin
  | StopFailed other error => exact Or.inr (Or.inr (Or.inr rfl))

end World

/-- In every run of an instance of the node: the instances of elements that are live or being created
are never more than the limit; the elements are begun in the order of the list, each once, and
the one that is being created is the last one begun; none is begun once the token is triggered, in
strict mode once the node reads a fault, or once it is over; and while it works on its elements the
node never waits for nothing. -/
theorem concurrency_window (node : MapReduce F G) (id : InstanceId) (labels : List (Label F G))
    (world : World F G) (hrun : (World.opening id).run node labels = some world) :
    world.phase.inFlight ≤ node.limit ∧
    (∃ count, (World.opening id).begun node labels = List.range count) ∧
    (∀ work asked, world.phase = .Creating work asked → work.next < work.states.length ∧
      (World.opening id).begun node labels = List.range (work.next + 1)) ∧
    (∀ work, world.phase = .Waiting work →
      (World.opening id).begun node labels = List.range work.next) ∧
    (∀ before label after seen, labels = before ++ label :: after →
      (World.opening id).run node before = some seen →
      seen.cancelled = true ∨ seen.phase.Over ∨ node.faultMode = .Strict ∧ seen.ReadsFault label →
      (World.opening id).begun node labels = (World.opening id).begun node before) ∧
    ∀ work, world.phase.work = some work → (∃ asked, world.phase = .Creating work asked) ∨
      (∃ child ∈ work.children, child.received = none) ∨
      (∃ position, ∀ now id, (world.task node (.Joined position now id)).isSome = true) ∨
      (world.task node .Shutdown).isSome = true := by
  have hopening : (World.opening id : World F G).phase.Window node.limit 0 := rfl
  obtain ⟨count, hbegun, hwindow⟩ := World.begun_range hopening hrun
  rw [Nat.zero_add] at hwindow
  rw [← List.range_eq_range'] at hbegun
  refine ⟨hwindow.inFlight_le, ⟨count, hbegun⟩, ?_, ?_, ?_, fun work hwork => ?_⟩
  · intro work asked hphase
    rw [hphase] at hwindow
    exact ⟨hwindow.1, by rw [hbegun, hwindow.2.2]⟩
  · intro work hphase
    rw [hphase] at hwindow
    rw [hbegun, hwindow.2.2]
  · rintro before label after seen rfl hbefore hstopped
    obtain ⟨seen', hseen, hafter, happend⟩ := World.run_split hrun
    rw [hbefore] at hseen
    cases hseen
    obtain ⟨next, hstep, hlater⟩ := Option.bind_eq_some_iff.mp hafter
    obtain ⟨earlier, -, hkept⟩ := World.begun_range hopening hbefore
    rw [happend]
    rcases hstopped with hcancelled | hover | ⟨hstrict, hfault⟩
    · rw [World.begun_stopped hkept hafter (Or.inl hcancelled), List.append_nil]
    · rw [World.begun_stopped hkept hafter (Or.inr hover), List.append_nil]
    · have hover := World.fault_over hstrict hfault hstep
      have hnext : ∃ count, next.phase.Window node.limit count :=
        (World.begins_turn hkept (World.step_turn hstep)).elim (fun hnone => ⟨_, hnone.2⟩)
          fun hsome => ⟨_, hsome.2.1⟩
      obtain ⟨more, hmore⟩ := hnext
      rw [World.begun_cons hstep, World.begins_of_over hover,
        World.begun_stopped hmore hlater (Or.inr hover)]
      exact List.append_nil _
  · exact ((World.opening_sound node id).run hrun).never_waits hwindow hwork

section Samples

/-- Two elements, one at a time; a fault halts the work. -/
private def narrow : MapReduce Tally Tally where
  name := "narrow"
  map _ := some [⟨1⟩, ⟨2⟩]
  limit := ⟨1, Nat.one_pos⟩
  reduce _ := some (0 : Nat)
  internalSizeLimit := Tally.zero.limit
  faultMode := .Strict

/-- The first element's instance is created, and fails. -/
private def failing : List (Label Tally Tally) :=
  [.Own (.Give ⟨0, Tally.zero⟩), .Task (.Next 0), .Task .Close, .Task .Drain,
    .Task (.Start 0 (.ok 10)), .Task (.Created (.ok (.new 10)) (.ok 11)),
    .Child 0 (.Finish (.Failed (.shows "boom"))), .Listen 0 0]

private def halted : World Tally Tally :=
  ((World.opening 1).run narrow (failing ++ [.Task (.Joined 0 0 (.ok 12))])).get
    (by decide +kernel)

theorem concurrency_window_halted : halted.phase.inFlight ≤ 1 ∧
    ∃ count, (World.opening 1).begun narrow (failing ++ [.Task (.Joined 0 0 (.ok 12))]) =
      List.range count := by
  obtain ⟨hlimit, hcount, -⟩ := concurrency_window narrow 1 _ halted (Option.some_get _).symm
  exact ⟨hlimit, hcount⟩

end Samples

end LlmGraph.Flow
