/- digest: The life of an instance in the observations of a run: created, given inputs, ended, and no
   other instance of its node beside it. -/

import LlmGraph.Executor.Completeness
import LlmGraph.Executor.Results

set_option autoImplicit false
set_option relaxedAutoImplicit false

namespace LlmGraph.Executor

open Contract
open Lib (Throughout throughout_iff)

variable {F : Type} [Fields F]

/-- The instance that is live, or being created. -/
def Live.id : Live F → Option InstanceId
  | .Absent => none
  | .Creating id _ => some id
  | .Running id _ => some id

/-- What lives in the slot of a node. -/
def Run.live (run : Run F) (name : String) : Option (Live F) := (run.slot name).map (·.live)

/-- The instance an observation is about. -/
def Observation.about : Observation → Option InstanceId
  | .InstanceCreated id _ _ _ => some id
  | .InputHandedOver _ id => some id
  | .EventHandled _ id _ => some id
  | _ => none

/-- Entries that start or end no instance and tell nothing about one. -/
def Fact.Still : Fact F → Prop
  | .creating .. => False
  | .handled .. => False
  | .told observation => observation.about = none
  | _ => True

/-- What the end of an instance leaves in the log: it was handled, and an event is told. -/
def endEntries (name : String) (id : InstanceId) :
    Except EventEndError (Event F) → List (Fact F)
  | .ok event => [.told (.EventHandled name id (.of event)), .handled name id (.ok event)]
  | .error error => [.handled name id (.error error)]

/-- What one change does to the instances of a run, and to the entries that tell of them. -/
inductive Turn (run run' : Run F) : Prop
  | quiet (new : List (Fact F)) (hlog : run'.log = new ++ run.log) (hstill : ∀ fact ∈ new, fact.Still)
      (hlive : run'.live = run.live) (hminted : run'.minted = run.minted)
      (hstopping : run.isStopping = true → run'.isStopping = true)
  | create (name : String) (habsent : run.live name = some .Absent)
      (hrunning : run.isStopping = false) (hlog : run'.log = .creating name run.minted :: run.log)
      (hlive : run'.live =
        Function.update run.live name (some (.Creating run.minted run.state)))
      (hminted : run'.minted = run.minted + 1)
  | created (name : String) (id : InstanceId) (input : Shared F) (core : Address)
      (kind subkind : String) (hcreating : run.live name = some (.Creating id input))
      (new : List (Fact F))
      (hlog : run'.log = new ++ .told (.InstanceCreated id name kind subkind) :: run.log)
      (hgiven : new = [] ∨ new = [.told (.InputHandedOver name id), .accepted name id input])
      (hlive : run'.live = Function.update run.live name (some (.Running id core)))
      (hminted : run'.minted = run.minted) (hstopping : run'.isStopping = run.isStopping)
  | give (name : String) (id : InstanceId) (core : Address)
      (halive : run.live name = some (.Running id core))
      (hlog : run'.log =
        .told (.InputHandedOver name id) :: .accepted name id run.state :: run.log)
      (hlive : run'.live = run.live) (hminted : run'.minted = run.minted)
      (hstopping : run'.isStopping = run.isStopping)
  | ended (name : String) (id : InstanceId) (core : Address)
      (result : Except EventEndError (Event F))
      (halive : run.live name = some (.Running id core)) (new : List (Fact F))
      (hlog : run'.log = new ++ endEntries name id result ++ run.log)
      (hstill : ∀ fact ∈ new, fact.Still)
      (hlive : run'.live = Function.update run.live name (some .Absent))
      (hminted : run'.minted = run.minted)
      (hstopping : run.isStopping = true → run'.isStopping = true)
  | lost (name : String) (id : InstanceId) (input : Shared F)
      (hcreating : run.live name = some (.Creating id input)) (new : List (Fact F))
      (hlog : run'.log = new ++ run.log) (hstill : ∀ fact ∈ new, fact.Still)
      (hlive : run'.live = Function.update run.live name (some .Absent))
      (hminted : run'.minted = run.minted) (hstopping : run'.isStopping = true)
  | abandoned (hlog : run'.log = run.log)
      (hlive : ∀ name, run'.live name = (run.live name).map fun _ => .Absent)
      (hminted : run'.minted = run.minted) (hstopping : run'.isStopping = true)

namespace Run

theorem live_eq_some {run : Run F} {name : String} {slot : NodeSlot F}
    (hslot : run.slot name = some slot) : run.live name = some slot.live := by
  rw [live, hslot]
  rfl

/-- A change of a slot that leaves what lives in it. -/
theorem live_change_same (run : Run F) (name : String) (change : NodeSlot F → NodeSlot F)
    (hsame : ∀ slot, (change slot).live = slot.live) : (run.change name change).live = run.live := by
  funext other
  rw [live, slot_change]
  by_cases hother : name = other
  · rw [if_pos hother, Option.map_map]
    have hlive : (fun slot : NodeSlot F => slot.live) ∘ change = (fun slot => slot.live) :=
      funext hsame
    rw [hlive]
    rfl
  · rw [if_neg hother]
    rfl

/-- A change of a slot that sets what lives in it. -/
theorem live_change_set (run : Run F) {name : String} {slot : NodeSlot F}
    (hslot : run.slot name = some slot) (change : NodeSlot F → NodeSlot F) :
    (run.change name change).live =
      Function.update run.live name (some (change slot).live) := by
  funext other
  rw [live, slot_change_at run hslot]
  by_cases hother : name = other
  · subst hother
    rw [if_pos rfl, Function.update_self]
    rfl
  · rw [if_neg hother, Function.update_of_ne (Ne.symm hother)]
    rfl

theorem live_holdAll (run : Run F) (names : List String) : (run.holdAll names).live = run.live := by
  funext other
  rw [live, slot_holdAll, Option.map_map]
  have hlive : (fun slot : NodeSlot F => slot.live) ∘
      (fun slot => if other ∈ names then slot.hold else slot) = (fun slot => slot.live) := by
    funext slot
    by_cases hmem : other ∈ names
    · simp only [Function.comp, hmem, if_true, NodeSlot.hold]
    · simp only [Function.comp, hmem, if_false]
  rw [hlive]
  rfl

theorem live_fail (run : Run F) (triggered : Bool) (deadline : Nat) (failure : RunFailure) :
    (run.fail triggered deadline failure).live = run.live := by
  funext other
  rw [live, slot_fail]
  rfl

/-- What a recorded failure adds to the log. -/
theorem fail_log (run : Run F) (triggered : Bool) (deadline : Nat) (failure : RunFailure) :
    ∃ new, (run.fail triggered deadline failure).log = new ++ run.log ∧
      ∀ fact ∈ new, fact.Still := by
  rw [fail]
  split
  · refine ⟨[.failed failure triggered], rfl, ?_⟩
    intro fact hfact
    rw [List.mem_singleton.mp hfact]
    trivial
  · refine ⟨[.stopped _, .failed failure triggered], rfl, ?_⟩
    intro fact hfact
    rcases List.mem_cons.mp hfact with rfl | hlast
    · trivial
    · rw [List.mem_singleton.mp hlast]
      trivial

theorem ending_log (run : Run F) (name : String) (id : InstanceId)
    (result : Except EventEndError (Event F)) :
    (run.ending name id result).log = endEntries name id result ++ run.log := by
  cases result with
  | error error => rfl
  | ok event => rfl

theorem live_ending (run : Run F) {name : String} {slot : NodeSlot F}
    (hslot : run.slot name = some slot) (id : InstanceId)
    (result : Except EventEndError (Event F)) :
    (run.ending name id result).live = Function.update run.live name (some .Absent) := by
  have hended := run.live_change_set hslot (·.endInstance)
  cases result with
  | error error => exact hended
  | ok event => exact hended

/-- What the stop by the host adds to the log. -/
theorem stopByHost_log (run : Run F) (deadline : Nat) :
    ∃ new, (run.stopByHost deadline).log = new ++ run.log ∧ ∀ fact ∈ new, fact.Still := by
  rw [stopByHost]
  split
  · exact ⟨[], rfl, by simp⟩
  · refine ⟨[.stopped .Host], rfl, ?_⟩
    intro fact hfact
    rw [List.mem_singleton.mp hfact]
    trivial

theorem live_stopByHost (run : Run F) (deadline : Nat) :
    (run.stopByHost deadline).live = run.live := by
  rw [stopByHost]
  split
  · rfl
  · rfl

theorem stopByHost_minted (run : Run F) (deadline : Nat) :
    (run.stopByHost deadline).minted = run.minted := by
  rw [stopByHost]
  split
  · rfl
  · rfl

theorem stopByHost_isStopping (run : Run F) (deadline : Nat) :
    (run.stopByHost deadline).isStopping = true := by
  rw [stopByHost]
  split
  · assumption
  · rfl

end Run

theorem Effect.turn {origin : Origin} {triggered : Bool} {run run' : Run F}
    (hchange : Effect origin triggered run run') : Turn run run' := by
  have hstill : ∀ fact : Fact F, fact.Still → ∀ other ∈ [fact], other.Still := by
    intro fact hfact other hother
    rw [List.mem_singleton.mp hother]
    exact hfact
  cases hchange with
  | idle => exact .quiet [] rfl (by simp) rfl rfl id
  | stop deadline => exact .quiet [.stopped .Host] rfl (hstill _ trivial) rfl rfl fun _ => rfl
  | create name slot hslot habsent hheld hrunning =>
    refine .create name ?_ hrunning rfl ?_ rfl
    · rw [Run.live_eq_some hslot, habsent]
    · exact ({ run with minted := run.minted + 1 } : Run F).live_change_set hslot
        fun slot => slot.release.beginCreating run.minted run.state
  | notMinted name slot reason deadline hslot =>
    obtain ⟨new, hlog, hnew⟩ := (run.change name (·.leaveUntaken)).fail_log triggered deadline
      (.NodeCouldNotStart name reason none)
    refine .quiet new hlog hnew ?_ (fail_minted _ _ _ _) fun _ => fail_isStopping _ _ _ _
    rw [Run.live_fail]
    exact run.live_change_same name (·.leaveUntaken) fun _ => rfl
  | created name slot id firstInput core hslot hcreating =>
    refine .created name id firstInput core slot.kind slot.subkind ?_
      [.told (.InputHandedOver name id), .accepted name id firstInput] rfl (.inr rfl) ?_ rfl rfl
    · rw [Run.live_eq_some hslot, hcreating]
    · exact run.live_change_set hslot (·.becomeRunning id core)
  | createdShut name slot id firstInput core hslot hcreating =>
    refine .created name id firstInput core slot.kind slot.subkind ?_ [] rfl (.inl rfl) ?_ rfl rfl
    · rw [Run.live_eq_some hslot, hcreating]
    · have hheld := (run.instanceCreated name id core slot).live_change_same name (·.hold)
        fun _ => rfl
      rw [hheld]
      exact run.live_change_set hslot (·.becomeRunning id core)
  | notCreated name slot id firstInput reason cause deadline hslot hcreating =>
    obtain ⟨new, hlog, hnew⟩ :=
      ((run.change name (·.endInstance.hold)).change name (·.leaveUntaken)).fail_log triggered
        deadline (.NodeCouldNotStart name reason cause)
    refine .lost name id firstInput ?_ new hlog hnew ?_ (fail_minted _ _ _ _)
      (fail_isStopping _ _ _ _)
    · rw [Run.live_eq_some hslot, hcreating]
    · rw [Run.live_fail]
      have huntaken := (run.change name (·.endInstance.hold)).live_change_same name
        (·.leaveUntaken) fun _ => rfl
      rw [huntaken]
      exact run.live_change_set hslot (·.endInstance.hold)
  | give name slot id core hslot halive =>
    refine .give name id core ?_ rfl ?_ rfl rfl
    · rw [Run.live_eq_some hslot, halive]
    · exact (run.accept name id run.state).live_change_same name (·.release) fun _ => rfl
  | fail name slot id core result failure deadline hslot halive =>
    obtain ⟨new, hlog, hnew⟩ :=
      ((run.ending name id result).change name (·.leaveUntaken)).fail_log triggered deadline failure
    refine .ended name id core result ?_ new ?_ hnew ?_ ?_ fun _ => fail_isStopping _ _ _ _
    · rw [Run.live_eq_some hslot, halive]
    · have hended := run.ending_log name id result
      rw [hlog, List.append_assoc, ← hended]
      rfl
    · rw [Run.live_fail]
      have huntaken := (run.ending name id result).live_change_same name (·.leaveUntaken)
        fun _ => rfl
      rw [huntaken]
      exact run.live_ending hslot id result
    · exact (fail_minted _ _ _ _).trans (ending_minted _ _ _ _)
  | cancel name slot id core deadline hslot halive =>
    obtain ⟨new, hlog, hnew⟩ :=
      ((run.ending name id (.ok .Cancelled)).change name (·.leaveUntaken)).stopByHost_log deadline
    refine .ended name id core (.ok .Cancelled) ?_ new ?_ hnew ?_ ?_
      fun _ => Run.stopByHost_isStopping _ _
    · rw [Run.live_eq_some hslot, halive]
    · rw [hlog, List.append_assoc]
      rfl
    · rw [Run.live_stopByHost]
      have huntaken := (run.ending name id (.ok .Cancelled)).live_change_same name
        (·.leaveUntaken) fun _ => rfl
      rw [huntaken]
      exact run.live_ending hslot id (.ok .Cancelled)
    · rw [Run.stopByHost_minted]
      rfl
  | apply name slot id core update newState targets now later hslot halive =>
    refine .ended name id core (.ok (.Result update)) ?_
      [.told (.EdgeEvaluated name targets), .told (.UpdateApplied name),
        .applied name id update ⟨run.state.step + 1, newState⟩ targets] ?_ ?_ ?_ ?_ ?_
    · rw [Run.live_eq_some hslot, halive]
    · rw [Run.step, Run.holdAll_log]
      rfl
    · intro fact hfact
      simp only [List.mem_cons, List.not_mem_nil, or_false] at hfact
      rcases hfact with rfl | rfl | rfl
      · rfl
      · rfl
      · trivial
    · rw [Run.step, Run.live_holdAll]
      exact run.live_ending hslot id (.ok (.Result update))
    · rw [Run.step, Run.holdAll_minted]
      rfl
    · intro hstopping
      simp only [Run.isStopping, Run.step, Run.holdAll_phase]
      exact hstopping
  | offer now checkpoint => exact .quiet [.offered checkpoint] rfl (hstill _ trivial) rfl rfl id
  | sinkFailed failure deadline =>
    obtain ⟨new, hlog, hnew⟩ := run.fail_log triggered deadline failure
    exact .quiet new hlog hnew (run.live_fail _ _ _) (fail_minted _ _ _ _)
      fun _ => fail_isStopping _ _ _ _
  | abandon hstopping =>
    refine .abandoned rfl ?_ rfl hstopping
    intro name
    rw [Run.live, Run.slot_abandonAllLive, Option.map_map, Run.live, Option.map_map]
    congr 1
    funext slot
    by_cases hlive : slot.isLive = true
    · simp [hlive, NodeSlot.abandon, NodeSlot.endInstance, NodeSlot.leaveUntaken]
    · have habsent : slot.live = .Absent := by
        by_contra hsome
        exact hlive ((NodeSlot.isLive_iff slot).mpr hsome)
      simp [hlive, habsent]
  | conclude kind outcome =>
    refine .quiet [.concluded outcome, .told (.Outcome kind)] rfl ?_ rfl rfl id
    intro fact hfact
    rcases List.mem_cons.mp hfact with rfl | hlast
    · trivial
    · rw [List.mem_singleton.mp hlast]
      rfl

/-! What the log tells of one instance. -/

/-- The observation of an entry, when it is about the instance. -/
def Fact.observed (id : InstanceId) : Fact F → Option Observation
  | .told observation => if observation.about = some id then some observation else none
  | _ => none

/-- The observations about an instance, in the order they were told. -/
def observationsOf (id : InstanceId) (log : List (Fact F)) : List Observation :=
  (log.filterMap (Fact.observed id)).reverse

/-- An instance was created and given some inputs. -/
def Opened (name : String) (id : InstanceId) (told : List Observation) : Prop :=
  ∃ kind subkind given,
    told = .InstanceCreated id name kind subkind :: List.replicate given (.InputHandedOver name id)

/-- An instance was not created yet, was created and given some inputs, or has ended after that. -/
def Lifetime (name : String) (id : InstanceId) (told : List Observation) : Prop :=
  told = [] ∨ Opened name id told ∨
    ∃ opened event, Opened name id opened ∧ told = opened ++ [.EventHandled name id event]

/-- The end of an instance of the node was handled. -/
def Handled (log : List (Fact F)) (name : String) (id : InstanceId) : Prop :=
  ∃ result, .handled name id result ∈ log

theorem Opened.give {name : String} {id : InstanceId} {told : List Observation}
    (hopened : Opened name id told) : Opened name id (told ++ [.InputHandedOver name id]) := by
  obtain ⟨kind, subkind, given, rfl⟩ := hopened
  refine ⟨kind, subkind, given + 1, ?_⟩
  rw [List.replicate_succ', List.cons_append]

section Observations

variable (id : InstanceId) (log : List (Fact F))

theorem observationsOf_own {observation : Observation} (habout : observation.about = some id) :
    observationsOf id (.told observation :: log) = observationsOf id log ++ [observation] := by
  simp [observationsOf, Fact.observed, habout]

theorem observationsOf_other {observation : Observation} (habout : observation.about ≠ some id) :
    observationsOf id (.told observation :: log) = observationsOf id log := by
  simp [observationsOf, Fact.observed, habout]

theorem observationsOf_still {new : List (Fact F)} (hnew : ∀ fact ∈ new, fact.Still) :
    observationsOf id (new ++ log) = observationsOf id log := by
  have hnone : new.filterMap (Fact.observed id) = [] := by
    rw [List.filterMap_eq_nil_iff]
    intro fact hfact
    have hstill := hnew fact hfact
    cases fact with
    | told observation =>
      have hother : observation.about ≠ some id := by
        rw [show observation.about = none from hstill]
        simp
      exact if_neg hother
    | _ => rfl
  rw [observationsOf, List.filterMap_append, hnone, List.nil_append, observationsOf]

theorem observationsOf_end_other {name : String} {other : InstanceId} (hother : other ≠ id)
    (result : Except EventEndError (Event F)) :
    observationsOf id (endEntries name other result ++ log) = observationsOf id log := by
  cases result with
  | error error => rfl
  | ok event =>
    have habout : (Observation.EventHandled name other (.of event)).about ≠ some id :=
      fun heq => hother (Option.some.inj heq)
    exact observationsOf_other id (.handled name other (.ok event) :: log) habout

end Observations

theorem mem_still {new log : List (Fact F)} (hnew : ∀ fact ∈ new, fact.Still) {fact : Fact F}
    (hloud : ¬fact.Still) : fact ∈ new ++ log ↔ fact ∈ log := by
  rw [List.mem_append]
  constructor
  · rintro (hfirst | hlast)
    · exact absurd (hnew fact hfirst) hloud
    · exact hlast
  · exact .inr

/-- An instance is begun, and created, only when those of its node before it have ended. -/
def Apart : Fact F → List (Fact F) → Prop
  | .creating name _, past => ∀ other, .creating name other ∈ past → Handled past name other
  | .told (.InstanceCreated id name _ _), past => ∀ other kind subkind,
      .told (.InstanceCreated other name kind subkind) ∈ past →
        other ≠ id ∧ Handled past name other
  | _, _ => True

theorem apart_of_still {fact : Fact F} (hstill : fact.Still) (past : List (Fact F)) :
    Apart fact past := by
  cases fact with
  | creating => cases hstill
  | told observation =>
    cases observation with
    | InstanceCreated => cases hstill
    | _ => trivial
  | _ => trivial

/-- The lives of the instances of a run, as its log tells them. -/
structure Lifetimes (run : Run F) : Prop where
  fresh : ∀ id, run.minted ≤ id →
    observationsOf id run.log = [] ∧ ∀ name, .creating name id ∉ run.log
  one : ∀ id name other, .creating name id ∈ run.log → .creating other id ∈ run.log → name = other
  begun : ∀ id name kind subkind, .told (.InstanceCreated id name kind subkind) ∈ run.log →
    .creating name id ∈ run.log
  mine : ∀ name live id, run.live name = some live → live.id = some id →
    .creating name id ∈ run.log
  unborn : ∀ name id input, run.live name = some (.Creating id input) →
    observationsOf id run.log = []
  opened : ∀ name id core, run.live name = some (.Running id core) →
    Opened name id (observationsOf id run.log)
  whole : ∀ id, ∃ name, Lifetime name id (observationsOf id run.log)
  before : ∀ name live, run.live name = some live → ∀ id, .creating name id ∈ run.log →
    live.id = some id ∨ Handled run.log name id ∨ (live = .Absent ∧ run.isStopping = true)
  apart : Throughout Apart run.log

namespace Lifetimes

variable {run run' : Run F}

/-- A live instance has one node. -/
theorem name_of_id (hlives : Lifetimes run) {name other : String} {live live' : Live F}
    {id : InstanceId} (hname : run.live name = some live) (hid : live.id = some id)
    (hother : run.live other = some live') (hid' : live'.id = some id) : other = name :=
  hlives.one id other name (hlives.mine other live' id hother hid')
    (hlives.mine name live id hname hid)

/-- The id of a live instance was minted by the run. -/
theorem minted_of_id (hlives : Lifetimes run) {name : String} {live : Live F} {id : InstanceId}
    (hname : run.live name = some live) (hid : live.id = some id) : id < run.minted := by
  by_contra hlate
  exact (hlives.fresh id (not_lt.mp hlate)).2 name (hlives.mine name live id hname hid)

/-- Entries that tell of no instance, and slots that are left or emptied for good. -/
theorem calm (hlives : Lifetimes run) {new : List (Fact F)} (hlog : run'.log = new ++ run.log)
    (hnew : ∀ fact ∈ new, fact.Still) (hminted : run'.minted = run.minted)
    (hstopping : run.isStopping = true → run'.isStopping = true)
    (hlive : ∀ name live, run'.live name = some live → run.live name = some live ∨
      (live = .Absent ∧ run'.isStopping = true ∧ ∃ old, run.live name = some old)) :
    Lifetimes run' := by
  have hobserved : ∀ id, observationsOf id run'.log = observationsOf id run.log := by
    intro id
    rw [hlog]
    exact observationsOf_still id run.log hnew
  have hcreating : ∀ name id, .creating name id ∈ run'.log ↔ .creating name id ∈ run.log := by
    intro name id
    rw [hlog]
    exact mem_still hnew fun hstill => hstill
  refine ⟨?_, ?_, ?_, ?_, ?_, ?_, ?_, ?_, ?_⟩
  · intro id hid
    rw [hminted] at hid
    obtain ⟨hnone, hunbegun⟩ := hlives.fresh id hid
    exact ⟨(hobserved id).trans hnone, fun name hmem => hunbegun name ((hcreating name id).mp hmem)⟩
  · intro id name other hname hother
    exact hlives.one id name other ((hcreating _ _).mp hname) ((hcreating _ _).mp hother)
  · intro id name kind subkind hmem
    rw [hlog, mem_still hnew (by simp [Fact.Still, Observation.about])] at hmem
    exact (hcreating name id).mpr (hlives.begun id name kind subkind hmem)
  · intro name live id hname hid
    rw [hcreating]
    rcases hlive name live hname with hsame | ⟨rfl, -⟩
    · exact hlives.mine name live id hsame hid
    · cases hid
  · intro name id input hname
    rw [hobserved]
    rcases hlive name _ hname with hsame | ⟨habsent, -⟩
    · exact hlives.unborn name id input hsame
    · cases habsent
  · intro name id core hname
    rw [hobserved]
    rcases hlive name _ hname with hsame | ⟨habsent, -⟩
    · exact hlives.opened name id core hsame
    · cases habsent
  · intro id
    rw [hobserved]
    exact hlives.whole id
  · intro name live hname id hmem
    have hhandled : Handled run.log name id → Handled run'.log name id := by
      rintro ⟨result, hresult⟩
      exact ⟨result, hlog ▸ List.mem_append_right new hresult⟩
    rcases hlive name live hname with hsame | ⟨rfl, hstopped, -⟩
    · rcases hlives.before name live hsame id ((hcreating _ _).mp hmem) with hown | hended | hover
      · exact .inl hown
      · exact .inr (.inl (hhandled hended))
      · exact .inr (.inr ⟨hover.1, hstopping hover.2⟩)
    · exact .inr (.inr ⟨rfl, hstopped⟩)
  · rw [hlog]
    refine Lib.throughout_append hlives.apart ?_
    rintro front entry back rfl
    exact apart_of_still (hnew entry (by simp)) _

/-- The creation of an instance where none is. -/
theorem create (hlives : Lifetimes run) {name : String} {input : Shared F}
    (habsent : run.live name = some .Absent) (hrunning : run.isStopping = false)
    (hlog : run'.log = .creating name run.minted :: run.log)
    (hlive : run'.live = Function.update run.live name (some (.Creating run.minted input)))
    (hminted : run'.minted = run.minted + 1) : Lifetimes run' := by
  obtain ⟨hunobserved, hunbegun⟩ := hlives.fresh run.minted (by omega)
  have hobserved : ∀ id, observationsOf id run'.log = observationsOf id run.log := by
    intro id
    rw [hlog]
    rfl
  have hended : ∀ id, .creating name id ∈ run.log → Handled run.log name id := by
    intro id hmem
    rcases hlives.before name .Absent habsent id hmem with hown | hhandled | hover
    · cases hown
    · exact hhandled
    · rw [hrunning] at hover
      cases hover.2
  refine ⟨?_, ?_, ?_, ?_, ?_, ?_, ?_, ?_, ?_⟩
  · intro id hid
    rw [hminted] at hid
    obtain ⟨hnone, hfresh⟩ := hlives.fresh id (by omega)
    refine ⟨(hobserved id).trans hnone, ?_⟩
    intro other hmem
    rw [hlog, List.mem_cons, Fact.creating.injEq] at hmem
    rcases hmem with ⟨-, rfl⟩ | hmem
    · omega
    · exact hfresh other hmem
  · intro id first second hfirst hsecond
    rw [hlog, List.mem_cons, Fact.creating.injEq] at hfirst hsecond
    rcases hfirst with ⟨rfl, rfl⟩ | hfirst
    · rcases hsecond with ⟨rfl, -⟩ | hsecond
      · rfl
      · exact absurd hsecond (hunbegun second)
    · rcases hsecond with ⟨rfl, rfl⟩ | hsecond
      · exact absurd hfirst (hunbegun first)
      · exact hlives.one id first second hfirst hsecond
  · intro id other kind subkind hmem
    rw [hlog] at hmem ⊢
    rcases List.mem_cons.mp hmem with heq | hmem
    · cases heq
    · exact List.mem_cons_of_mem _ (hlives.begun id other kind subkind hmem)
  · intro other live id hother hid
    rw [hlive] at hother
    rw [hlog]
    by_cases hname : other = name
    · subst hname
      rw [Function.update_self] at hother
      cases hother
      cases hid
      exact List.mem_cons_self
    · rw [Function.update_of_ne hname] at hother
      exact List.mem_cons_of_mem _ (hlives.mine other live id hother hid)
  · intro other id given hother
    rw [hlive] at hother
    rw [hobserved]
    by_cases hname : other = name
    · subst hname
      rw [Function.update_self] at hother
      cases hother
      exact hunobserved
    · rw [Function.update_of_ne hname] at hother
      exact hlives.unborn other id given hother
  · intro other id core hother
    rw [hlive] at hother
    rw [hobserved]
    by_cases hname : other = name
    · subst hname
      rw [Function.update_self] at hother
      cases hother
    · rw [Function.update_of_ne hname] at hother
      exact hlives.opened other id core hother
  · intro id
    rw [hobserved]
    exact hlives.whole id
  · intro other live hother id hmem
    have hhandled : Handled run.log other id → Handled run'.log other id := by
      rintro ⟨result, hresult⟩
      exact ⟨result, hlog ▸ List.mem_cons_of_mem _ hresult⟩
    rw [hlog, List.mem_cons, Fact.creating.injEq] at hmem
    rw [hlive] at hother
    by_cases hname : other = name
    · subst hname
      rw [Function.update_self] at hother
      cases hother
      rcases hmem with ⟨-, rfl⟩ | hmem
      · exact .inl rfl
      · exact .inr (.inl (hhandled (hended id hmem)))
    · rw [Function.update_of_ne hname] at hother
      rcases hmem with ⟨rfl, -⟩ | hmem
      · exact absurd rfl hname
      · rcases hlives.before other live hother id hmem with hown | hdone | hover
        · exact .inl hown
        · exact .inr (.inl (hhandled hdone))
        · rw [hrunning] at hover
          cases hover.2
  · rw [hlog]
    exact ⟨hended, hlives.apart⟩

/-- A change in the life of one instance: what its log tells of it then is still a life. -/
theorem advance (hlives : Lifetimes run) {name : String} {id : InstanceId} {old live : Live F}
    (hold : run.live name = some old) (hid : old.id = some id)
    (hlive : run'.live = Function.update run.live name (some live))
    (hnow : (∃ core, live = .Running id core) ∨ (live = .Absent ∧ Handled run'.log name id))
    (hlater : ∀ fact ∈ run.log, fact ∈ run'.log)
    (hcreating : ∀ node begun, .creating node begun ∈ run'.log → .creating node begun ∈ run.log)
    (hbegun : ∀ begun node kind subkind,
      .told (.InstanceCreated begun node kind subkind) ∈ run'.log →
        begun = id ∧ node = name ∨ .told (.InstanceCreated begun node kind subkind) ∈ run.log)
    (hother : ∀ other, other ≠ id → observationsOf other run'.log = observationsOf other run.log)
    (hopened : ∀ core, live = .Running id core → Opened name id (observationsOf id run'.log))
    (hwhole : Lifetime name id (observationsOf id run'.log)) (hminted : run'.minted = run.minted)
    (hstopping : run.isStopping = true → run'.isStopping = true)
    (hapart : Throughout Apart run'.log) : Lifetimes run' := by
  have hnode : ∀ node found, run'.live node = some found →
      (node = name ∧ found = live) ∨ (node ≠ name ∧ run.live node = some found) := by
    intro node found hfound
    rw [hlive] at hfound
    by_cases hname : node = name
    · subst hname
      rw [Function.update_self, Option.some.injEq] at hfound
      exact .inl ⟨rfl, hfound.symm⟩
    · rw [Function.update_of_ne hname] at hfound
      exact .inr ⟨hname, hfound⟩
  have hne : ∀ node found begun, node ≠ name → run.live node = some found →
      found.id = some begun → begun ≠ id := by
    rintro node found begun hname hfound hown rfl
    exact hname (hlives.name_of_id hold hid hfound hown)
  refine ⟨?_, ?_, ?_, ?_, ?_, ?_, ?_, ?_, hapart⟩
  · intro other hle
    rw [hminted] at hle
    have hapart : other ≠ id := by
      rintro rfl
      exact absurd (hlives.minted_of_id hold hid) (not_lt.mpr hle)
    obtain ⟨hnone, hunbegun⟩ := hlives.fresh other hle
    exact ⟨(hother other hapart).trans hnone,
      fun node hmem => hunbegun node (hcreating node other hmem)⟩
  · intro begun first second hfirst hsecond
    exact hlives.one begun first second (hcreating _ _ hfirst) (hcreating _ _ hsecond)
  · intro begun node kind subkind htold
    apply hlater
    rcases hbegun begun node kind subkind htold with ⟨rfl, rfl⟩ | hmem
    · exact hlives.mine node old begun hold hid
    · exact hlives.begun begun node kind subkind hmem
  · intro node found begun hfound hown
    apply hlater
    rcases hnode node found hfound with ⟨rfl, rfl⟩ | ⟨-, hsame⟩
    · rcases hnow with ⟨core, rfl⟩ | ⟨rfl, -⟩
      · cases hown
        exact hlives.mine node old id hold hid
      · cases hown
    · exact hlives.mine node found begun hsame hown
  · intro node begun given hfound
    rcases hnode node _ hfound with ⟨rfl, rfl⟩ | ⟨hname, hsame⟩
    · rcases hnow with ⟨core, hrunning⟩ | ⟨habsent, -⟩
      · cases hrunning
      · cases habsent
    · rw [hother begun (hne node _ begun hname hsame rfl)]
      exact hlives.unborn node begun given hsame
  · intro node begun core hfound
    rcases hnode node _ hfound with ⟨rfl, rfl⟩ | ⟨hname, hsame⟩
    · rcases hnow with ⟨place, hrunning⟩ | ⟨habsent, -⟩
      · cases hrunning
        exact hopened core rfl
      · cases habsent
    · rw [hother begun (hne node _ begun hname hsame rfl)]
      exact hlives.opened node begun core hsame
  · intro begun
    by_cases hown : begun = id
    · subst hown
      exact ⟨name, hwhole⟩
    · rw [hother begun hown]
      exact hlives.whole begun
  · intro node found hfound begun hmem
    have hdone : Handled run.log node begun → Handled run'.log node begun :=
      fun ⟨result, hresult⟩ => ⟨result, hlater _ hresult⟩
    rcases hnode node found hfound with ⟨rfl, rfl⟩ | ⟨-, hsame⟩
    · rcases hlives.before node old hold begun (hcreating _ _ hmem) with hmine | hhandled | hover
      · rw [hid, Option.some.injEq] at hmine
        subst hmine
        rcases hnow with ⟨core, rfl⟩ | ⟨-, hhandled⟩
        · exact .inl rfl
        · exact .inr (.inl hhandled)
      · exact .inr (.inl (hdone hhandled))
      · rw [hover.1] at hid
        cases hid
    · rcases hlives.before node found hsame begun (hcreating _ _ hmem) with hmine | hhandled | hover
      · exact .inl hmine
      · exact .inr (.inl (hdone hhandled))
      · exact .inr (.inr ⟨hover.1, hstopping hover.2⟩)

/-- The instance that was being created is there, and its first input was accepted or not. -/
theorem created (hlives : Lifetimes run) {name kind subkind : String} {id : InstanceId}
    {input : Shared F} {core : Address} {new : List (Fact F)}
    (hcreating : run.live name = some (.Creating id input))
    (hlog : run'.log = new ++ .told (.InstanceCreated id name kind subkind) :: run.log)
    (hgiven : new = [] ∨ new = [.told (.InputHandedOver name id), .accepted name id input])
    (hlive : run'.live = Function.update run.live name (some (.Running id core)))
    (hminted : run'.minted = run.minted) (hstopping : run'.isStopping = run.isStopping) :
    Lifetimes run' := by
  have hunborn := hlives.unborn name id input hcreating
  have hown : Opened name id (observationsOf id run'.log) := by
    have hfirst : observationsOf id (.told (.InstanceCreated id name kind subkind) :: run.log) =
        [.InstanceCreated id name kind subkind] := by
      rw [observationsOf_own id run.log rfl, hunborn]
      rfl
    rw [hlog]
    rcases hgiven with rfl | rfl
    · exact ⟨kind, subkind, 0, hfirst⟩
    · have hopened : Opened name id (observationsOf id (.accepted name id input ::
          .told (.InstanceCreated id name kind subkind) :: run.log)) :=
        ⟨kind, subkind, 0, hfirst⟩
      have htold := hopened.give
      rw [← observationsOf_own id (.accepted name id input ::
        .told (.InstanceCreated id name kind subkind) :: run.log) rfl] at htold
      exact htold
  have hother : ∀ other, other ≠ id →
      observationsOf other run'.log = observationsOf other run.log := by
    intro other hne
    have hapart : some id ≠ some other := fun heq => hne (Option.some.inj heq).symm
    have hfirst : observationsOf other (.told (.InstanceCreated id name kind subkind) ::
        run.log) = observationsOf other run.log := observationsOf_other other run.log hapart
    rw [hlog]
    rcases hgiven with rfl | rfl
    · exact hfirst
    · have hsecond : observationsOf other (.told (.InputHandedOver name id) ::
          .accepted name id input :: .told (.InstanceCreated id name kind subkind) :: run.log) =
            observationsOf other (.accepted name id input ::
              .told (.InstanceCreated id name kind subkind) :: run.log) :=
        observationsOf_other other _ hapart
      exact hsecond.trans hfirst
  refine hlives.advance hcreating rfl hlive (.inl ⟨core, rfl⟩) ?_ ?_ ?_ hother (fun _ _ => hown)
    (.inr (.inl hown)) hminted (fun hstopped => hstopping.trans hstopped) ?_
  · intro fact hfact
    rw [hlog]
    exact List.mem_append_right _ (List.mem_cons_of_mem _ hfact)
  · intro node begun hmem
    rw [hlog] at hmem
    rcases hgiven with rfl | rfl
    · simpa using hmem
    · simpa using hmem
  · intro begun node kind' subkind' htold
    rw [hlog] at htold
    rcases hgiven with rfl | rfl
    · simp only [List.nil_append, List.mem_cons, Fact.told.injEq,
        Observation.InstanceCreated.injEq] at htold
      tauto
    · simp only [List.cons_append, List.nil_append, List.mem_cons, Fact.told.injEq,
        Observation.InstanceCreated.injEq, reduceCtorEq, false_or] at htold
      tauto
  · have hfirst : Throughout Apart
        (.told (.InstanceCreated id name kind subkind) :: run.log) := by
      refine ⟨?_, hlives.apart⟩
      intro other kind' subkind' htold
      have hne : other ≠ id := by
        rintro rfl
        have hobserved : .InstanceCreated other name kind' subkind' ∈
            observationsOf other run.log := by
          rw [observationsOf, List.mem_reverse, List.mem_filterMap]
          exact ⟨_, htold, if_pos rfl⟩
        rw [hunborn] at hobserved
        cases hobserved
      have hbegun := hlives.begun other name kind' subkind' htold
      rcases hlives.before name _ hcreating other hbegun with hmine | hdone | hover
      · exact absurd (Option.some.inj hmine).symm hne
      · exact ⟨hne, hdone⟩
      · cases hover.1
    rw [hlog]
    rcases hgiven with rfl | rfl
    · exact hfirst
    · exact ⟨trivial, trivial, hfirst⟩

/-- A running instance is given one more input. -/
theorem give (hlives : Lifetimes run) {name : String} {id : InstanceId} {core : Address}
    {input : Shared F} (halive : run.live name = some (.Running id core))
    (hlog : run'.log = .told (.InputHandedOver name id) :: .accepted name id input :: run.log)
    (hlive : run'.live = run.live) (hminted : run'.minted = run.minted)
    (hstopping : run'.isStopping = run.isStopping) : Lifetimes run' := by
  have hsame : run'.live = Function.update run.live name (some (.Running id core)) := by
    rw [hlive, ← halive, Function.update_eq_self]
  have hown : Opened name id (observationsOf id run'.log) := by
    have hgiven := (hlives.opened name id core halive).give
    rw [hlog, observationsOf_own id (.accepted name id input :: run.log) rfl]
    exact hgiven
  refine hlives.advance halive rfl hsame (.inl ⟨core, rfl⟩) ?_ ?_ ?_ ?_ (fun _ _ => hown)
    (.inr (.inl hown)) hminted (fun hstopped => hstopping.trans hstopped) ?_
  · intro fact hfact
    rw [hlog]
    exact List.mem_cons_of_mem _ (List.mem_cons_of_mem _ hfact)
  · intro node begun hmem
    rw [hlog] at hmem
    simpa using hmem
  · intro begun node kind subkind htold
    rw [hlog] at htold
    exact .inr (by simpa using htold)
  · intro other hne
    have hapart : some id ≠ some other := fun heq => hne (Option.some.inj heq).symm
    rw [hlog]
    exact observationsOf_other other (.accepted name id input :: run.log) hapart
  · rw [hlog]
    exact ⟨trivial, trivial, hlives.apart⟩

/-- A running instance has ended. -/
theorem ended (hlives : Lifetimes run) {name : String} {id : InstanceId} {core : Address}
    {result : Except EventEndError (Event F)} {new : List (Fact F)}
    (halive : run.live name = some (.Running id core))
    (hlog : run'.log = new ++ endEntries name id result ++ run.log)
    (hnew : ∀ fact ∈ new, fact.Still)
    (hlive : run'.live = Function.update run.live name (some .Absent))
    (hminted : run'.minted = run.minted)
    (hstopping : run.isStopping = true → run'.isStopping = true) : Lifetimes run' := by
  have hopened := hlives.opened name id core halive
  rw [List.append_assoc] at hlog
  have hwhole : Lifetime name id (observationsOf id run'.log) := by
    rw [hlog, observationsOf_still _ _ hnew]
    cases result with
    | error error => exact .inr (.inl hopened)
    | ok event =>
      refine .inr (.inr ⟨observationsOf id run.log, .of event, hopened, ?_⟩)
      exact observationsOf_own id (.handled name id (.ok event) :: run.log) rfl
  have hhandled : Handled run'.log name id := by
    refine ⟨result, ?_⟩
    rw [hlog]
    cases result with
    | error error => simp [endEntries]
    | ok event => simp [endEntries]
  refine hlives.advance halive rfl hlive (.inr ⟨rfl, hhandled⟩) ?_ ?_ ?_ ?_
    (fun _ hrunning => by cases hrunning) hwhole hminted hstopping ?_
  · intro fact hfact
    rw [hlog]
    exact List.mem_append_right _ (List.mem_append_right _ hfact)
  · intro node begun hmem
    have hloud : ¬(Fact.creating node begun : Fact F).Still := fun hstill => hstill
    rw [hlog, mem_still hnew hloud] at hmem
    cases result with
    | error error => simpa [endEntries] using hmem
    | ok event => simpa [endEntries] using hmem
  · intro begun node kind subkind htold
    rw [hlog, mem_still hnew (by simp [Fact.Still, Observation.about])] at htold
    refine .inr ?_
    cases result with
    | error error => simpa [endEntries] using htold
    | ok event => simpa [endEntries] using htold
  · intro other hne
    rw [hlog, observationsOf_still _ _ hnew]
    exact observationsOf_end_other other run.log (Ne.symm hne) result
  · rw [hlog]
    refine Lib.throughout_append ?_ ?_
    · cases result with
      | error error => exact ⟨trivial, hlives.apart⟩
      | ok event => exact ⟨trivial, trivial, hlives.apart⟩
    · rintro front entry back rfl
      exact apart_of_still (hnew entry (by simp)) _

/-- Every change of a run keeps the lives of its instances. -/
theorem turn (hlives : Lifetimes run) (hturn : Turn run run') : Lifetimes run' := by
  cases hturn with
  | quiet new hlog hnew hlive hminted hstopping =>
    exact hlives.calm hlog hnew hminted hstopping fun name live hname => .inl (hlive ▸ hname)
  | create name habsent hrunning hlog hlive hminted =>
    exact hlives.create habsent hrunning hlog hlive hminted
  | created name id input core kind subkind hcreating new hlog hgiven hlive hminted hstopping =>
    exact hlives.created hcreating hlog hgiven hlive hminted hstopping
  | give name id core halive hlog hlive hminted hstopping =>
    exact hlives.give halive hlog hlive hminted hstopping
  | ended name id core result halive new hlog hnew hlive hminted hstopping =>
    exact hlives.ended halive hlog hnew hlive hminted hstopping
  | lost name id input hcreating new hlog hnew hlive hminted hstopping =>
    refine hlives.calm hlog hnew hminted (fun _ => hstopping) ?_
    intro node live hnode
    rw [hlive] at hnode
    by_cases hname : node = name
    · subst hname
      rw [Function.update_self, Option.some.injEq] at hnode
      exact .inr ⟨hnode.symm, hstopping, _, hcreating⟩
    · rw [Function.update_of_ne hname] at hnode
      exact .inl hnode
  | abandoned hlog hlive hminted hstopping =>
    have hsame : run'.log = [] ++ run.log := hlog
    refine hlives.calm hsame (by simp) hminted (fun _ => hstopping) ?_
    intro node live hnode
    rw [hlive] at hnode
    obtain ⟨old, hold, habsent⟩ := Option.map_eq_some_iff.mp hnode
    exact .inr ⟨habsent.symm, hstopping, old, hold⟩

/-- A run that begins has no instances. -/
theorem opening (graph : Graph F) (state : State F) (config : RunConfig) (names : List String) :
    Lifetimes (Run.opened graph state config names) := by
  have hlog : (Run.opened graph state config names).log = [.started names] := by
    rw [Run.opened, Run.note, Run.holdAll_log]
    rfl
  have hlive : ∀ name live, (Run.opened graph state config names).live name = some live →
      live = .Absent := by
    intro name live hname
    obtain ⟨slot, hslot, rfl⟩ := Option.map_eq_some_iff.mp hname
    exact ((Run.slot_opened graph state config names name).1 slot hslot).1
  refine ⟨?_, ?_, ?_, ?_, ?_, ?_, ?_, ?_, ?_⟩
  · intro id _
    rw [hlog]
    exact ⟨rfl, by simp⟩
  · intro id name other hname
    rw [hlog] at hname
    simp at hname
  · intro id name kind subkind hmem
    rw [hlog] at hmem
    simp at hmem
  · intro name live id hname hid
    rw [hlive name live hname] at hid
    cases hid
  · intro name id input hname
    cases hlive name _ hname
  · intro name id core hname
    cases hlive name _ hname
  · intro id
    rw [hlog]
    exact ⟨"", .inl rfl⟩
  · intro name live hname id hmem
    rw [hlog] at hmem
    simp at hmem
  · rw [hlog]
    exact ⟨trivial, trivial⟩

end Lifetimes

theorem Launch.lifetimes {out : Outside F} {graph : Graph F} {config : RunConfig}
    {origin : Origin} {state : State F} {control : Control F}
    (hlaunch : Launch out graph config origin state control) (polls : Nat) :
    Lifetimes (control.after out polls).sys.run := by
  obtain ⟨s, hopened, hmoves⟩ := hlaunch.moves polls
  refine hmoves.keeps (fun _ _ _ hchange hlives => hlives.turn hchange.turn) ?_
  rw [hopened]
  exact Lifetimes.opening graph state config _

/-! The observations of an applied step. -/

def Fact.observation : Fact F → Option Observation
  | .told observation => some observation
  | _ => none

/-- What the observer was told, in order. -/
def observations (log : List (Fact F)) : List Observation :=
  (log.filterMap Fact.observation).reverse

/-- Newest first: an applied update is told after the result it came with and before the targets of
the edge, with nothing between. -/
inductive Stepwise : List Observation → Prop
  | nothing : Stepwise []
  | other {past : List Observation} (observation : Observation)
      (hunapplied : ∀ node, observation ≠ .UpdateApplied node) (hearlier : Stepwise past) :
      Stepwise (observation :: past)
  | step {past : List Observation} (node : String) (id : InstanceId) (targets : List Target)
      (hearlier : Stepwise past) :
      Stepwise (.EdgeEvaluated node targets :: .UpdateApplied node ::
        .EventHandled node id .Result :: past)

theorem Stepwise.around {told later past : List Observation} {node : String}
    (hstepwise : Stepwise told) (hcut : told = later ++ .UpdateApplied node :: past) :
    ∃ front id targets back, later = front ++ [.EdgeEvaluated node targets] ∧
      past = .EventHandled node id .Result :: back := by
  induction hstepwise generalizing later with
  | nothing => simp at hcut
  | other observation hother _ ih =>
    cases later with
    | nil =>
      rw [List.nil_append, List.cons.injEq] at hcut
      exact absurd hcut.1 (hother node)
    | cons first rest =>
      rw [List.cons_append, List.cons.injEq] at hcut
      obtain ⟨front, id, targets, back, rfl, hback⟩ := ih hcut.2
      exact ⟨first :: front, id, targets, back, rfl, hback⟩
  | step applied id targets _ ih =>
    match later, hcut with
    | [], hcut => simp at hcut
    | [edge], hcut =>
      simp only [List.cons_append, List.nil_append, List.cons.injEq,
        Observation.UpdateApplied.injEq] at hcut
      obtain ⟨rfl, rfl, rfl⟩ := hcut
      exact ⟨[], id, targets, _, rfl, rfl⟩
    | [edge, update], hcut => simp at hcut
    | edge :: update :: event :: rest, hcut =>
      simp only [List.cons_append, List.cons.injEq] at hcut
      obtain ⟨-, -, -, hrest⟩ := hcut
      obtain ⟨front, id', targets', back, rfl, hback⟩ := ih hrest
      exact ⟨edge :: update :: event :: front, id', targets', back, rfl, hback⟩

section Stepwise

variable (run : Run F)

theorem observation_fail (triggered : Bool) (deadline : Nat) (failure : RunFailure) :
    (run.fail triggered deadline failure).log.filterMap Fact.observation =
      run.log.filterMap Fact.observation := by
  rw [Run.fail]
  split
  · rfl
  · rfl

theorem observation_stopByHost (deadline : Nat) :
    (run.stopByHost deadline).log.filterMap Fact.observation =
      run.log.filterMap Fact.observation := by
  rw [Run.stopByHost]
  split
  · rfl
  · rfl

theorem stepwise_ending (hstepwise : Stepwise (run.log.filterMap Fact.observation)) (name : String)
    (id : InstanceId) (result : Except EventEndError (Event F)) :
    Stepwise ((run.ending name id result).log.filterMap Fact.observation) := by
  cases result with
  | error error => exact hstepwise
  | ok event => exact .other (.EventHandled name id (.of event)) (fun _ heq => by cases heq) hstepwise

theorem Effect.stepwise {origin : Origin} {triggered : Bool} {run run' : Run F}
    (hchange : Effect origin triggered run run')
    (hstepwise : Stepwise (run.log.filterMap Fact.observation)) :
    Stepwise (run'.log.filterMap Fact.observation) := by
  cases hchange with
  | idle => exact hstepwise
  | stop => exact hstepwise
  | create => exact hstepwise
  | notMinted =>
    rw [observation_fail]
    exact hstepwise
  | created name slot id =>
    have hcreated := hstepwise.other (.InstanceCreated id name slot.kind slot.subkind)
      fun _ heq => by cases heq
    exact hcreated.other (.InputHandedOver name id) fun _ heq => by cases heq
  | createdShut name slot id =>
    exact hstepwise.other (.InstanceCreated id name slot.kind slot.subkind)
      fun _ heq => by cases heq
  | notCreated =>
    rw [observation_fail]
    exact hstepwise
  | give name slot id => exact hstepwise.other (.InputHandedOver name id) fun _ heq => by cases heq
  | fail name slot id core result =>
    rw [observation_fail]
    exact stepwise_ending run hstepwise name id result
  | cancel name slot id =>
    rw [observation_stopByHost]
    exact stepwise_ending run hstepwise name id (.ok .Cancelled)
  | apply name slot id core update newState targets =>
    rw [Run.step, Run.holdAll_log]
    exact .step name id targets hstepwise
  | offer => exact hstepwise
  | sinkFailed =>
    rw [observation_fail]
    exact hstepwise
  | abandon => exact hstepwise
  | conclude kind outcome => exact hstepwise.other (.Outcome kind) fun _ heq => by cases heq

end Stepwise

theorem Launch.stepwise {out : Outside F} {graph : Graph F} {config : RunConfig}
    {origin : Origin} {state : State F} {control : Control F}
    (hlaunch : Launch out graph config origin state control) (polls : Nat) :
    Stepwise ((control.after out polls).sys.run.log.filterMap Fact.observation) := by
  obtain ⟨s, hopened, hmoves⟩ := hlaunch.moves polls
  refine hmoves.keeps (P := fun run => Stepwise (run.log.filterMap Fact.observation))
    (fun _ _ _ hchange hstepwise => hchange.stepwise hstepwise) ?_
  rw [hopened, Run.opened, Run.note, Run.holdAll_log]
  exact .nothing

/-! Messages of instances that are no longer there. -/

/-- The message is about an instance that is live in the run: the end of its creation, or its own
end. -/
def Message.Live (run : Run F) : Message F → Prop
  | .Created node id _ => ∃ slot input, run.slot node = some slot ∧ slot.live = .Creating id input
  | .Ended node id _ => ∃ slot core, run.slot node = some slot ∧ slot.live = .Running id core

namespace Sys

variable (out : Outside F)

/-- The world once a message nobody waits for is dropped, with the instance it may carry. -/
def dropMessage (world : World F) : Message F → World F
  | .Created _ _ result => dropResult world result
  | .Ended _ _ _ => world

theorem step_unheeded {s : Sys F} {message : Message F} (hstale : ¬message.Live s.run) :
    s.step out message =
      { s.readToken out with world := dropMessage (s.readToken out).world message } := by
  have hslot : ∀ name, (s.readToken out).run.slot name = s.run.slot name := readToken_slot out s
  cases message with
  | Created node id result =>
    have hnone : ((s.readToken out).run.slot node).bind (·.firstInputOfCreation id) = none := by
      rw [hslot, Option.eq_none_iff_forall_ne_some]
      intro input hinput
      obtain ⟨slot, hfound, hcreation⟩ := Option.bind_eq_some_iff.mp hinput
      exact hstale ⟨slot, input, hfound,
        (NodeSlot.firstInputOfCreation_eq_some slot id input).mp hcreation⟩
    show (s.readToken out).onCreated out node id result = _
    rw [onCreated, hnone]
    rfl
  | Ended node id result =>
    show (s.readToken out).onEnded out node id result = _
    rw [onEnded, hslot]
    cases hfound : s.run.slot node with
    | none => rfl
    | some slot =>
      have hother : slot.runningId ≠ some id := by
        intro hrunning
        obtain ⟨core, hlive⟩ := (NodeSlot.runningId_eq_some slot id).mp hrunning
        exact hstale ⟨slot, core, hfound, hlive⟩
      simp only [hother, ne_eq, not_false_eq_true, if_true]
      rfl

end Sys

/-- What a run tells of each instance is a life: created, given inputs, ended.  A node gets a new
instance only after the end of the one before it was handled; a message about another instance than
the one its slot holds changes nothing; and each applied update is told between the result it came
with and the targets of its edge. -/
theorem observations_well_formed {out : Outside F} {graph : Graph F} {config : RunConfig}
    {origin : Origin} {state : State F} {control : Control F}
    (hlaunch : Launch out graph config origin state control) (polls : Nat) :
    (∀ id, ∃ name, Lifetime name id
      (observationsOf id (control.after out polls).sys.run.log)) ∧
    (∀ later name id past,
      (control.after out polls).sys.run.log = later ++ .creating name id :: past →
      ∀ other, .creating name other ∈ past → Handled past name other) ∧
    (∀ later id name kind subkind past,
      (control.after out polls).sys.run.log =
        later ++ .told (.InstanceCreated id name kind subkind) :: past →
      ∀ other kind' subkind', .told (.InstanceCreated other name kind' subkind') ∈ past →
        other ≠ id ∧ Handled past name other) ∧
    (∀ (s : Sys F) (message : Message F), ¬message.Live s.run → s.step out message =
      { s.readToken out with world := Sys.dropMessage (s.readToken out).world message }) ∧
    ∀ before node after,
      observations (control.after out polls).sys.run.log = before ++ .UpdateApplied node :: after →
      ∃ front id targets back, before = front ++ [.EventHandled node id .Result] ∧
        after = .EdgeEvaluated node targets :: back := by
  have hlives := hlaunch.lifetimes polls
  have hapart := (throughout_iff _ _).mp hlives.apart
  refine ⟨hlives.whole, ?_, ?_, fun s message hstale => Sys.step_unheeded out hstale, ?_⟩
  · intro later name id past hcut
    exact hapart later (.creating name id) past hcut
  · intro later id name kind subkind past hcut
    exact hapart later (.told (.InstanceCreated id name kind subkind)) past hcut
  · intro before node after hcut
    have hnewest : (control.after out polls).sys.run.log.filterMap Fact.observation =
        after.reverse ++ .UpdateApplied node :: before.reverse := by
      rw [← List.reverse_reverse ((control.after out polls).sys.run.log.filterMap _)]
      show (observations (control.after out polls).sys.run.log).reverse = _
      rw [hcut]
      simp
    obtain ⟨front, id, targets, back, hafter, hbefore⟩ :=
      (hlaunch.stepwise polls).around hnewest
    refine ⟨back.reverse, id, targets, front.reverse, ?_, ?_⟩
    · rw [List.reverse_eq_iff.mp hbefore]
      simp
    · rw [List.reverse_eq_iff.mp hafter]
      simp

/-- The second instance of the small graph, created while the run stops, tells its whole life. -/
theorem observations_well_formed_late :
    observationsOf 1 ((pairRun lateCreation ⟨false, 10, false⟩).after lateCreation 6).sys.run.log =
      [.InstanceCreated 1 "n" "flow" "plain", .InputHandedOver "n" 1,
        .EventHandled "n" 1 .Result] ∧
    ∃ name, Lifetime name 1 (observationsOf 1
      ((pairRun lateCreation ⟨false, 10, false⟩).after lateCreation 6).sys.run.log) :=
  ⟨by decide +kernel, (observations_well_formed (pair_launch _ _) 6).1 1⟩

end LlmGraph.Executor
