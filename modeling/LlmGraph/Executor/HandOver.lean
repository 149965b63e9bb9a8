/- digest: No hand-over is lost or stale: at every wait of a running driver each targeting of a
   node is held, on its way, accepted last, or answered by an applied result. -/

import LlmGraph.Executor.Fold
import LlmGraph.Executor.Waiting

set_option autoImplicit false
set_option relaxedAutoImplicit false

namespace LlmGraph.Executor

open Contract
open Lib (Ledger Post Throughout)

variable {F : Type} [Fields F]

/-- The input is one of the states of the run: the one its step number says. -/
def IsState (initial : State F) (log : List (Fact F)) (input : Shared F) : Prop :=
  (statesOf initial log)[input.step]? = some input.state

theorem statesOf_append (initial : State F) (later past : List (Fact F)) :
    statesOf initial (later ++ past) =
      statesOf initial past ++ (later.filterMap Fact.appliedState).reverse := by
  simp [statesOf, List.filterMap_append]

/-- The states of a run are never taken back. -/
theorem IsState.later {initial : State F} {past : List (Fact F)} {input : Shared F}
    (hmade : IsState initial past input) (later : List (Fact F)) :
    IsState initial (later ++ past) input := by
  have hbound : input.step < (statesOf initial past).length :=
    (List.getElem?_eq_some_iff.mp hmade).1
  rw [IsState, statesOf_append, List.getElem?_append_left hbound]
  exact hmade

def Fact.acceptedInput (name : String) (id : InstanceId) : Fact F → Option (Shared F)
  | .accepted node other input => if node = name ∧ other = id then some input else none
  | _ => none

/-- The newest input the instance accepted. -/
def lastAccepted (log : List (Fact F)) (name : String) (id : InstanceId) : Option (Shared F) :=
  log.findSome? (Fact.acceptedInput name id)

theorem mem_of_lastAccepted {log : List (Fact F)} {name : String} {id : InstanceId}
    {last : Shared F} (haccepted : lastAccepted log name id = some last) :
    .accepted name id last ∈ log := by
  obtain ⟨fact, hmember, hfound⟩ := List.exists_of_findSome?_eq_some haccepted
  unfold Fact.acceptedInput at hfound
  split at hfound
  · split at hfound
    · rename_i hboth
      cases hfound
      rw [← hboth.1, ← hboth.2]
      exact hmember
    · cases hfound
  · cases hfound

/-- An accepted input is a state of the run, and no older than what its instance accepted
before. -/
def HandsOver (initial : State F) : Fact F → List (Fact F) → Prop
  | .accepted name id input, past =>
      IsState initial past input ∧
        ∀ earlier, .accepted name id earlier ∈ past → earlier.step ≤ input.step
  | _, _ => True

/-- The last input an instance accepted is at least as new as any other it accepted. -/
theorem lastAccepted_newest {initial : State F} {log : List (Fact F)} {name : String}
    {id : InstanceId} {input : Shared F} (hall : Throughout (HandsOver initial) log)
    (haccepted : .accepted name id input ∈ log) :
    ∃ last, lastAccepted log name id = some last ∧ input.step ≤ last.step ∧
      IsState initial log last := by
  induction log with
  | nil => exact absurd haccepted List.not_mem_nil
  | cons fact past hstep =>
      rcases hfound : fact.acceptedInput name id with _ | newest
      · have holder : .accepted name id input ∈ past := by
          rcases List.mem_cons.mp haccepted with rfl | holder
          · simp [Fact.acceptedInput] at hfound
          · exact holder
        obtain ⟨last, hsame, hnewer, hmade⟩ := hstep hall.2 holder
        refine ⟨last, ?_, hnewer, hmade.later [fact]⟩
        rw [lastAccepted, List.findSome?_cons, hfound]
        exact hsame
      · have hsame : fact = .accepted name id newest := by
          unfold Fact.acceptedInput at hfound
          split at hfound
          · split at hfound
            · rename_i hboth
              rw [hboth.1, hboth.2, Option.some.inj hfound]
            · cases hfound
          · cases hfound
        have hhere := hall.1
        rw [hsame] at hhere haccepted ⊢
        refine ⟨newest, by simp [lastAccepted, Fact.acceptedInput], ?_, hhere.1.later [_]⟩
        rcases List.mem_cons.mp haccepted with hequal | holder
        · cases hequal
          exact le_rfl
        · exact hhere.2 input holder

/-- What a creation in progress was begun with is a state of the run. -/
structure Dated (initial : State F) (run : Run F) : Prop where
  first : ∀ name slot id input, run.slot name = some slot → slot.live = .Creating id input →
    IsState initial run.log input
  accepted : Throughout (HandsOver initial) run.log

namespace Run

/-- Every creation of the later run was in progress already. -/
def BeginsNone (run run' : Run F) : Prop :=
  ∀ name slot' id input, run'.slot name = some slot' → slot'.live = .Creating id input →
    ∃ slot, run.slot name = some slot ∧ slot.live = .Creating id input

theorem beginsNone_of_slot {run run' : Run F} (hslots : ∀ name, run'.slot name = run.slot name) :
    run.BeginsNone run' := by
  intro name slot' id input hatName hcreating
  exact ⟨slot', (hslots name) ▸ hatName, hcreating⟩

theorem BeginsNone.trans {run run' run'' : Run F} (hfirst : run.BeginsNone run')
    (hsecond : run'.BeginsNone run'') : run.BeginsNone run'' := by
  intro name slot id input hatName hcreating
  obtain ⟨slot', hatMiddle, hstill⟩ := hsecond name slot id input hatName hcreating
  exact hfirst name slot' id input hatMiddle hstill

theorem beginsNone_change (run : Run F) (changed : String) {change : NodeSlot F → NodeSlot F}
    (hkeeps : ∀ slot id input, (change slot).live = .Creating id input →
      slot.live = .Creating id input) : run.BeginsNone (run.change changed change) := by
  intro name slot' id input hatName hcreating
  rw [slot_change] at hatName
  split at hatName
  · obtain ⟨slot, hfound, rfl⟩ := Option.map_eq_some_iff.mp hatName
    exact ⟨slot, hfound, hkeeps slot id input hcreating⟩
  · exact ⟨slot', hatName, hcreating⟩

theorem beginsNone_leave (run : Run F) (name : String) :
    run.BeginsNone (run.change name (·.leaveUntaken)) :=
  run.beginsNone_change name fun _ _ _ hsame => hsame

theorem beginsNone_ending (run : Run F) (name : String) (id : InstanceId)
    (result : Except EventEndError (Event F)) : run.BeginsNone (run.ending name id result) := by
  have hended : run.BeginsNone (run.change name (·.endInstance)) :=
    run.beginsNone_change name fun _ _ _ himpossible => by cases himpossible
  exact hended.trans (beginsNone_of_slot (slot_ending run name id result))

end Run

/-- A change begins no creation but on the current state. -/
theorem Effect.creations {origin : Origin} {triggered : Bool} {run run' : Run F}
    (hchange : Effect origin triggered run run') {name : String} {slot' : NodeSlot F}
    {id : InstanceId} {input : Shared F} (hatName : run'.slot name = some slot')
    (hcreating : slot'.live = .Creating id input) :
    (∃ slot, run.slot name = some slot ∧ slot.live = .Creating id input) ∨ input = run.state := by
  cases hchange with
  | idle => exact Or.inl ⟨slot', hatName, hcreating⟩
  | stop => exact Or.inl ⟨slot', hatName, hcreating⟩
  | create created slot hatCreated habsent hheld hrunning =>
      change ((run.change created _).slot name) = some slot' at hatName
      rw [Run.slot_change] at hatName
      split at hatName
      · obtain ⟨before, -, rfl⟩ := Option.map_eq_some_iff.mp hatName
        cases hcreating
        exact Or.inr rfl
      · exact Or.inl ⟨slot', hatName, hcreating⟩
  | notMinted node =>
      rw [Run.slot_fail] at hatName
      exact Or.inl (run.beginsNone_leave node name slot' id input hatName hcreating)
  | created node slot made firstInput core =>
      have hborn : run.BeginsNone (run.change node (·.becomeRunning made core)) :=
        run.beginsNone_change node fun _ _ _ himpossible => by cases himpossible
      exact Or.inl (hborn name slot' id input hatName hcreating)
  | createdShut node slot made firstInput core =>
      have hborn : run.BeginsNone (run.instanceCreated node made core slot) :=
        run.beginsNone_change node fun _ _ _ himpossible => by cases himpossible
      have hheld : run.BeginsNone ((run.instanceCreated node made core slot).change node (·.hold)) :=
        hborn.trans (Run.beginsNone_change _ node fun _ _ _ hsame => hsame)
      exact Or.inl (hheld name slot' id input hatName hcreating)
  | notCreated node =>
      have hended : run.BeginsNone (run.change node (·.endInstance.hold)) :=
        run.beginsNone_change node fun _ _ _ himpossible => by cases himpossible
      rw [Run.slot_fail] at hatName
      exact Or.inl (hended.trans (Run.beginsNone_leave _ node) name slot' id input hatName hcreating)
  | give node slot made =>
      have hnone : run.BeginsNone ((run.accept node made run.state).change node (·.release)) :=
        Run.beginsNone_change (run.accept node made run.state) node fun _ _ _ hsame => hsame
      exact Or.inl (hnone name slot' id input hatName hcreating)
  | fail node slot made core result =>
      have hnone := (run.beginsNone_ending node made result).trans (Run.beginsNone_leave _ node)
      rw [Run.slot_fail] at hatName
      exact Or.inl (hnone name slot' id input hatName hcreating)
  | cancel node slot made core deadline =>
      have hnone := (run.beginsNone_ending node made (.ok .Cancelled)).trans
        (Run.beginsNone_leave _ node)
      unfold Run.stopByHost at hatName
      split at hatName
      · exact Or.inl (hnone name slot' id input hatName hcreating)
      · exact Or.inl (hnone name slot' id input hatName hcreating)
  | apply node slot made core update newState targets =>
      obtain ⟨before, hatBefore, rfl⟩ := Option.map_eq_some_iff.mp
        ((Run.slot_holdAll _ _ _).symm.trans hatName)
      have hstill : before.live = .Creating id input := by
        split at hcreating <;> exact hcreating
      exact Or.inl (run.beginsNone_ending node made (.ok (.Result update)) name before id input
        hatBefore hstill)
  | offer => exact Or.inl ⟨slot', hatName, hcreating⟩
  | sinkFailed => exact Or.inl ⟨slot', (Run.slot_fail _ _ _ _ _).symm.trans hatName, hcreating⟩
  | abandon =>
      rw [Run.slot_abandonAllLive] at hatName
      obtain ⟨before, hatBefore, rfl⟩ := Option.map_eq_some_iff.mp hatName
      split at hcreating
      · cases hcreating
      · exact Or.inl ⟨before, hatBefore, hcreating⟩
  | conclude => exact Or.inl ⟨slot', hatName, hcreating⟩

namespace Dated

variable {graph : Graph F} {initial : State F} {run run' : Run F}

/-- The states of a run only grow in number. -/
private theorem still_state {origin : Origin} {triggered : Bool}
    (hchange : Effect origin triggered run run') {input : Shared F}
    (hmade : IsState initial run.log input) : IsState initial run'.log input := by
  rcases hchange.log_cases with ⟨new, hlog, -⟩ |
    ⟨name, slot, id, core, update, newState, targets, now, later, -, -, -, -, rfl⟩
  · rw [hlog]
    exact hmade.later new
  · rw [Run.step_log]
    exact hmade.later _

theorem effect {origin : Origin} {triggered : Bool} (hchange : Effect origin triggered run run')
    (haccounts : Accounts run) (hfolded : Folded graph initial run) (hdated : Dated initial run) :
    Dated initial run' where
  first name slot id input hatName hcreating := by
    rcases hchange.creations hatName hcreating with ⟨before, hatBefore, hsame⟩ | hcurrent
    · exact still_state hchange (hdated.first name before id input hatBefore hsame)
    · rw [hcurrent]
      exact still_state hchange hfolded.dated
  accepted := by
    refine hchange.throughout hdated.accepted ?_ ?_ (fun _ _ _ _ _ _ _ _ _ _ => trivial)
      (fun _ _ _ _ => trivial) fun _ _ _ => trivial
    · intro fact past hplain
      cases fact <;> trivial
    · intro name slot id input past hatName hlive hcut
      have hmade : IsState initial run.log input := by
        rcases hlive with hcreating | ⟨core, -, hcurrent⟩
        · exact hdated.first name slot id input hatName hcreating
        · rw [hcurrent]
          exact hfolded.dated
      have hnewest : ∀ earlier, .accepted name id earlier ∈ run.log →
          earlier.step ≤ input.step := by
        intro earlier haccepted
        rcases hlive with hcreating | ⟨core, -, hcurrent⟩
        · exact absurd haccepted (haccounts.nothing_accepted hatName hcreating earlier)
        · rw [hcurrent]
          exact haccounts.bounded.accepted name id earlier.step ⟨earlier, haccepted, rfl⟩
      rcases hcut with rfl | ⟨observation, rfl⟩
      · exact ⟨hmade, hnewest⟩
      · refine ⟨hmade.later [_], fun earlier haccepted => ?_⟩
        exact hnewest earlier (by simpa using haccepted)

theorem opened (graph : Graph F) (state : State F) (config : RunConfig) (names : List String) :
    Dated state (Run.opened graph state config names) where
  first name slot id input hatName hcreating := by
    obtain ⟨habsent, -⟩ := (Run.slot_opened graph state config names name).1 slot hatName
    rw [habsent] at hcreating
    cases hcreating
  accepted := by
    rw [Run.opened, Run.note, Run.holdAll_log]
    exact ⟨trivial, trivial⟩

end Dated

/-- Where a targeting of a node by step `k` stands. -/
inductive InHand (initial : State F) (run : Run F) (name : String) (k : Nat) : Prop
  | held (slot : NodeSlot F) (hatName : run.slot name = some slot) (hheld : slot.held = true)
      (halive : slot.isLive = true) : InHand initial run name k
  | creating (slot : NodeSlot F) (id : InstanceId) (firstInput : Shared F)
      (hatName : run.slot name = some slot) (hcreating : slot.live = .Creating id firstInput)
      (hmade : IsState initial run.log firstInput) (hlate : k ≤ firstInput.step) :
      InHand initial run name k
  | running (slot : NodeSlot F) (id : InstanceId) (core : Address) (input : Shared F)
      (hatName : run.slot name = some slot) (halive : slot.live = .Running id core)
      (hlast : lastAccepted run.log name id = some input)
      (hmade : IsState initial run.log input) (hlate : k ≤ input.step) : InHand initial run name k
  | answered (id : InstanceId) (input : Shared F) (update : Fields.Update F) (state : Shared F)
      (targets : List Target) (haccepted : .accepted name id input ∈ run.log)
      (hmade : IsState initial run.log input) (hlate : k ≤ input.step)
      (happlied : .applied name id update state targets ∈ run.log) : InHand initial run name k

/-- A node whose slot is in order, and served where it is held, has each of its targetings in
hand. -/
theorem inHand_of_keeps {initial : State F} {run : Run F} (haccounts : Accounts run)
    (hdated : Dated initial run) (heldLive : run.HeldLive) (hrunning : run.isStopping = false)
    {name : String} {k : Nat} (htargeted : (ledgerOf run.log).Targeted name k) :
    InHand initial run name k := by
  obtain ⟨slot, hatName⟩ := Option.isSome_iff_exists.mp
    ((haccounts.slots name).mp (haccounts.known name k htargeted))
  have hkeeps := haccounts.keeps name slot hatName
  rcases hheld : slot.held with _ | _
  · have hfree : ¬slot.post.held := by
      intro hheld'
      have hset : slot.held = true := hheld'
      rw [hheld] at hset
      cases hset
    rcases hlive : slot.live with _ | ⟨id, firstInput⟩ | ⟨id, core⟩
    · -- No instance and nothing held: the node owes nothing, so this targeting was answered.
      have htaken : slot.untaken = false := by
        by_contra huntaken
        have hstopping := haccounts.taken name slot hatName (by simpa using huntaken)
        rw [hrunning] at hstopping
        cases hstopping
      have hidle : slot.isIdle = true := (NodeSlot.isIdle_iff slot).mpr ⟨hlive, hheld, htaken⟩
      have hclear := (haccounts.idle_iff hatName).mp hidle
      by_contra hlost
      refine hclear ⟨k, htargeted, ?_⟩
      rintro ⟨id, j, ⟨input, haccepted, rfl⟩, hlate, update, state, targets, happlied⟩
      obtain ⟨last, hnewest⟩ := lastAccepted_newest hdated.accepted haccepted
      have hmade : IsState initial run.log input := by
        obtain ⟨later, past, hlog⟩ := List.append_of_mem haccepted
        have hhere := (Lib.throughout_iff _ _).mp hdated.accepted _ _ _ hlog
        have hmore := hhere.1.later (later ++ [.accepted name id input])
        rw [List.append_assoc] at hmore
        rw [hlog]
        exact hmore
      exact hlost (.answered id input update state targets haccepted hmade hlate happlied)
    · rcases slot with ⟨kind, subkind, _, isHeld, isUntaken⟩
      cases hlive
      have hcovered := hkeeps.2.2.2.2.1 hfree
      exact .creating _ id firstInput hatName rfl (hdated.first name _ id firstInput hatName rfl)
        (hcovered k htargeted)
    · rcases slot with ⟨kind, subkind, _, isHeld, isUntaken⟩
      cases hlive
      obtain ⟨j, ⟨input, haccepted, rfl⟩, hcovered⟩ := hkeeps.2.2.2.2 hfree
      obtain ⟨last, hsame, hnewer, hmade⟩ := lastAccepted_newest hdated.accepted haccepted
      exact .running _ id core last hatName rfl hsame hmade ((hcovered k htargeted).trans hnewer)
  · exact .held slot hatName hheld (heldLive name slot hatName hheld)

theorem Launch.dated {out : Outside F} {graph : Graph F} {config : RunConfig} {origin : Origin}
    {state : State F} {control : Control F}
    (hlaunch : Launch out graph config origin state control) (polls : Nat) :
    Dated state (control.after out polls).sys.run := by
  obtain ⟨s, hopened, hmoves⟩ := hlaunch.moves polls
  let kept (run : Run F) : Prop := Accounts run ∧ Folded graph state run ∧ Dated state run
  have hstep (triggered : Bool) (run run' : Run F) (hchange : Effect origin triggered run run')
      (hknown : kept run) : kept run' := by
    obtain ⟨haccounts, hfolded, hdated⟩ := hknown
    exact ⟨haccounts.effect hchange, hfolded.effect hchange, hdated.effect hchange haccounts hfolded⟩
  have hfirst : kept s.run := by
    rw [hopened]
    exact ⟨Accounts.opened graph state config _ hlaunch.names_known,
      Folded.opened graph state config _, Dated.opened graph state config _⟩
  exact (hmoves.keeps hstep hfirst).2.2

/-- At every wait in the running phase each targeting of a node, the last one included, is in hand:
the node is held and has a live instance; or an instance is being created with a state no older as
its first input; or its running instance accepted such a state last; or an instance that accepted
such a state has ended with an applied result. -/
theorem hand_overs_in_hand {out : Outside F} {graph : Graph F} {config : RunConfig}
    {origin : Origin} {state : State F} {control : Control F}
    (hlaunch : Launch out graph config origin state control) (polls : Nat) (s : Sys F)
    (hwaiting : control.after out polls = .waiting s) (hrunning : s.run.isStopping = false)
    (name : String) (k : Nat) (htargeted : (ledgerOf s.run.log).Targeted name k) :
    InHand state s.run name k := by
  have haccounts := hlaunch.accounts polls
  have hdated := hlaunch.dated polls
  have hstands := hlaunch.stands polls
  rw [hwaiting] at haccounts hdated hstands
  exact inHand_of_keeps haccounts hdated (hstands.1.heldLive hrunning) hrunning htargeted

/-- The control waits in the running phase on a run that started the node. -/
def Control.runsFrom (name : String) : Control F → Bool
  | .waiting s => !s.run.isStopping && s.run.log.any fun
      | .started names => name ∈ names
      | _ => false
  | .done _ _ => false

private theorem targeted_of_runsFrom (name : String) (control : Control F)
    (hruns : control.runsFrom name = true) :
    ∃ s, control = .waiting s ∧ s.run.isStopping = false ∧
      (ledgerOf s.run.log).Targeted name 0 := by
  rcases control with s | ⟨s, outcome⟩
  · change (!s.run.isStopping && _) = true at hruns
    rw [Bool.and_eq_true, Bool.not_eq_true', List.any_eq_true] at hruns
    obtain ⟨hrunning, fact, hmember, hstarted⟩ := hruns
    refine ⟨s, rfl, hrunning, Or.inl ⟨rfl, ?_⟩⟩
    split at hstarted
    · exact ⟨_, hmember, by simpa using hstarted⟩
    · cases hstarted
  · cases hruns

/-- The small graph in still surroundings, waiting on the creations: the start of `n` is in
hand. -/
theorem hand_overs_in_hand_pair :
    ∃ s, (pairRun (fun _ => .still) ⟨false, 0, false⟩).after (fun _ => .still) 1 = .waiting s ∧
      InHand Tally.zero s.run "n" 0 := by
  obtain ⟨s, hwaiting, hrunning, htargeted⟩ := targeted_of_runsFrom "n"
    ((pairRun (fun _ => .still) ⟨false, 0, false⟩).after (fun _ => .still) 1) (by decide +kernel)
  exact ⟨s, hwaiting, hand_overs_in_hand (pair_launch (fun _ => .still) ⟨false, 0, false⟩) 1 s
    hwaiting hrunning "n" 0 htargeted⟩

end LlmGraph.Executor
