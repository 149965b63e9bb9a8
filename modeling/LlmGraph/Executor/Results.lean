/- digest: Each handled result is applied or declined; what a run shows is the fold of the applied
   ones, and a declined one changes nothing but leaves its node behind. -/

import LlmGraph.Executor.Fold
import LlmGraph.Executor.Waiting

set_option autoImplicit false
set_option relaxedAutoImplicit false

namespace LlmGraph.Executor

open Contract
open Lib (Attempt Throughout throughout_iff)

variable {F : Type} [Fields F]

/-- A handled result, and whether it was applied. -/
structure Verdict (F : Type) [Fields F] where
  node : String
  update : Fields.Update F
  taken : Bool

def Fact.handledResult : Fact F → Option (String × Fields.Update F)
  | .handled name _ (.ok (.Result update)) => some (name, update)
  | _ => none

/-- The handled results of a log, oldest first. -/
def handledResults (log : List (Fact F)) : List (String × Fields.Update F) :=
  (log.filterMap Fact.handledResult).reverse

/-- The updates of the verdicts that took theirs. -/
def takenUpdates (verdicts : List (Verdict F)) : List (Fields.Update F) :=
  (verdicts.filter (·.taken)).map (·.update)

/-- Results judged one after the other lead from a state to another: one that succeeds on the
state it finds replaces it, and one that is declined there leaves it. -/
inductive Folds (graph : Graph F) (initial : State F) : List (Verdict F) → State F → Prop
  | nothing : Folds graph initial [] initial
  | taken {verdicts : List (Verdict F)} {current next : State F} {name : String}
      {update : Fields.Update F} {targets : List Target} (hpast : Folds graph initial verdicts current)
      (hsucceeds : Succeeds graph current name update next targets) :
      Folds graph initial (verdicts ++ [⟨name, update, true⟩]) next
  | declined {verdicts : List (Verdict F)} {current : State F} {name : String}
      {update : Fields.Update F} (hpast : Folds graph initial verdicts current)
      (hdeclines : Declines graph current name update) :
      Folds graph initial (verdicts ++ [⟨name, update, false⟩]) current

/-- The state reached is the fold of the updates that were taken. -/
theorem Folds.fold {graph : Graph F} {initial last : State F} {verdicts : List (Verdict F)}
    (hfolds : Folds graph initial verdicts last) :
    foldUpdates initial.fields (takenUpdates verdicts) = .ok last.fields := by
  induction hfolds with
  | nothing => rfl
  | @taken verdicts current next name update targets hpast hsucceeds hfolded =>
      obtain ⟨now, later, happlied, -⟩ := hsucceeds
      have hmore : takenUpdates (verdicts ++ [⟨name, update, true⟩]) =
          takenUpdates verdicts ++ [update] := by
        simp [takenUpdates]
      rw [hmore]
      exact foldUpdates_snoc hfolded (State.apply_ok happlied).1
  | @declined verdicts current name update hpast hdeclines hfolded =>
      have hsame : takenUpdates (verdicts ++ [⟨name, update, false⟩]) = takenUpdates verdicts := by
        simp [takenUpdates]
      rw [hsame]
      exact hfolded

/-- Verdicts on exactly the handled results of a log, in their order, which lead to the last
state. -/
structure Verdicts (graph : Graph F) (initial : State F) (log : List (Fact F))
    (verdicts : List (Verdict F)) (last : State F) : Prop where
  results : verdicts.map (fun verdict => (verdict.node, verdict.update)) = handledResults log
  folds : Folds graph initial verdicts last

/-! What is left behind stays behind. -/

/-- The work of the node was left behind. -/
def Run.Left (run : Run F) (name : String) : Prop :=
  ∃ slot, run.slot name = some slot ∧ slot.untaken = true

theorem Run.Left.change {run : Run F} {name : String} (hleft : run.Left name) (changed : String)
    (change : NodeSlot F → NodeSlot F)
    (hkeeps : ∀ slot, slot.untaken = true → (change slot).untaken = true) :
    (run.change changed change).Left name := by
  obtain ⟨slot, hatName, huntaken⟩ := hleft
  by_cases hsame : changed = name
  · refine ⟨change slot, ?_, hkeeps slot huntaken⟩
    rw [Run.slot_change, if_pos hsame, hatName]
    rfl
  · exact ⟨slot, (Run.slot_change_of_ne run hsame change).trans hatName, huntaken⟩

theorem Run.Left.fail {run : Run F} {name : String} (hleft : run.Left name) (triggered : Bool)
    (deadline : Nat) (failure : RunFailure) : (run.fail triggered deadline failure).Left name := by
  obtain ⟨slot, hatName, huntaken⟩ := hleft
  exact ⟨slot, (Run.slot_fail _ _ _ _ _).trans hatName, huntaken⟩

theorem Run.Left.ending {run : Run F} {name : String} (hleft : run.Left name) (ended : String)
    (id : InstanceId) (result : Except EventEndError (Event F)) :
    (run.ending ended id result).Left name := by
  obtain ⟨slot, hatName, huntaken⟩ := hleft.change ended (·.endInstance) fun _ hsame => hsame
  exact ⟨slot, (slot_ending _ _ _ _ _).trans hatName, huntaken⟩

theorem Run.Left.abandonAllLive {run : Run F} {name : String} (hleft : run.Left name) :
    run.abandonAllLive.Left name := by
  obtain ⟨slot, hatName, huntaken⟩ := hleft
  refine ⟨if slot.isLive then slot.abandon else slot, ?_, ?_⟩
  · rw [Run.slot_abandonAllLive, hatName]
    rfl
  · split
    · rfl
    · exact huntaken

theorem Run.left_leaveUntaken {run : Run F} {name : String} {slot : NodeSlot F}
    (hatName : run.slot name = some slot) : (run.change name (·.leaveUntaken)).Left name := by
  refine ⟨slot.leaveUntaken, ?_, rfl⟩
  rw [Run.slot_change_self, hatName]
  rfl

theorem Effect.left {origin : Origin} {triggered : Bool} {run run' : Run F}
    (hchange : Effect origin triggered run run') {name : String} (hleft : run.Left name) :
    run'.Left name := by
  cases hchange with
  | idle => exact hleft
  | stop => exact hleft
  | create created => exact hleft.change created _ fun _ hsame => hsame
  | notMinted node slot reason deadline => exact (hleft.change node _ fun _ _ => rfl).fail _ _ _
  | created node => exact hleft.change node _ fun _ hsame => hsame
  | createdShut node slot id firstInput core =>
      have hborn : (run.instanceCreated node id core slot).Left name :=
        hleft.change node _ fun _ hsame => hsame
      exact hborn.change node _ fun _ hsame => hsame
  | notCreated node =>
      have hended := hleft.change node (·.endInstance.hold) fun _ hsame => hsame
      exact (hended.change node _ fun _ _ => rfl).fail _ _ _
  | give node slot id =>
      have haccepted : (run.accept node id run.state).Left name := hleft
      exact haccepted.change node _ fun _ hsame => hsame
  | fail node slot id core result =>
      exact ((hleft.ending node id result).change node _ fun _ _ => rfl).fail _ _ _
  | cancel node slot id =>
      have hended := (hleft.ending node id (.ok .Cancelled)).change node (·.leaveUntaken)
        fun _ _ => rfl
      unfold Run.stopByHost
      split
      · exact hended
      · exact hended
  | apply node slot id core update newState targets =>
      obtain ⟨found, hatName, huntaken⟩ := hleft.ending node id (.ok (.Result update))
      refine ⟨if name ∈ Target.names targets then found.hold else found, ?_, ?_⟩
      · exact (Run.slot_holdAll _ _ _).trans (congrArg (Option.map _) hatName)
      · split <;> exact huntaken
  | offer => exact hleft
  | sinkFailed => exact hleft.fail _ _ _
  | abandon => exact hleft.abandonAllLive
  | conclude => exact hleft

/-! Every change judges at most one result. -/

section Handled

variable (log : List (Fact F)) (run : Run F)

theorem handledResults_cons (fact : Fact F) :
    handledResults (fact :: log) = handledResults log ++ fact.handledResult.toList := by
  rcases hsame : fact.handledResult with _ | handled <;>
    simp [handledResults, hsame]

theorem handledResults_fail (triggered : Bool) (deadline : Nat) (failure : RunFailure) :
    handledResults (run.fail triggered deadline failure).log = handledResults run.log := by
  unfold Run.fail
  dsimp only
  split <;> simp [Run.note, Run.beginStopping, handledResults_cons, Fact.handledResult]

def resultOf (name : String) : Except EventEndError (Event F) → Option (String × Fields.Update F)
  | .ok (.Result update) => some (name, update)
  | _ => none

theorem handledResults_ending (name : String) (id : InstanceId)
    (result : Except EventEndError (Event F)) :
    handledResults (run.ending name id result).log =
      handledResults run.log ++ (resultOf name result).toList := by
  rcases result with error | _ | _ | _ | _ <;>
    simp [Run.ending, Run.note, Run.tell, Run.change, handledResults_cons, Fact.handledResult,
      resultOf]

end Handled

/-- Every handled result of a run is judged, and the nodes of the declined ones are left
behind. -/
structure Judged (graph : Graph F) (initial : State F) (run : Run F)
    (verdicts : List (Verdict F)) : Prop where
  same_graph : run.graph = graph
  verdicts_of : Verdicts graph initial run.log verdicts run.state.state
  left : ∀ verdict ∈ verdicts, verdict.taken = false → run.Left verdict.node

namespace Judged

variable {graph : Graph F} {initial : State F} {origin : Origin} {triggered : Bool}
  {run run' : Run F} {verdicts : List (Verdict F)}

/-- A change that handles no result. -/
theorem quiet (hjudged : Judged graph initial run verdicts)
    (hresults : handledResults run'.log = handledResults run.log) (hstate : run'.state = run.state)
    (hsame : run'.graph = run.graph) (hleft : ∀ name, run.Left name → run'.Left name) :
    Judged graph initial run' verdicts where
  same_graph := hsame.trans hjudged.same_graph
  verdicts_of := ⟨hjudged.verdicts_of.results.trans hresults.symm, hstate ▸ hjudged.verdicts_of.folds⟩
  left verdict hmember hdeclined := hleft _ (hjudged.left verdict hmember hdeclined)

/-- A change that handles one result and declines it. -/
theorem decline (hjudged : Judged graph initial run verdicts) {name : String}
    {update : Fields.Update F}
    (hresults : handledResults run'.log = handledResults run.log ++ [(name, update)])
    (hstate : run'.state = run.state) (hsame : run'.graph = run.graph)
    (hdeclines : Declines run.graph run.state.state name update) (hbehind : run'.Left name)
    (hleft : ∀ name, run.Left name → run'.Left name) :
    Judged graph initial run' (verdicts ++ [⟨name, update, false⟩]) where
  same_graph := hsame.trans hjudged.same_graph
  verdicts_of := by
    refine ⟨by rw [hresults, ← hjudged.verdicts_of.results]; simp, ?_⟩
    rw [hstate]
    exact .declined hjudged.verdicts_of.folds (hjudged.same_graph ▸ hdeclines)
  left verdict hmember hdeclined := by
    rcases List.mem_append.mp hmember with hold | hnew
    · exact hleft _ (hjudged.left verdict hold hdeclined)
    · rw [List.mem_singleton.mp hnew]
      exact hbehind

/-- A change that applies one result. -/
theorem take (hjudged : Judged graph initial run verdicts) {name : String}
    {update : Fields.Update F} {newState : State F} {targets : List Target}
    (hresults : handledResults run'.log = handledResults run.log ++ [(name, update)])
    (hstate : run'.state.state = newState) (hsame : run'.graph = run.graph)
    (hsucceeds : Succeeds run.graph run.state.state name update newState targets)
    (hleft : ∀ name, run.Left name → run'.Left name) :
    Judged graph initial run' (verdicts ++ [⟨name, update, true⟩]) where
  same_graph := hsame.trans hjudged.same_graph
  verdicts_of := by
    refine ⟨by rw [hresults, ← hjudged.verdicts_of.results]; simp, ?_⟩
    rw [hstate]
    exact .taken hjudged.verdicts_of.folds (hjudged.same_graph ▸ hsucceeds)
  left verdict hmember hdeclined := by
    rcases List.mem_append.mp hmember with hold | hnew
    · exact hleft _ (hjudged.left verdict hold hdeclined)
    · rw [List.mem_singleton.mp hnew] at hdeclined
      cases hdeclined

theorem effect (hchange : Effect origin triggered run run')
    (hjudged : Judged graph initial run verdicts) :
    ∃ verdicts', Judged graph initial run' verdicts' := by
  have hleft : ∀ name, run.Left name → run'.Left name := fun _ hbehind => hchange.left hbehind
  have htold {fact : Fact F} {log : List (Fact F)} (hnone : fact.handledResult = none) :
      handledResults (fact :: log) = handledResults log := by
    rw [handledResults_cons, hnone, Option.toList_none, List.append_nil]
  cases hchange with
  | idle => exact ⟨_, hjudged⟩
  | stop => exact ⟨_, hjudged.quiet (htold rfl) rfl rfl hleft⟩
  | create => exact ⟨_, hjudged.quiet (htold rfl) rfl rfl hleft⟩
  | notMinted =>
      exact ⟨_, hjudged.quiet (handledResults_fail _ _ _ _) (fail_state _ _ _ _)
        (fail_graph _ _ _ _) hleft⟩
  | created =>
      exact ⟨_, hjudged.quiet ((htold rfl).trans ((htold rfl).trans (htold rfl))) rfl rfl hleft⟩
  | createdShut => exact ⟨_, hjudged.quiet (htold rfl) rfl rfl hleft⟩
  | notCreated =>
      exact ⟨_, hjudged.quiet (handledResults_fail _ _ _ _) (fail_state _ _ _ _)
        (fail_graph _ _ _ _) hleft⟩
  | give => exact ⟨_, hjudged.quiet ((htold rfl).trans (htold rfl)) rfl rfl hleft⟩
  | fail name slot id core result failure deadline hatName halive hfailing =>
      have hresults := (handledResults_fail
        ((run.ending name id result).change name (·.leaveUntaken)) triggered deadline
        failure).trans (handledResults_ending run name id result)
      have hstate := (fail_state ((run.ending name id result).change name (·.leaveUntaken))
        triggered deadline failure).trans (Run.ending_state run name id result)
      have hsame := (fail_graph ((run.ending name id result).change name (·.leaveUntaken))
        triggered deadline failure).trans (Run.ending_graph run name id result)
      have hstill (hnone : resultOf name result = none) : ∃ verdicts', Judged graph initial
          (((run.ending name id result).change name (·.leaveUntaken)).fail triggered deadline
            failure) verdicts' := by
        rw [hnone, Option.toList_none, List.append_nil] at hresults
        exact ⟨_, hjudged.quiet hresults hstate hsame hleft⟩
      cases hfailing with
      | failed => exact hstill rfl
      | refused => exact hstill rfl
      | cancelled => exact hstill rfl
      | gone => exact hstill rfl
      | declined update failure hdeclined =>
          have hended : (run.ending name id (.ok (.Result update))).slot name =
              some slot.endInstance := by
            rw [slot_ending, Run.slot_change_self, hatName]
            rfl
          exact ⟨_, hjudged.decline hresults hstate hsame hdeclined.declines
            ((Run.left_leaveUntaken hended).fail _ _ _) hleft⟩
  | cancel name slot id core deadline hatName halive hread =>
      have hresults := handledResults_ending run name id (.ok .Cancelled)
      have hsilent : handledResults (run.ending name id (.ok .Cancelled)).log =
          handledResults run.log := by
        rw [hresults]
        exact List.append_nil _
      unfold Run.stopByHost at hleft ⊢
      split
      · rename_i hstopping
        rw [if_pos hstopping] at hleft
        exact ⟨_, hjudged.quiet hsilent rfl rfl hleft⟩
      · rename_i hrunning
        rw [if_neg hrunning] at hleft
        exact ⟨_, hjudged.quiet ((htold rfl).trans hsilent) rfl rfl hleft⟩
  | apply name slot id core update newState targets now later hatName halive happlied hevaluated =>
      have hresults : handledResults ((run.ending name id (.ok (.Result update))).step name id
          update newState targets).log = handledResults run.log ++ [(name, update)] := by
        rw [Run.step_log]
        simp [stepEntries, handledResults_cons, Fact.handledResult]
      have hstate := congrArg Shared.state (Run.step_state run name id update newState targets)
      exact ⟨_, hjudged.take hresults hstate (Run.step_graph run name id update newState targets)
        ⟨now, later, happlied, hevaluated⟩ hleft⟩
  | offer => exact ⟨_, hjudged.quiet (htold rfl) rfl rfl hleft⟩
  | sinkFailed =>
      exact ⟨_, hjudged.quiet (handledResults_fail _ _ _ _) (fail_state _ _ _ _)
        (fail_graph _ _ _ _) hleft⟩
  | abandon => exact ⟨_, hjudged.quiet rfl rfl rfl hleft⟩
  | conclude => exact ⟨_, hjudged.quiet ((htold rfl).trans (htold rfl)) rfl rfl hleft⟩

theorem opened (graph : Graph F) (state : State F) (config : RunConfig) (names : List String) :
    Judged graph state (Run.opened graph state config names) [] := by
  have hfirst := Folded.opened graph state config names
  have hcurrent : (Run.opened graph state config names).state.state = state := by
    rw [hfirst.current]
    simp [Run.opened, Run.note, Run.new, stateAfter, Fact.appliedState]
  refine ⟨hfirst.graph, ⟨?_, ?_⟩, fun _ hmember => absurd hmember List.not_mem_nil⟩
  · simp [Run.opened, Run.note, Run.new, handledResults, Fact.handledResult]
  · rw [hcurrent]
    exact .nothing

end Judged

/-! What a run shows is the fold. -/

def Outcome.failures : Outcome F → List RunFailure
  | .RunEnded _ => []
  | .RunFailed failures _ => failures
  | .RunCancelled failures _ => failures

/-- The checkpoint of an outcome carries a state: as its text, as the text the resume was given,
or, when the state could not be written, as no text beside the failure that says so. -/
inductive CarriesState (last : State F) (failures : List RunFailure) (checkpoint : Checkpoint) :
    Prop
  | written (now : Nat) (htext : last.toJson now = .ok checkpoint.state) :
      CarriesState last failures checkpoint
  | given (limit : ℕ+) (hread : State.rebuildWithLimit 0 checkpoint.state limit = .ok last) :
      CarriesState last failures checkpoint
  | unreadable (now : Nat) (reason : String) (hunwritten : ∀ text, last.toJson now ≠ .ok text)
      (hempty : checkpoint.state = "") (htold : .CheckpointNotBuilt reason ∈ failures) :
      CarriesState last failures checkpoint

/-- A log entry that shows a state shows the fold of the results handled in its past; the nodes of
the declined ones are named, and a run that ended declined none. -/
def ShowsFold (graph : Graph F) (initial : State F) : Fact F → List (Fact F) → Prop
  | .offered checkpoint, past =>
      ∃ verdicts last now, Verdicts graph initial past verdicts last ∧
        last.toJson now = .ok checkpoint.state
  | .concluded outcome, past =>
      ∃ verdicts last, Verdicts graph initial past verdicts last ∧
        (∀ final, outcome = .RunEnded final →
          final = last ∧ ∀ verdict ∈ verdicts, verdict.taken = true) ∧
        ∀ checkpoint, outcome.checkpoint = some checkpoint →
          CarriesState last outcome.failures checkpoint ∧
            ∀ verdict ∈ verdicts, verdict.taken = false → verdict.node ∈ checkpoint.nodes
  | _, _ => True

theorem Run.Left.mem_nonIdleNames {run : Run F} {name : String} (hleft : run.Left name) :
    name ∈ run.nonIdleNames := by
  obtain ⟨slot, hatName, huntaken⟩ := hleft
  refine (Run.mem_nonIdleNames run name).mpr ⟨slot, hatName, ?_⟩
  simp [NodeSlot.isIdle, huntaken]

/-- The checkpoint given to a resume reads back as the state the run began with. -/
def Origin.Reads (origin : Origin) (initial : State F) : Prop :=
  ∀ checkpoint, origin.intoCheckpoint = some checkpoint →
    ∃ limit, State.rebuildWithLimit 0 checkpoint.state limit = .ok initial

theorem Carried.carriesState {graph : Graph F} {initial : State F} {origin : Origin} {run : Run F}
    {checkpoint : Checkpoint} {notBuilt : Option RunFailure} (hreads : origin.Reads initial)
    (hfolded : Folded graph initial run) (hcarried : Carried origin run checkpoint notBuilt) :
    CarriesState run.state.state (run.failures ++ notBuilt.toList) checkpoint := by
  cases hcarried with
  | given _ hsame hunmoved hnames =>
      obtain ⟨limit, hread⟩ := hreads checkpoint hsame
      have hfirst := hfolded.dated
      rw [hunmoved, statesOf, List.getElem?_cons_zero, Option.some.injEq] at hfirst
      exact .given limit (hfirst ▸ hread)
  | built now _ hbuilt => exact .written now (Checkpoint.build_nodes hbuilt).2
  | unreadable now reason hfailed =>
      refine .unreadable now reason (fun text hwritten => ?_) rfl (by simp)
      rw [Checkpoint.build, hwritten] at hfailed
      cases hfailed

theorem Effect.showsFold {graph : Graph F} {initial : State F} {origin : Origin}
    {triggered : Bool} {run run' : Run F} (hchange : Effect origin triggered run run')
    (hreads : origin.Reads initial) {verdicts : List (Verdict F)}
    (hjudged : Judged graph initial run verdicts) (hfolded : Folded graph initial run)
    (hall : Throughout (ShowsFold graph initial) run.log) :
    Throughout (ShowsFold graph initial) run'.log := by
  refine hchange.throughout hall ?_ (fun _ _ _ _ _ _ _ _ => trivial)
    (fun _ _ _ _ _ _ _ _ _ _ => trivial) ?_ ?_
  · intro fact past hplain
    cases fact <;> trivial
  · intro now checkpoint _ hbuilt
    exact ⟨verdicts, _, now, hjudged.verdicts_of, (Checkpoint.build_nodes hbuilt).2⟩
  · intro kind outcome hconcluding
    have hpast : Verdicts graph initial (.told (.Outcome kind) :: run.log) verdicts
        run.state.state := by
      refine ⟨hjudged.verdicts_of.results.trans ?_, hjudged.verdicts_of.folds⟩
      rw [handledResults_cons]
      exact (List.append_nil _).symm
    have hnamed {checkpoint : Checkpoint} {notBuilt : Option RunFailure}
        (hcarried : Carried origin run checkpoint notBuilt) :
        CarriesState run.state.state (run.failures ++ notBuilt.toList) checkpoint ∧
          ∀ verdict ∈ verdicts, verdict.taken = false → verdict.node ∈ checkpoint.nodes := by
      refine ⟨hcarried.carriesState hreads hfolded, fun verdict hmember hdeclined => ?_⟩
      exact (hcarried.mem_nodes _).mpr (hjudged.left verdict hmember hdeclined).mem_nonIdleNames
    refine ⟨verdicts, run.state.state, hpast, ?_⟩
    cases hconcluding with
    | ended hidle hclean =>
        refine ⟨fun final hsame => ?_, fun _ himpossible => (by cases himpossible)⟩
        cases hsame
        refine ⟨rfl, fun verdict hmember => ?_⟩
        by_contra hdeclined
        obtain ⟨slot, hatNode, huntaken⟩ := hjudged.left verdict hmember (by simpa using hdeclined)
        have hfree := (Run.allIdle_iff run).mp hidle _ slot hatNode
        rw [NodeSlot.isIdle_iff, huntaken] at hfree
        cases hfree.2.2
    | failed checkpoint notBuilt hunfinished hown hcarried =>
        refine ⟨fun _ himpossible => (by cases himpossible), fun shown hsame => ?_⟩
        cases hsame
        exact hnamed hcarried
    | cancelled checkpoint notBuilt hunfinished hhost hcarried =>
        refine ⟨fun _ himpossible => (by cases himpossible), fun shown hsame => ?_⟩
        cases hsame
        exact hnamed hcarried

theorem Launch.reads {out : Outside F} {graph : Graph F} {config : RunConfig} {origin : Origin}
    {state : State F} {control : Control F}
    (hlaunch : Launch out graph config origin state control) : origin.Reads state := by
  intro checkpoint hsame
  rcases hlaunch with _ | ⟨given, limit, _, _, hrebuilt, _⟩
  · cases hsame
  · cases hsame
    refine ⟨limit, ?_⟩
    unfold checkResume at hrebuilt
    split at hrebuilt
    · cases hrebuilt
    · split at hrebuilt
      · cases hrebuilt
      · unfold rebuildState at hrebuilt
        split at hrebuilt <;> cases hrebuilt
        assumption

theorem Launch.showsFold {out : Outside F} {graph : Graph F} {config : RunConfig}
    {origin : Origin} {state : State F} {control : Control F}
    (hlaunch : Launch out graph config origin state control) (polls : Nat) :
    Throughout (ShowsFold graph state) (control.after out polls).sys.run.log := by
  obtain ⟨s, hopened, hmoves⟩ := hlaunch.moves polls
  let kept (run : Run F) : Prop := (∃ verdicts, Judged graph state run verdicts) ∧
    Folded graph state run ∧ Throughout (ShowsFold graph state) run.log
  have hstep (triggered : Bool) (run run' : Run F) (hchange : Effect origin triggered run run')
      (hknown : kept run) : kept run' := by
    obtain ⟨⟨verdicts, hjudged⟩, hfolded, hall⟩ := hknown
    exact ⟨hjudged.effect hchange, hfolded.effect hchange,
      hchange.showsFold hlaunch.reads hjudged hfolded hall⟩
  have hfirst : kept s.run := by
    rw [hopened]
    refine ⟨⟨[], Judged.opened graph state config _⟩, Folded.opened graph state config _, ?_⟩
    rw [Run.opened, Run.note, Run.holdAll_log]
    exact ⟨trivial, trivial⟩
  exact (hmoves.keeps hstep hfirst).2.2

/-! A declined result leaves the state and every held flag as they were. -/

/-- The state and the held flags are as before, and what was left behind still is. -/
structure Run.Unmoved (run run' : Run F) : Prop where
  state : run'.state = run.state
  held : ∀ name, (run'.slot name).map (·.held) = (run.slot name).map (·.held)
  left : ∀ name, run.Left name → run'.Left name

namespace Run

theorem unmoved_of_slot {run run' : Run F} (hstate : run'.state = run.state)
    (hslots : ∀ name, run'.slot name = run.slot name) : run.Unmoved run' where
  state := hstate
  held name := by rw [hslots]
  left name := by
    rintro ⟨slot, hatName, huntaken⟩
    exact ⟨slot, (hslots name).trans hatName, huntaken⟩

theorem Unmoved.trans {run run' run'' : Run F} (hfirst : run.Unmoved run')
    (hsecond : run'.Unmoved run'') : run.Unmoved run'' where
  state := hsecond.state.trans hfirst.state
  held name := (hsecond.held name).trans (hfirst.held name)
  left name hbehind := hsecond.left name (hfirst.left name hbehind)

theorem unmoved_change (run : Run F) (name : String) {change : NodeSlot F → NodeSlot F}
    (hheld : ∀ slot, (change slot).held = slot.held)
    (huntaken : ∀ slot, slot.untaken = true → (change slot).untaken = true) :
    run.Unmoved (run.change name change) where
  state := rfl
  held other := by
    rw [slot_change]
    split
    · rw [Option.map_map]
      exact congrArg (Option.map · _) (funext hheld)
    · rfl
  left other hbehind := hbehind.change name change huntaken

theorem unmoved_fail (run : Run F) (triggered : Bool) (deadline : Nat) (failure : RunFailure) :
    run.Unmoved (run.fail triggered deadline failure) :=
  unmoved_of_slot (fail_state _ _ _ _) (slot_fail _ _ _ _)

theorem unmoved_abandonAllLive (run : Run F) : run.Unmoved run.abandonAllLive where
  state := rfl
  held name := by
    rw [slot_abandonAllLive, Option.map_map]
    refine congrArg (Option.map · _) (funext fun slot => ?_)
    change NodeSlot.held (if slot.isLive = true then slot.abandon else slot) = slot.held
    split <;> rfl
  left _ hbehind := hbehind.abandonAllLive

end Run

namespace Sys

variable (out : Outside F)

theorem readToken_unmoved (s : Sys F) : s.run.Unmoved (s.readToken out).run := by
  unfold readToken
  dsimp only
  split
  · exact Run.unmoved_of_slot rfl fun _ => rfl
  · exact Run.unmoved_of_slot rfl fun _ => rfl

theorem readToken_graph (s : Sys F) : (s.readToken out).run.graph = s.run.graph := by
  unfold readToken
  dsimp only
  split <;> rfl

theorem readToken_clock (s : Sys F) : (s.readToken out).world.clock = s.world.clock + 1 := by
  unfold readToken
  dsimp only
  split <;> rfl

theorem readToken_slot (s : Sys F) (name : String) :
    (s.readToken out).run.slot name = s.run.slot name := by
  unfold readToken
  dsimp only
  split <;> rfl

private theorem finish_unmoved (s : Sys F) (starting : Option Checkpoint) :
    s.run.Unmoved (s.finish out starting).sys.run := by
  obtain ⟨log, hsame⟩ := conclude_run out s starting
  change s.run.Unmoved (s.conclude out starting).1.run
  rw [hsame]
  exact Run.unmoved_of_slot rfl fun _ => rfl

theorem loopHead_unmoved (s : Sys F) : s.run.Unmoved (s.loopHead out).sys.run := by
  refine (readToken_unmoved out s).trans ?_
  unfold loopHead
  dsimp only
  split
  · exact finish_unmoved out _ _
  · split
    · exact (Run.unmoved_abandonAllLive _).trans (finish_unmoved out (abandonAllLive _) none)
    · exact Run.unmoved_of_slot rfl fun _ => rfl

/-- A node is left behind as the run fails; nothing else moves. -/
theorem failNode_unmoved {s : Sys F} {node : String} {slot : NodeSlot F}
    (hatNode : s.run.slot node = some slot) (failure : RunFailure) :
    s.run.Unmoved (s.failNode out node failure).run ∧
      (s.failNode out node failure).run.Left node := by
  have hbehind : (s.run.change node (·.leaveUntaken)).Left node := Run.left_leaveUntaken hatNode
  have hstill : s.run.Unmoved (s.run.change node (·.leaveUntaken)) :=
    Run.unmoved_change s.run node (fun _ => rfl) fun _ _ => rfl
  exact ⟨hstill.trans (Run.unmoved_fail _ _ _ _), hbehind.fail _ _ _⟩

/-- The result step of an update that is refused, or whose edge gives no targets. -/
theorem resultStep_declined {s : Sys F} {node : String} {slot : NodeSlot F} (id : InstanceId)
    (update : Fields.Update F) (hatNode : s.run.slot node = some slot)
    (hdeclined : ∀ newState targets,
      s.run.state.state.apply (s.world.clock + 1) update = .ok newState →
        s.run.graph.evaluateEdge (s.world.clock + 2) node newState ≠ .ok targets) :
    s.run.Unmoved (s.resultStep out node id update).run ∧
      (s.resultStep out node id update).run.Left node := by
  unfold resultStep
  dsimp only
  split
  · exact failNode_unmoved out (s := s.tick out) hatNode _
  · exact failNode_unmoved out (s := s.tick out) hatNode _
  · rename_i newState happlied
    split
    · exact failNode_unmoved out (s := (s.tick out).tick out) hatNode _
    · exact failNode_unmoved out (s := (s.tick out).tick out) hatNode _
    · exact failNode_unmoved out (s := (s.tick out).tick out) hatNode _
    · rename_i targets hevaluated
      exact absurd hevaluated (hdeclined newState targets happlied)

/-- The same of the whole handling of the message that carries the result. -/
theorem step_declined {s : Sys F} {node : String} {slot : NodeSlot F} {id : InstanceId}
    {core : Address} {update : Fields.Update F} (hatNode : s.run.slot node = some slot)
    (halive : slot.live = .Running id core)
    (hdeclined : ∀ newState targets,
      s.run.state.state.apply (s.world.clock + 2) update = .ok newState →
        s.run.graph.evaluateEdge (s.world.clock + 3) node newState ≠ .ok targets) :
    s.run.Unmoved (s.step out (.Ended node id (.ok (.Result update)))).run ∧
      (s.step out (.Ended node id (.ok (.Result update)))).run.Left node := by
  have hread := readToken_unmoved out s
  have hatRead : (s.readToken out).run.slot node = some slot :=
    (readToken_slot out s node).trans hatNode
  have hown : slot.runningId = some id := (NodeSlot.runningId_eq_some slot id).mpr ⟨core, halive⟩
  unfold step onEnded
  dsimp only
  rw [hatRead]
  simp only [hown, ne_eq, not_true_eq_false, ↓reduceIte]
  generalize hended : (⟨((s.readToken out).run.change node (·.endInstance)).note
    (.handled node id (.ok (.Result update))),
    dropLive (s.readToken out).world node slot⟩ : Sys F) = s₁
  have hstate : s₁.run.state = s.run.state := by
    rw [← hended]
    exact hread.state
  have hgraph : s₁.run.graph = s.run.graph := by
    rw [← hended]
    exact readToken_graph out s
  have hclock : s₁.world.clock = s.world.clock + 1 := by
    rw [← hended, ← readToken_clock out s]
    unfold dropLive
    split <;> rfl
  have hchanged : (s.readToken out).run.Unmoved
      ((s.readToken out).run.change node (·.endInstance)) :=
    Run.unmoved_change _ node (fun _ => rfl) fun _ hsame => hsame
  have hstill : (s.readToken out).run.Unmoved s₁.run := by
    rw [← hended]
    exact hchanged.trans (Run.unmoved_of_slot rfl fun _ => rfl)
  have hatEnd : s₁.run.slot node = some slot.endInstance := by
    rw [← hended]
    change ((s.readToken out).run.change node (·.endInstance)).slot node = _
    rw [Run.slot_change_self, hatRead]
    rfl
  generalize htold : s₁.reportEvent node id .Result = s₂
  have hsame : s₂.run = s₁.run.tell (.EventHandled node id .Result) := by rw [← htold]; rfl
  have hlater : s₂.world = s₁.world := by rw [← htold]; rfl
  have hatTold : s₂.run.slot node = some slot.endInstance := by rw [hsame]; exact hatEnd
  have hjudged := resultStep_declined out id update hatTold fun newState targets happlied => by
    rw [hlater, hsame, hclock] at *
    rw [Run.tell, Run.note] at *
    rw [hstate] at happlied
    rw [hgraph]
    exact hdeclined newState targets happlied
  have hreported : s₁.run.Unmoved s₂.run := by
    rw [hsame]
    exact Run.unmoved_of_slot rfl fun _ => rfl
  exact ⟨((hread.trans hstill).trans hreported).trans hjudged.1, hjudged.2⟩

end Sys

/-- In every run the state of a step checkpoint, and the state of the outcome, is the initial state
folded with the updates of the handled results that succeeded, in the order they were handled, save
for an outcome whose state cannot be written.  A result whose update is refused, or whose edge gives
no targets, changes neither the state nor a held flag, and its node is named by the checkpoint of the
outcome; a run that ended took every result it handled. -/
theorem state_is_fold {out : Outside F} {graph : Graph F} {config : RunConfig} {origin : Origin}
    {state : State F} {control : Control F}
    (hlaunch : Launch out graph config origin state control) (polls : Nat) :
    (∀ later checkpoint past,
      (control.after out polls).sys.run.log = later ++ .offered checkpoint :: past →
      ∃ verdicts last now, Verdicts graph state past verdicts last ∧
        foldUpdates state.fields (takenUpdates verdicts) = .ok last.fields ∧
        last.toJson now = .ok checkpoint.state) ∧
    (∀ s outcome, control.after out polls = .done s outcome →
      ∃ verdicts last, Verdicts graph state s.run.log verdicts last ∧
        foldUpdates state.fields (takenUpdates verdicts) = .ok last.fields ∧
        (∀ final, outcome = .RunEnded final →
          final = last ∧ ∀ verdict ∈ verdicts, verdict.taken = true) ∧
        ∀ checkpoint, outcome.checkpoint = some checkpoint →
          CarriesState last outcome.failures checkpoint ∧
            ∀ verdict ∈ verdicts, verdict.taken = false → verdict.node ∈ checkpoint.nodes) ∧
    ∀ (s : Sys F) node slot id core update, s.run.slot node = some slot →
      slot.live = .Running id core →
      (∀ newState targets, s.run.state.state.apply (s.world.clock + 2) update = .ok newState →
        s.run.graph.evaluateEdge (s.world.clock + 3) node newState ≠ .ok targets) →
      let run' := ((s.step out (.Ended node id (.ok (.Result update)))).loopHead out).sys.run
      run'.state = s.run.state ∧
        (∀ name, (run'.slot name).map (·.held) = (s.run.slot name).map (·.held)) ∧
        ∃ slot', run'.slot node = some slot' ∧ slot'.untaken = true := by
  have hall := hlaunch.showsFold polls
  refine ⟨fun later checkpoint past hcut => ?_, fun s outcome hover => ?_, ?_⟩
  · obtain ⟨verdicts, last, now, hjudged, hwritten⟩ := (throughout_iff _ _).mp hall _ _ _ hcut
    exact ⟨verdicts, last, now, hjudged, hjudged.folds.fold, hwritten⟩
  · have hsigned := hlaunch.signed polls
    rw [hover] at hall hsigned
    obtain ⟨past, hlog⟩ := hsigned
    change Throughout (ShowsFold graph state) s.run.log at hall
    rw [hlog] at hall ⊢
    obtain ⟨verdicts, last, hjudged, hended, hcarried⟩ := hall.1
    refine ⟨verdicts, last, ⟨hjudged.results.trans ?_, hjudged.folds⟩, hjudged.folds.fold, hended,
      hcarried⟩
    rw [handledResults_cons]
    exact (List.append_nil _).symm
  · intro s node slot id core update hatNode halive hdeclined
    obtain ⟨hstill, hbehind⟩ := Sys.step_declined out hatNode halive hdeclined
    have hhead := Sys.loopHead_unmoved out (s.step out (.Ended node id (.ok (.Result update))))
    have hboth := hstill.trans hhead
    exact ⟨hboth.state, hboth.held, hhead.left node hbehind⟩

/-- The instance of `a` ends with an update that takes the count over the size limit. -/
def tooMuch : Outside Tally
  | 2 => .doing [.channel 0, .created ⟨"a", 0⟩ (.ok 0)]
  | 7 => .doing [.finish 0 (.Result (100 : Nat)), .forward 0]
  | _ => .still

/-- The small graph with that update: what the run shows at its end is the fold without it. -/
theorem state_is_fold_tooMuch :
    ∃ s outcome verdicts last,
      (pairRun tooMuch ⟨false, 0, true⟩).after tooMuch 2 = .done s outcome ∧
      Verdicts pairGraph Tally.zero s.run.log verdicts last ∧
      foldUpdates Tally.zero.fields (takenUpdates verdicts) = .ok last.fields := by
  obtain ⟨s, outcome, hover⟩ := Control.exists_done
    (show ((pairRun tooMuch ⟨false, 0, true⟩).after tooMuch 2).isDone = true by decide +kernel)
  obtain ⟨verdicts, last, hjudged, hfolded, -⟩ :=
    (state_is_fold (pair_launch tooMuch ⟨false, 0, true⟩) 2).2.1 s outcome hover
  exact ⟨s, outcome, verdicts, last, hover, hjudged, hfolded⟩

/-! A state that can be written at first and no longer later. -/

structure Flaky where
  deriving DecidableEq

instance : Fields Flaky where
  Update := Unit
  emptyUpdate := ()
  validate _ := .ok ()
  apply fields _ := .ok fields
  toJson now _ := if now < 2 then .ok "{}" else .error "the state is gone"
  fromJson _ := .ok ⟨⟩

def Flaky.first : State Flaky := ⟨⟨⟩, Tally.zero.limit, 2, rfl, ⟨0, "{}", rfl, rfl⟩, by decide⟩

def lonely : GraphBuilder Flaky where
  version := "1"
  nodes := [⟨"n", "flow", "plain"⟩]
  edges := [⟨"from_n", "n", [.END], fun _ _ => .ok [.END]⟩]
  entries := ["n"]

theorem lonely_accepted : lonely.build.isOk = true := by decide +kernel

/-- The state text of the outcome and how many results were handled. -/
def Control.shownState : Control F → Option (String × Nat)
  | .waiting _ => none
  | .done s outcome => outcome.checkpoint.map fun checkpoint =>
      (checkpoint.state, (handledResults s.run.log).length)

private theorem shownState_eq_some (control : Control F) (text : String)
    (hshown : control.shownState = some (text, 0)) :
    ∃ s outcome checkpoint, control = .done s outcome ∧ outcome.checkpoint = some checkpoint ∧
      checkpoint.state = text ∧ handledResults s.run.log = [] := by
  rcases control with s | ⟨s, outcome⟩
  · cases hshown
  · obtain ⟨checkpoint, hcarried, hsame⟩ := Option.map_eq_some_iff.mp hshown
    rw [Prod.mk.injEq, List.length_eq_zero_iff] at hsame
    exact ⟨s, outcome, checkpoint, rfl, hcarried, hsame⟩

/-- A run cancelled at once, whose state can no longer be written: no result was handled, and yet
the state of the outcome is no text of the state the run began with. -/
theorem unreadable_outcome :
    ∃ control s outcome checkpoint,
      Launch (fun _ => .still) (lonely.built lonely_accepted) ⟨true, 0, false⟩ (.Nodes ["n"])
        Flaky.first control ∧
      control.after (fun _ => .still) 0 = .done s outcome ∧
      outcome.checkpoint = some checkpoint ∧
      handledResults s.run.log = [] ∧
      ∀ now, Flaky.first.toJson now ≠ .ok checkpoint.state := by
  have hlaunch : Launch (fun _ => .still) (lonely.built lonely_accepted) ⟨true, 0, false⟩
      (.Nodes ["n"]) Flaky.first _ := Launch.ofStart Flaky.first ["n"] (by decide +kernel)
  obtain ⟨s, outcome, checkpoint, hover, hcarried, hempty, hnothing⟩ :=
    shownState_eq_some (Sys.begin (fun _ => .still)
      ⟨.new (lonely.built lonely_accepted) Flaky.first 0 false, .fresh true⟩ (.Nodes ["n"])) ""
      (by decide +kernel)
  refine ⟨_, s, outcome, checkpoint, hlaunch, hover, hcarried, hnothing, fun now hwritten => ?_⟩
  rw [hempty] at hwritten
  change (if now < 2 then Attempt.ok "{}" else Attempt.error "the state is gone").mapError
    InvalidState.unserializable = .ok "" at hwritten
  split at hwritten
  · exact absurd hwritten (by decide)
  · cases hwritten

end LlmGraph.Executor
