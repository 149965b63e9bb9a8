/- digest: Every checkpoint a run produces is read back from its wire form, and a resume on the same
   graph takes it unless it names no node or its state cannot be read. -/

import LlmGraph.Executor.Completeness
import LlmGraph.Executor.Resume

set_option autoImplicit false
set_option relaxedAutoImplicit false

namespace LlmGraph.Executor

open Contract
open Lib (JsonText Throughout throughout_iff)

variable {F : Type} [Fields F]

/-- The structure of the checkpoint is the one of the graph, as far as a resume compares them, and
its nodes are nodes of the graph, named once each. -/
structure Acceptable (graph : Graph F) (checkpoint : Checkpoint) : Prop where
  shape : checkStructure graph checkpoint = .ok ()
  once : checkpoint.nodes.Nodup
  known : ∀ name ∈ checkpoint.nodes, name ∈ graph.shape.names

/-- A checkpoint that carries the structure of the graph passes the comparison. -/
theorem checkStructure_same {graph : Graph F} {checkpoint : Checkpoint}
    (hsame : checkpoint.structureOf = graph.shape) : checkStructure graph checkpoint = .ok () := by
  simp [checkStructure, hsame]

/-- A resume refuses an acceptable checkpoint for an empty node list or an unreadable state only. -/
theorem checkResume_error {graph : Graph F} {checkpoint : Checkpoint}
    (hacceptable : Acceptable graph checkpoint) (now : Nat) (limit : ℕ+) (error : ResumeError) :
    checkResume graph now checkpoint limit = .error error ↔
      (checkpoint.nodes = [] ∧ error = .NoNodes) ∨
        (checkpoint.nodes ≠ [] ∧
          rebuildState (F := F) now checkpoint limit = .error error) := by
  by_cases hnodes : checkpoint.nodes = []
  · have hnames : checkNames graph checkpoint.nodes = .error .Empty := by
      rw [hnodes]
      rfl
    have hchecked : checkResume graph now checkpoint limit = .error .NoNodes := by
      simp only [checkResume, hnames, NameFault.toResumeError]
    rw [hchecked, Except.error.injEq]
    simp only [hnodes, true_and, ne_eq, not_true_eq_false, false_and, or_false]
    exact eq_comm
  · have hnames : checkNames graph checkpoint.nodes = .ok () :=
      (checkNames_ok graph _).mpr ⟨hnodes, hacceptable.once, hacceptable.known⟩
    simp only [checkResume, hnames, hacceptable.shape, hnodes, ne_eq, not_false_eq_true, true_and,
      false_and, false_or]

/-- The refusal of a state that cannot be read says so. -/
theorem rebuildState_error {now : Nat} {checkpoint : Checkpoint} {limit : ℕ+}
    {error : ResumeError} (hrefused : rebuildState (F := F) now checkpoint limit = .error error) :
    ∃ reason, error = .StateRejected reason := by
  rw [rebuildState] at hrefused
  split at hrefused
  · cases hrefused
  · cases hrefused
    exact ⟨_, rfl⟩
  · cases hrefused
    exact ⟨_, rfl⟩

namespace Acceptable

/-- What a run takes of itself: its own structure and the names of its slots. -/
theorem of_run {graph : Graph F} {run : Run F} (haccounts : Accounts run)
    (hgraph : run.graph = graph) {checkpoint : Checkpoint}
    (hshape : checkpoint.structureOf = run.graph.shape)
    (hnodes : checkpoint.nodes = run.nonIdleNames) : Acceptable graph checkpoint where
  shape := checkStructure_same (hgraph ▸ hshape)
  once := hnodes ▸ run.names_nodup _
  known name hname := by
    rw [hnodes, Run.mem_nonIdleNames] at hname
    obtain ⟨slot, hslot, -⟩ := hname
    rw [← hgraph, haccounts.slots name, hslot]
    rfl

/-- What a resume has taken once it takes again. -/
theorem of_resume {graph : Graph F} {checkpoint : Checkpoint} {now : Nat} {limit : ℕ+}
    {state : State F} (htaken : checkResume graph now checkpoint limit = .ok state) :
    Acceptable graph checkpoint := by
  rw [checkResume] at htaken
  split at htaken
  · cases htaken
  · rename_i hnames
    split at htaken
    · cases htaken
    · rename_i hshape
      obtain ⟨-, honce, hknown⟩ := (checkNames_ok graph _).mp hnames
      exact ⟨hshape, honce, hknown⟩

end Acceptable

/-- The checkpoint an outcome carries is the run's own, or the one it was resumed from. -/
theorem Carried.acceptable {graph : Graph F} {origin : Origin} {run : Run F}
    {checkpoint : Checkpoint} {notBuilt : Option RunFailure}
    (hcarried : Carried origin run checkpoint notBuilt) (haccounts : Accounts run)
    (hgraph : run.graph = graph)
    (horigin : ∀ given, origin.intoCheckpoint = some given → Acceptable graph given) :
    Acceptable graph checkpoint := by
  cases hcarried with
  | given _ hgiven => exact horigin _ hgiven
  | built now _ hbuilt =>
    exact .of_run haccounts hgraph (Checkpoint.build_structureOf hbuilt)
      (Checkpoint.build_nodes hbuilt).1
  | unreadable => exact .of_run haccounts hgraph rfl rfl

/-- A log entry that shows a checkpoint shows an acceptable one. -/
def ShowsAcceptable (graph : Graph F) : Fact F → List (Fact F) → Prop
  | .offered checkpoint, _ => Acceptable graph checkpoint
  | .concluded outcome, _ =>
      ∀ checkpoint, outcome.checkpoint = some checkpoint → Acceptable graph checkpoint
  | _, _ => True

theorem Effect.showsAcceptable {graph : Graph F} {origin : Origin} {triggered : Bool}
    {run run' : Run F} (hchange : Effect origin triggered run run') (haccounts : Accounts run)
    (hgraph : run.graph = graph)
    (horigin : ∀ given, origin.intoCheckpoint = some given → Acceptable graph given)
    (hall : Throughout (ShowsAcceptable graph) run.log) :
    Throughout (ShowsAcceptable graph) run'.log := by
  refine hchange.throughout hall ?_ (fun _ _ _ _ _ _ _ _ => trivial)
    (fun _ _ _ _ _ _ _ _ _ _ => trivial) ?_ ?_
  · intro fact past hplain
    cases fact <;> trivial
  · intro now checkpoint _ hbuilt
    exact .of_run haccounts hgraph (Checkpoint.build_structureOf hbuilt)
      (Checkpoint.build_nodes hbuilt).1
  · intro kind outcome hconcluding checkpoint hcarries
    cases hconcluding with
    | ended => cases hcarries
    | failed _ _ _ _ hcarried =>
      cases hcarries
      exact hcarried.acceptable haccounts hgraph horigin
    | cancelled _ _ _ _ hcarried =>
      cases hcarries
      exact hcarried.acceptable haccounts hgraph horigin

section Launched

variable {out : Outside F} {graph : Graph F} {config : RunConfig} {origin : Origin}
  {state : State F} {control : Control F}

theorem Launch.origin_acceptable (hlaunch : Launch out graph config origin state control) :
    ∀ given, origin.intoCheckpoint = some given → Acceptable graph given := by
  intro given hgiven
  cases hlaunch with
  | start => cases hgiven
  | resume _ _ _ _ hrebuilt =>
    cases hgiven
    exact .of_resume hrebuilt

theorem Launch.showsAcceptable (hlaunch : Launch out graph config origin state control)
    (polls : Nat) :
    Throughout (ShowsAcceptable graph) (control.after out polls).sys.run.log := by
  obtain ⟨s, hopened, hmoves⟩ := hlaunch.moves polls
  have hfirst : Accounts s.run ∧ Folded graph state s.run ∧
      Throughout (ShowsAcceptable graph) s.run.log := by
    rw [hopened]
    refine ⟨Accounts.opened graph state config _ hlaunch.names_known,
      Folded.opened graph state config _, ?_⟩
    rw [Run.opened, Run.note, Run.holdAll_log]
    exact ⟨trivial, trivial⟩
  refine (hmoves.keeps (P := fun run => Accounts run ∧ Folded graph state run ∧
    Throughout (ShowsAcceptable graph) run.log) ?_ hfirst).2.2
  rintro triggered run run' hchange ⟨haccounts, hfolded, hall⟩
  exact ⟨haccounts.effect hchange, hfolded.effect hchange,
    hchange.showsAcceptable haccounts hfolded.graph hlaunch.origin_acceptable hall⟩

/-- A run has produced a checkpoint: it offered it to the sink after a step, or it ended with it. -/
def Control.Produced (control : Control F) (checkpoint : Checkpoint) : Prop :=
  .offered checkpoint ∈ control.sys.run.log ∨
    ∃ s outcome, control = .done s outcome ∧ outcome.checkpoint = some checkpoint

theorem Launch.acceptable_of_produced (hlaunch : Launch out graph config origin state control)
    {polls : Nat} {checkpoint : Checkpoint}
    (hproduced : (control.after out polls).Produced checkpoint) : Acceptable graph checkpoint := by
  have hall := (throughout_iff _ _).mp (hlaunch.showsAcceptable polls)
  rcases hproduced with hoffered | ⟨s, outcome, hover, hcarries⟩
  · obtain ⟨later, past, hcut⟩ := List.append_of_mem hoffered
    exact hall _ _ _ hcut
  · have hsigned := hlaunch.signed polls
    rw [hover] at hsigned hall
    obtain ⟨past, hlog⟩ := hsigned
    exact hall [] _ past hlog checkpoint hcarries

/-- Every checkpoint that a run produces, offered to the sink or carried by the outcome, is read
back from its wire form as it was.  A resume of what was read, on the same graph, is refused for
an empty node list or an unreadable state and for nothing else. -/
theorem checkpoints_resumable (hlaunch : Launch out graph config origin state control)
    (polls : Nat) {checkpoint : Checkpoint}
    (hproduced : (control.after out polls).Produced checkpoint) (text : JsonText)
    (describe : BuildError → String) (hreads : text.Reads checkpoint.toJson) :
    Checkpoint.fromJsonSlice text describe (text.print checkpoint.toJson) = .ok checkpoint ∧
      checkStructure graph checkpoint = .ok () ∧
      (checkpoint.nodes ≠ [] → checkNames graph checkpoint.nodes = .ok ()) ∧
      ∀ (out' : Outside F) (limit : ℕ+) (config' : RunConfig) (error : ResumeError),
        resume out' graph checkpoint limit config' = .error error ↔
          (checkpoint.nodes = [] ∧ error = .NoNodes) ∨
            (checkpoint.nodes ≠ [] ∧ (∃ reason, error = .StateRejected reason) ∧
              rebuildState (F := F) 0 checkpoint limit = .error error) := by
  have hacceptable := hlaunch.acceptable_of_produced hproduced
  refine ⟨Checkpoint.fromJsonSlice_print text describe hreads, hacceptable.shape, ?_, ?_⟩
  · intro hsome
    exact (checkNames_ok graph _).mpr ⟨hsome, hacceptable.once, hacceptable.known⟩
  · intro out' limit config' error
    have hchecked : resume out' graph checkpoint limit config' = .error error ↔
        checkResume graph 0 checkpoint limit = .error error := by
      rw [resume]
      cases checkResume graph 0 checkpoint limit <;> simp
    rw [hchecked, checkResume_error hacceptable]
    constructor
    · rintro (hempty | ⟨hsome, hunread⟩)
      · exact .inl hempty
      · exact .inr ⟨hsome, rebuildState_error hunread, hunread⟩
    · rintro (hempty | ⟨hsome, -, hunread⟩)
      · exact .inl hempty
      · exact .inr ⟨hsome, hunread⟩

end Launched

/-- Whether the fact offers this very checkpoint. -/
private def offers (checkpoint : Checkpoint) : Fact F → Bool
  | .offered other => decide (other = checkpoint)
  | _ => false

private theorem offers_eq {checkpoint : Checkpoint} {fact : Fact F}
    (hoffers : offers checkpoint fact = true) : fact = .offered checkpoint := by
  cases fact with
  | offered other =>
    have heq : other = checkpoint := of_decide_eq_true hoffers
    rw [heq]
  | _ => cases hoffers

/-- The checkpoint between the two nodes of the small graph, offered by its run from `a`. -/
theorem checkpoints_resumable_between :
    Checkpoint.fromJsonSlice (textOf between.toJson) (fun _ => "invalid structure")
        ((textOf between.toJson).print between.toJson) = .ok between ∧
      checkStructure pairGraph between = .ok () ∧
      (between.nodes ≠ [] → checkNames pairGraph between.nodes = .ok ()) ∧
      ∀ (out' : Outside Tally) (limit : ℕ+) (config' : RunConfig) (error : ResumeError),
        resume out' pairGraph between limit config' = .error error ↔
          (between.nodes = [] ∧ error = .NoNodes) ∨
            (between.nodes ≠ [] ∧ (∃ reason, error = .StateRejected reason) ∧
              rebuildState (F := Tally) 0 between limit = .error error) := by
  have hlaunch : Launch firstTime pairGraph ⟨false, 0, true⟩ (.Nodes ["a"]) Tally.zero firstRun :=
    Launch.ofStart Tally.zero ["a"] (by decide +kernel)
  have hany : (firstRun.after firstTime 4).sys.run.log.any (offers between) = true := by
    decide +kernel
  have hoffered : .offered between ∈ (firstRun.after firstTime 4).sys.run.log := by
    obtain ⟨fact, hmem, hfact⟩ := List.any_eq_true.mp hany
    exact offers_eq hfact ▸ hmem
  exact checkpoints_resumable hlaunch 4 (.inl hoffered) (textOf between.toJson)
    (fun _ => "invalid structure") (textOf_reads _)

end LlmGraph.Executor
