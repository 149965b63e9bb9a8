/- digest: Checkpoints name exactly the nodes that owe work, and a run ends only when none does. -/

import LlmGraph.Executor.Accounts

set_option autoImplicit false
set_option relaxedAutoImplicit false

namespace LlmGraph.Executor

open Contract
open Lib (Throughout throughout_cons throughout_iff)

variable {F : Type} [Fields F]

/-- A log entry that shows a checkpoint names the nodes that owe work in view of the past. -/
def NamesDebts : Fact F → List (Fact F) → Prop
  | .offered checkpoint, past =>
      ∀ name, name ∈ checkpoint.nodes ↔ (ledgerOf past).Owes name
  | .concluded (.RunEnded _), past => ∀ name, ¬(ledgerOf past).Owes name
  | .concluded (.RunFailed _ checkpoint), past =>
      ∀ name, name ∈ checkpoint.nodes ↔ (ledgerOf past).Owes name
  | .concluded (.RunCancelled _ checkpoint), past =>
      ∀ name, name ∈ checkpoint.nodes ↔ (ledgerOf past).Owes name
  | _, _ => True

/-- Every change of a run whose accounts are in order shows only true checkpoints. -/
theorem Effect.namesDebts {origin : Origin} {triggered : Bool} {run run' : Run F}
    (hchange : Effect origin triggered run run') (haccounts : Accounts run)
    (hall : Throughout NamesDebts run.log) : Throughout NamesDebts run'.log := by
  refine hchange.throughout hall ?_ (fun _ _ _ _ _ _ _ _ => trivial)
    (fun _ _ _ _ _ _ _ _ _ _ => trivial) ?_ ?_
  · intro fact past hplain
    cases fact <;> trivial
  · intro now checkpoint _ hbuilt name
    rw [(Checkpoint.build_nodes hbuilt).1]
    exact haccounts.mem_nonIdleNames name
  · intro kind outcome hconcluding
    cases hconcluding with
    | ended hidle hclean =>
        intro name howes
        rw [ledgerOf_told] at howes
        obtain ⟨slot, hatName, hbusy⟩ :=
          (Run.mem_nonIdleNames run name).mp ((haccounts.mem_nonIdleNames name).mpr howes)
        rw [(Run.allIdle_iff run).mp hidle name slot hatName] at hbusy
        cases hbusy
    | failed checkpoint notBuilt hunfinished hown hcarried =>
        intro name
        rw [ledgerOf_told]
        exact (hcarried.mem_nodes name).trans (haccounts.mem_nonIdleNames name)
    | cancelled checkpoint notBuilt hunfinished hhost hcarried =>
        intro name
        rw [ledgerOf_told]
        exact (hcarried.mem_nodes name).trans (haccounts.mem_nonIdleNames name)

/-- The log of a run that is over starts with its outcome. -/
def Signed : Control F → Prop
  | .waiting _ => True
  | .done s outcome => ∃ past, s.run.log = .concluded outcome :: past

namespace Sys

variable (out : Outside F)

theorem finish_signed (s : Sys F) (starting : Option Checkpoint) :
    Signed (s.finish out starting) := by
  change ∃ past, (s.conclude out starting).1.run.log =
    .concluded (s.conclude out starting).2 :: past
  unfold conclude
  split
  · exact ⟨_, rfl⟩
  · rcases starting with _ | checkpoint
    · dsimp only [outcomeCheckpoint]
      split <;> split <;> exact ⟨_, rfl⟩
    · dsimp only
      split <;> exact ⟨_, rfl⟩

theorem loopHead_signed (s : Sys F) : Signed (s.loopHead out) := by
  unfold loopHead
  dsimp only
  split
  · exact finish_signed out _ _
  · split
    · exact finish_signed out _ _
    · trivial

theorem poll_signed (s : Sys F) : Signed (s.poll out) := by
  unfold poll
  dsimp only
  split
  · split
    · exact loopHead_signed out _
    · split
      · exact loopHead_signed out _
      · trivial
  · split
    · exact loopHead_signed out _
    · split
      · exact finish_signed out _ _
      · trivial

end Sys

theorem Launch.signed {out : Outside F} {graph : Graph F} {config : RunConfig} {origin : Origin}
    {state : State F} {control : Control F}
    (hlaunch : Launch out graph config origin state control) (polls : Nat) :
    Signed (control.after out polls) := by
  induction polls with
  | zero =>
      rw [hlaunch.begins.1]
      unfold Control.after Sys.begin
      dsimp only
      split
      · exact Sys.finish_signed out _ _
      · exact Sys.loopHead_signed out _
  | succ polls hstep =>
      change Signed ((control.after out polls).next out)
      rcases hstanding : control.after out polls with s | ⟨s, outcome⟩
      · exact Sys.poll_signed out s
      · rw [hstanding] at hstep
        exact hstep

theorem Launch.namesDebts {out : Outside F} {graph : Graph F} {config : RunConfig}
    {origin : Origin} {state : State F} {control : Control F}
    (hlaunch : Launch out graph config origin state control) (polls : Nat) :
    Throughout NamesDebts (control.after out polls).sys.run.log := by
  obtain ⟨s, hopened, hmoves⟩ := hlaunch.moves polls
  have hboth : Accounts s.run ∧ Throughout NamesDebts s.run.log := by
    rw [hopened]
    refine ⟨Accounts.opened graph state config _ hlaunch.names_known, ?_⟩
    rw [Run.opened, Run.note, Run.holdAll_log]
    exact ⟨trivial, trivial⟩
  exact (hmoves.keeps (P := fun run => Accounts run ∧ Throughout NamesDebts run.log)
    (fun _ _ _ hchange hknown => ⟨hknown.1.effect hchange, hchange.namesDebts hknown.1 hknown.2⟩)
    hboth).2

/-- Every checkpoint offered to the sink, and the checkpoint of the outcome, names exactly the
nodes that owe work when it is taken; `RunEnded` is reported only when no node owes work.  A node
owes from each of its targetings until an instance that accepted the state of that targeting, or a
later one, has ended with an applied result. -/
theorem checkpoints_name_debts {out : Outside F} {graph : Graph F} {config : RunConfig}
    {origin : Origin} {state : State F} {control : Control F}
    (hlaunch : Launch out graph config origin state control) (polls : Nat) :
    (∀ later checkpoint past,
      (control.after out polls).sys.run.log = later ++ .offered checkpoint :: past →
      ∀ name, name ∈ checkpoint.nodes ↔ (ledgerOf past).Owes name) ∧
    ∀ s outcome, control.after out polls = .done s outcome →
      (∀ checkpoint, outcome.checkpoint = some checkpoint →
        ∀ name, name ∈ checkpoint.nodes ↔ (ledgerOf s.run.log).Owes name) ∧
      ∀ last, outcome = .RunEnded last → ∀ name, ¬(ledgerOf s.run.log).Owes name := by
  have hall := hlaunch.namesDebts polls
  refine ⟨fun later checkpoint past hcut => (throughout_iff _ _).mp hall _ _ _ hcut, ?_⟩
  intro s outcome hover
  have hsigned := hlaunch.signed polls
  rw [hover] at hall hsigned
  obtain ⟨past, hlog⟩ := hsigned
  change Throughout NamesDebts s.run.log at hall
  rw [hlog] at hall ⊢
  rw [ledgerOf_concluded]
  rcases outcome with last | ⟨failures, carried⟩ | ⟨failures, carried⟩
  · exact ⟨fun _ himpossible => (by cases himpossible), fun _ _ => hall.1⟩
  · refine ⟨fun checkpoint hsame => ?_, fun _ himpossible => (by cases himpossible)⟩
    cases hsame
    exact hall.1
  · refine ⟨fun checkpoint hsame => ?_, fun _ himpossible => (by cases himpossible)⟩
    cases hsame
    exact hall.1

/-- The small graph cancelled while `n` was being created: the checkpoint is complete there. -/
theorem checkpoints_name_debts_pair :
    (∀ later checkpoint past,
      ((pairRun (fun _ => .doing [.trigger]) ⟨false, 0, true⟩).after
          (fun _ => .doing [.trigger]) 2).sys.run.log = later ++ .offered checkpoint :: past →
      ∀ name, name ∈ checkpoint.nodes ↔ (ledgerOf past).Owes name) ∧
    ∀ s outcome,
      (pairRun (fun _ => .doing [.trigger]) ⟨false, 0, true⟩).after
        (fun _ => .doing [.trigger]) 2 = .done s outcome →
      (∀ checkpoint, outcome.checkpoint = some checkpoint →
        ∀ name, name ∈ checkpoint.nodes ↔ (ledgerOf s.run.log).Owes name) ∧
      ∀ last, outcome = .RunEnded last → ∀ name, ¬(ledgerOf s.run.log).Owes name :=
  checkpoints_name_debts (pair_launch _ _) 2

/-! The obligation by the moment an input is given instead of the step its state was made at. -/

def Fact.targets (name : String) : Fact F → Bool
  | .started names => name ∈ names
  | .applied _ _ _ _ targets => Target.Node name ∈ targets
  | _ => false

def Fact.acceptedBy (name : String) : Fact F → Option InstanceId
  | .accepted node id _ => if node = name then some id else none
  | _ => none

def Fact.appliedBy (name : String) : Fact F → Option InstanceId
  | .applied node id _ _ _ => if node = name then some id else none
  | _ => none

/-- A targeting of the node is not followed by an accepted input of an instance whose result was
applied. -/
def OwesByGiving (log : List (Fact F)) (name : String) : Prop :=
  ∃ i : Fin log.length, log[i].targets name = true ∧
    ∀ id ∈ (log.take i).filterMap (Fact.acceptedBy name),
      id ∉ (log.take i).filterMap (Fact.appliedBy name)

instance (log : List (Fact F)) (name : String) : Decidable (OwesByGiving log name) :=
  inferInstanceAs (Decidable (∃ i : Fin log.length, log[i].targets name = true ∧
    ∀ id ∈ (log.take i).filterMap (Fact.acceptedBy name),
      id ∉ (log.take i).filterMap (Fact.appliedBy name)))

/-- The instance of `n` is still being created with the first state when the step of `a` targets
`n`; the host cancels before it is there, so it is given the first state alone, and its result is
applied while the run stops. -/
def lateCreation : Outside Tally
  | 2 => .doing [.channel 0, .created ⟨"a", 0⟩ (.ok 0)]
  | 7 => .doing [.finish 0 (.Result (1 : Nat)), .forward 0]
  | 14 => .doing [.trigger]
  | 18 => .doing [.channel 1, .created ⟨"n", 1⟩ (.ok 1)]
  | 22 => .doing [.finish 1 (.Result (1 : Nat)), .forward 1]
  | _ => .still

/-- The checkpoint nodes and, by the moment of giving, the debt of `n` at the end of a run. -/
def Control.lateReport : Control F → Option (List String × Bool)
  | .waiting _ => none
  | .done s outcome => outcome.checkpoint.map fun checkpoint =>
      (checkpoint.nodes, decide (OwesByGiving s.run.log "n"))

private theorem lateReport_eq_some (control : Control F) (nodes : List String)
    (hreport : control.lateReport = some (nodes, false)) :
    ∃ s outcome checkpoint, control = .done s outcome ∧
      outcome.checkpoint = some checkpoint ∧ checkpoint.nodes = nodes ∧
      ¬OwesByGiving s.run.log "n" := by
  rcases control with s | ⟨s, outcome⟩
  · cases hreport
  · obtain ⟨checkpoint, hcarried, hsame⟩ := Option.map_eq_some_iff.mp hreport
    rw [Prod.mk.injEq, decide_eq_false_iff_not] at hsame
    exact ⟨s, outcome, checkpoint, rfl, hcarried, hsame⟩

/-- Counting from the moment an input is given, a checkpoint can name a node that owes nothing:
`n` was targeted, then accepted an input, then its result was applied, and it is named still. -/
theorem giving_is_not_enough :
    ∃ s outcome checkpoint,
      Launch lateCreation pairGraph ⟨false, 10, false⟩ (.Nodes ["a", "n"]) Tally.zero
        (pairRun lateCreation ⟨false, 10, false⟩) ∧
      (pairRun lateCreation ⟨false, 10, false⟩).after lateCreation 9 = .done s outcome ∧
      outcome.checkpoint = some checkpoint ∧ checkpoint.nodes = ["n"] ∧
      ¬OwesByGiving s.run.log "n" := by
  obtain ⟨s, outcome, checkpoint, hover, hrest⟩ :=
    lateReport_eq_some ((pairRun lateCreation ⟨false, 10, false⟩).after lateCreation 9) ["n"]
      (by decide +kernel)
  exact ⟨s, outcome, checkpoint, pair_launch _ _, hover, hrest⟩

end LlmGraph.Executor
