/- digest: A join through a merger: lanes started together lead to one merger node, and in every order
   of their ends the run ends after the one result of the merger, with every mark set. -/

import LlmGraph.Executor.Resume
import LlmGraph.Flow.Merger
import Mathlib.Algebra.GroupWithZero.Nat
import Mathlib.Algebra.Order.BigOperators.Group.List

set_option autoImplicit false
set_option relaxedAutoImplicit false

namespace LlmGraph.Executor

open Contract
open LlmGraph.Flow (Merger Stage)

variable {F : Type} [Fields F]

/-- The inputs an instance accepted, in order. -/
def acceptedInputs (log : List (Fact F)) (name : String) (id : InstanceId) : List (Shared F) :=
  (log.filterMap (Fact.acceptedInput name id)).reverse

theorem mem_acceptedInputs {log : List (Fact F)} {name : String} {id : InstanceId}
    {input : Shared F} : input ∈ acceptedInputs log name id ↔ .accepted name id input ∈ log := by
  rw [acceptedInputs, List.mem_reverse, List.mem_filterMap]
  constructor
  · rintro ⟨fact, hmem, hinput⟩
    unfold Fact.acceptedInput at hinput
    split at hinput
    · split at hinput
      · rename_i hboth
        cases hinput
        rw [← hboth.1, ← hboth.2]
        exact hmem
      · cases hinput
    · cases hinput
  · intro hmem
    exact ⟨_, hmem, by simp [Fact.acceptedInput]⟩

/-- A change of a run that keeps its graph and its state, with what it adds to the log. -/
structure Adds (run run' : Run F) (new : List (Fact F)) : Prop where
  graph : run'.graph = run.graph
  state : run'.state = run.state
  log : run'.log = new ++ run.log

namespace Adds

theorem trans {run run' run'' : Run F} {new newer : List (Fact F)} (hfirst : Adds run run' new)
    (hsecond : Adds run' run'' newer) : Adds run run'' (newer ++ new) where
  graph := hsecond.graph.trans hfirst.graph
  state := hsecond.state.trans hfirst.state
  log := by rw [hsecond.log, hfirst.log, List.append_assoc]

theorem note (run : Run F) (fact : Fact F) : Adds run (run.note fact) [fact] := ⟨rfl, rfl, rfl⟩

theorem change (run : Run F) (name : String) (change : NodeSlot F → NodeSlot F) :
    Adds run (run.change name change) [] := ⟨rfl, rfl, rfl⟩

theorem accept (run : Run F) (name : String) (id : InstanceId) (input : Shared F) :
    Adds run (run.accept name id input)
      [.told (.InputHandedOver name id), .accepted name id input] := ⟨rfl, rfl, rfl⟩

theorem instanceCreated (run : Run F) (name : String) (id : InstanceId) (core : Address)
    (slot : NodeSlot F) : Adds run (run.instanceCreated name id core slot)
      [.told (.InstanceCreated id name slot.kind slot.subkind)] := ⟨rfl, rfl, rfl⟩

theorem create (run : Run F) (name : String) :
    Adds run (run.create name) [.creating name run.minted] := ⟨rfl, rfl, rfl⟩

end Adds

/-- Two cores that differ in nothing but the wakers they hold. -/
structure CoresAlike (own served : Core F) : Prop where
  node : own.node = served.node
  queue : own.queue = served.queue
  executor : own.executor = served.executor

/-- Lanes, the node they lead to with its merger, and when the mark of a lane is set. -/
structure Join (F : Type) [Fields F] where
  lanes : List String
  node : String
  merger : Merger F
  marked : String → State F → Prop

namespace Join

variable (join : Join F)

/-- All marks are set. -/
def Complete (state : State F) : Prop := ∀ lane ∈ join.lanes, join.marked lane state

/-- Each lane leads to the node of the merger and that to the end; the merger is ready when all
marks are set and calls nothing spent, and the empty update changes nothing. -/
structure Fits (graph : Graph F) : Prop where
  leads : ∀ lane ∈ join.lanes, ∀ now state,
    graph.evaluateEdge now lane state = .ok [.Node join.node]
  ends : ∀ now state, graph.evaluateEdge now join.node state = .ok [.END]
  ready : ∀ state, join.merger.rules.ready state = true ↔ join.Complete state
  spent : ∀ state, join.merger.rules.spent state = false
  empty : ∀ state : State F, Fields.apply state.fields Fields.emptyUpdate = .ok state.fields

/-- The running instance of the node is a merger that accepted the inputs of the log, and whose
event the forwarder may have taken. -/
def Serving (s : Sys F) (id : InstanceId) (core : Address) : Prop :=
  ∃ stage served own, join.merger.Serves false id stage served
      (acceptedInputs s.run.log join.node id) ∧ s.world.cores[core]? = some own ∧
    (CoresAlike own served ∨ CoresAlike own (served.pollRecv core).1)

/-- A live instance whose next message does not wait for another: a lane's, one that is being
created, or a merger that accepted a complete state. -/
inductive Pressing (run : Run F) : Prop
  | lane (lane : String) (slot : NodeSlot F) (hmember : lane ∈ join.lanes)
      (hslot : run.slot lane = some slot) (hlive : slot.isLive = true)
  | created (slot : NodeSlot F) (id : InstanceId) (first : Shared F)
      (hslot : run.slot join.node = some slot) (hlive : slot.live = .Creating id first)
  | merged (slot : NodeSlot F) (id : InstanceId) (core : Address) (input : Shared F)
      (hslot : run.slot join.node = some slot) (hlive : slot.live = .Running id core)
      (haccepted : .accepted join.node id input ∈ run.log) (hcomplete : join.Complete input.state)

/-- Each lane takes the input it is started with. -/
def Takes (out : Outside F) (control : Control F) : Prop :=
  ∀ polls s, control.after out polls = .waiting s → ∀ lane ∈ join.lanes,
    ∀ slot id core, s.run.slot lane = some slot → slot.live = .Running id core →
      acceptedInputs s.run.log lane id = [] → ¬s.world.Shut core

/-- Surroundings in which the nodes of the join do their work: what is asked for is created, a lane ends
with a result that sets its own mark, the node of the merger runs a merger, and whatever presses is
heard of. -/
structure Driven (out : Outside F) (control : Control F) : Prop where
  undisturbed : Undisturbed out
  created : ∀ polls s node id result s₁, control.after out polls = .waiting s →
    s.heard out = some (.Created node id result, s₁) → ∃ core, result = .ok ⟨id, core⟩
  lane_ends : ∀ polls s lane id result s₁, control.after out polls = .waiting s →
    lane ∈ join.lanes → s.heard out = some (.Ended lane id result, s₁) →
    Message.Live s.run (.Ended lane id result) →
    ∃ update now next, result = .ok (.Result update) ∧
      s.run.state.state.apply now update = .ok next ∧ join.marked lane next ∧
      ∀ other ∈ join.lanes, other ≠ lane →
        (join.marked other next ↔ join.marked other s.run.state.state)
  serves : ∀ polls s slot id core, control.after out polls = .waiting s →
    s.run.slot join.node = some slot → slot.live = .Running id core → join.Serving s id core
  ended : ∀ polls s id result s₁, control.after out polls = .waiting s →
    s.heard out = some (.Ended join.node id result, s₁) →
    Message.Live s.run (.Ended join.node id result) →
    ∃ stage served waker, join.merger.Serves false id stage served
        (acceptedInputs s.run.log join.node id) ∧ (served.pollRecv waker).2 = .Ready result
  served : ∀ polls s, control.after out polls = .waiting s → join.Pressing s.run →
    ∃ later s₁ message s₂, control.after out (polls + later) = .waiting s₁ ∧
      s₁.heard out = some (message, s₂) ∧ message.Live s.run

variable {join}

namespace Fits

variable {graph : Graph F} (hfits : join.Fits graph)
include hfits

theorem decide_fire {state : State F} :
    join.merger.decide state = .Fire ↔ join.Complete state := by
  rw [← hfits.ready, Merger.decide, hfits.spent]
  cases join.merger.rules.ready state with
  | true => simp
  | false => simp

theorem decide_wait {state : State F} (hincomplete : ¬join.Complete state) :
    join.merger.decide state = .Wait := by
  have hready : join.merger.rules.ready state = false := by
    rw [← hfits.ready] at hincomplete
    simpa using hincomplete
  simp [Merger.decide, hfits.spent, hready]

theorem decide_not_refuse (state : State F) : join.merger.decide state ≠ .Refuse := by
  by_cases hcomplete : join.Complete state
  · rw [hfits.decide_fire.mpr hcomplete]
    simp
  · rw [hfits.decide_wait hcomplete]
    simp

/-- A lane is not the node of the merger: their edges lead elsewhere. -/
theorem lane_ne (state : State F) {lane : String} (hlane : lane ∈ join.lanes) :
    lane ≠ join.node := by
  rintro rfl
  have hleads := hfits.leads _ hlane 0 state
  rw [hfits.ends] at hleads
  cases hleads

/-- The empty update leaves a state as it is. -/
theorem apply_empty (htrips : RoundTrips F) (state : State F) (now : Nat) :
    state.apply now Fields.emptyUpdate = .ok state := by
  obtain ⟨text, hwritten, hsize⟩ := htrips.written state now
  refine (Lib.Attempt.bind_eq_ok _ _ _).mpr ⟨state.fields, ?_, ?_⟩
  · exact (Lib.Attempt.mapError_eq_ok _ _ _).mpr (hfits.empty state)
  · exact (Lib.Attempt.mapError_eq_ok _ _ _).mpr (State.createWithLimit_eq_ok hwritten hsize)

end Fits

/-- A merger that accepted no complete state takes inputs. -/
theorem Serving.open_of_incomplete {graph : Graph F} (hfits : join.Fits graph) {s : Sys F}
    {id : InstanceId} {core : Address} (hserving : join.Serving s id core)
    (hincomplete : ∀ input, .accepted join.node id input ∈ s.run.log →
      ¬join.Complete input.state) : ¬s.world.Shut core := by
  rintro ⟨shut, hshut, hclosed⟩
  obtain ⟨stage, served, own, hserves, hown, halike⟩ := hserving
  rw [hown, Option.some.injEq] at hshut
  subst hshut
  have haccepts := hserves.acceptsInput fun input hmem =>
    hfits.decide_wait (hincomplete input (mem_acceptedInputs.mp hmem))
  have hopen : served.node = .Working .Open := by
    unfold Core.acceptsInput at haccepts
    split at haccepts
    · rename_i hnode
      exact hnode
    · cases haccepts
  have hnode : own.node = .Working .Open := by
    rcases halike with hsame | hpolled
    · rw [hsame.node, hopen]
    · rw [hpolled.node, Core.pollRecv, hopen]
  unfold Core.acceptsInput at hclosed
  rw [hnode] at hclosed
  cases hclosed

/-- What a merger ends with: the empty update, on a complete state it accepted. -/
theorem result_of_serves {graph : Graph F} (hfits : join.Fits graph) {id : InstanceId}
    {stage : Stage F} {served : Core F} {log : List (Fact F)} {waker : Waker}
    {result : Except EventEndError (Event F)}
    (hserves : join.merger.Serves false id stage served (acceptedInputs log join.node id))
    (hready : (served.pollRecv waker).2 = .Ready result) :
    result = .ok (.Result Fields.emptyUpdate) ∧
      ∃ input, .accepted join.node id input ∈ log ∧ join.Complete input.state := by
  obtain ⟨event, hresult, hanswers⟩ := hserves.recv hready
  cases hanswers with
  | fire input hmem hfire =>
    exact ⟨hresult, input, mem_acceptedInputs.mp hmem, hfits.decide_fire.mp hfire⟩
  | refuse input hmem hrefuse => exact absurd hrefuse (hfits.decide_not_refuse input.state)
  | cancel htriggered => cases htriggered

/-- What an entry may say of the node of the merger before its result: it accepted a complete state
only once the state of the run is complete. -/
def Behind (join : Join F) (state : State F) : Fact F → Prop
  | .accepted name _ input => name = join.node → join.Complete input.state → join.Complete state
  | .handled name _ _ => name ≠ join.node
  | _ => True

/-- What holds of the lanes of a join that goes on: each is live until its result was applied, and
no one else is busy but the node of the merger. -/
structure Lanes (join : Join F) (graph : Graph F) (run : Run F) : Prop where
  graph : run.graph = graph
  others : ∀ name slot, run.slot name = some slot → name ∉ join.lanes → name ≠ join.node →
    slot.isIdle = true
  lane : ∀ lane ∈ join.lanes, ∃ slot, run.slot lane = some slot ∧ slot.held = false ∧
    slot.untaken = false ∧ (slot.live = .Absent ↔ join.marked lane run.state.state)
  applied : ∀ lane ∈ join.lanes, join.marked lane run.state.state →
    ∃ id update state targets, .applied lane id update state targets ∈ run.log
  behind : ∀ fact ∈ run.log, join.Behind run.state.state fact

/-- How far the node of the merger has come: no lane has ended, it is being created, or it runs and
has the current state. -/
inductive Gathers (join : Join F) (run : Run F) (slot : NodeSlot F) : Prop
  | idle (hlive : slot.live = .Absent) (hfree : slot.held = false)
      (hnone : ∀ lane ∈ join.lanes, ¬join.marked lane run.state.state)
  | creating (id : InstanceId) (first : Shared F) (hlive : slot.live = .Creating id first)
      (hlatest : slot.held = false → first = run.state)
      (hearly : slot.held = true → ¬join.Complete first.state)
  | running (id : InstanceId) (core : Address) (hlive : slot.live = .Running id core)
      (hfree : slot.held = false) (hlatest : .accepted join.node id run.state ∈ run.log)

/-- A join that goes on. -/
structure Joining (join : Join F) (graph : Graph F) (run : Run F) : Prop where
  lanes : Lanes join graph run
  node : ∃ slot, run.slot join.node = some slot ∧ slot.untaken = false ∧ Gathers join run slot

theorem Gathers.frame {run run' : Run F} {slot : NodeSlot F} {new : List (Fact F)}
    (hgathers : Gathers join run slot) (hadds : Adds run run' new) : Gathers join run' slot := by
  cases hgathers with
  | idle hlive hfree hnone => exact .idle hlive hfree (by rwa [hadds.state])
  | creating id first hlive hlatest hearly =>
    exact .creating id first hlive (by rwa [hadds.state]) hearly
  | running id core hlive hfree hlatest =>
    refine .running id core hlive hfree ?_
    rw [hadds.state, hadds.log]
    exact List.mem_append_right _ hlatest

/-- The slots after the result of a lane: its own is free, and the node it leads to is held. -/
theorem slot_settled (run : Run F) {lane node : String} {slot : NodeSlot F}
    (hslot : run.slot lane = some slot) (hne : lane ≠ node) (id : InstanceId)
    (update : Fields.Update F) (next : State F) (other : String) :
    ((run.ending lane id (.ok (.Result update))).step lane id update next [.Node node]).slot other =
      if lane = other then some slot.endInstance
      else (run.slot other).map fun slot => if other = node then slot.hold else slot := by
  have hheld := (run.ending lane id (.ok (.Result update))).slot_holdAll [node] other
  have hended := run.slot_change_at hslot (·.endInstance) other
  show ((run.ending lane id (.ok (.Result update))).holdAll [node]).slot other = _
  rw [hheld, slot_ending, hended]
  simp only [List.mem_singleton]
  by_cases hsame : lane = other
  · subst hsame
    simp [hne]
  · simp [hsame]

namespace Lanes

variable {graph : Graph F} {run run' : Run F} (hlanes : Lanes join graph run)
include hlanes

/-- A change of nothing but the slot of the merger and the log. -/
theorem frame {new : List (Fact F)} (hadds : Adds run run' new)
    (hslots : ∀ other, other ≠ join.node → run'.slot other = run.slot other)
    (hne : ∀ lane ∈ join.lanes, lane ≠ join.node)
    (hnew : ∀ fact ∈ new, join.Behind run.state.state fact) : Lanes join graph run' where
  graph := hadds.graph.trans hlanes.graph
  others name slot hslot hnot hother := by
    rw [hslots name hother] at hslot
    exact hlanes.others name slot hslot hnot hother
  lane lane hlane := by
    rw [hslots lane (hne lane hlane), hadds.state]
    exact hlanes.lane lane hlane
  applied lane hlane hmarked := by
    rw [hadds.state] at hmarked
    obtain ⟨id, update, state, targets, hmem⟩ := hlanes.applied lane hlane hmarked
    refine ⟨id, update, state, targets, ?_⟩
    rw [hadds.log]
    exact List.mem_append_right _ hmem
  behind fact hmem := by
    rw [hadds.log] at hmem
    rw [hadds.state]
    rcases List.mem_append.mp hmem with hlater | hbefore
    · exact hnew fact hlater
    · exact hlanes.behind fact hbefore

/-- The instance of a lane is there and takes its first input. -/
theorem created {lane : String} {slot : NodeSlot F} {id : InstanceId} {first : Shared F}
    (core : Address) (hne : ∀ lane ∈ join.lanes, lane ≠ join.node) (hlane : lane ∈ join.lanes)
    (hslot : run.slot lane = some slot) (hcreating : slot.live = .Creating id first) :
    Lanes join graph ((run.instanceCreated lane id core slot).accept lane id first) := by
  have hslots (other : String) :
      ((run.instanceCreated lane id core slot).accept lane id first).slot other =
        if lane = other then some (slot.becomeRunning id core) else run.slot other :=
    run.slot_change_at hslot _ other
  refine ⟨hlanes.graph, ?_, ?_, ?_, ?_⟩
  · intro name other hother hnot hnode
    have hdiffers : lane ≠ name := fun hsame => hnot (hsame ▸ hlane)
    rw [hslots, if_neg hdiffers] at hother
    exact hlanes.others name other hother hnot hnode
  · intro other hother
    rw [hslots]
    by_cases hsame : lane = other
    · subst hsame
      obtain ⟨own, hown, hfree, htaken, hmarked⟩ := hlanes.lane lane hother
      rw [hslot, Option.some.injEq] at hown
      subst hown
      rw [if_pos rfl]
      refine ⟨_, rfl, hfree, htaken, ?_⟩
      constructor
      · intro himpossible
        cases himpossible
      · intro hset
        rw [hmarked.mpr hset] at hcreating
        cases hcreating
    · rw [if_neg hsame]
      exact hlanes.lane other hother
  · intro other hother hmarked
    obtain ⟨id', update, state, targets, hmem⟩ := hlanes.applied other hother hmarked
    exact ⟨id', update, state, targets,
      List.mem_cons_of_mem _ (List.mem_cons_of_mem _ (List.mem_cons_of_mem _ hmem))⟩
  · intro fact hmem
    rcases List.mem_cons.mp hmem with rfl | hmem
    · trivial
    · rcases List.mem_cons.mp hmem with rfl | hmem
      · exact fun hsame => absurd hsame (hne lane hlane)
      · rcases List.mem_cons.mp hmem with rfl | hmem
        · trivial
        · exact hlanes.behind fact hmem

/-- While a lane is live, no complete state was accepted. -/
theorem not_complete {lane : String} {slot : NodeSlot F} (hlane : lane ∈ join.lanes)
    (hslot : run.slot lane = some slot) (hlive : slot.live ≠ .Absent) :
    ¬join.Complete run.state.state := by
  intro hcomplete
  obtain ⟨own, hown, -, -, hmarked⟩ := hlanes.lane lane hlane
  rw [hslot, Option.some.injEq] at hown
  subst hown
  exact hlive (hmarked.mpr (hcomplete lane hlane))

/-- The result of a lane is applied: its mark is set. -/
theorem settled {lane : String} {slot : NodeSlot F} {id : InstanceId} {core : Address}
    {update : Fields.Update F} {next : State F}
    (hne : ∀ lane ∈ join.lanes, lane ≠ join.node) (hlane : lane ∈ join.lanes)
    (hslot : run.slot lane = some slot) (hlive : slot.live = .Running id core)
    (hmarked : join.marked lane next) (hothers : ∀ other ∈ join.lanes, other ≠ lane →
      (join.marked other next ↔ join.marked other run.state.state)) :
    Lanes join graph ((run.ending lane id (.ok (.Result update))).step lane id update next
      [.Node join.node]) := by
  have hslots (other : String) (hother : other ≠ join.node) :
      ((run.ending lane id (.ok (.Result update))).step lane id update next
        [.Node join.node]).slot other =
        if lane = other then some slot.endInstance else run.slot other := by
    rw [slot_settled run hslot (hne lane hlane)]
    simp [hother]
  have hincomplete := hlanes.not_complete hlane hslot (by simp [hlive])
  refine ⟨(Run.step_graph run lane id update next _).trans hlanes.graph, ?_, ?_, ?_, ?_⟩
  · intro name other hother hnot hnode
    have hdiffers : lane ≠ name := fun hsame => hnot (hsame ▸ hlane)
    rw [hslots name hnode, if_neg hdiffers] at hother
    exact hlanes.others name other hother hnot hnode
  · intro other hother
    rw [hslots other (hne other hother), Run.step_state]
    obtain ⟨own, hown, hfree, htaken, hiff⟩ := hlanes.lane other hother
    by_cases hsame : lane = other
    · subst hsame
      rw [hslot, Option.some.injEq] at hown
      subst hown
      rw [if_pos rfl]
      exact ⟨_, rfl, hfree, htaken, fun _ => hmarked, fun _ => rfl⟩
    · rw [if_neg hsame]
      exact ⟨own, hown, hfree, htaken, hiff.trans (hothers other hother (Ne.symm hsame)).symm⟩
  · intro other hother hset
    rw [Run.step_state] at hset
    rw [Run.step_log]
    by_cases hsame : other = lane
    · subst hsame
      refine ⟨id, update, ⟨run.state.step + 1, next⟩, [.Node join.node], ?_⟩
      simp [stepEntries]
    · obtain ⟨id', update', state, targets, hmem⟩ :=
        hlanes.applied other hother ((hothers other hother hsame).mp hset)
      exact ⟨id', update', state, targets, List.mem_append_right _ hmem⟩
  · intro fact hmem
    rw [Run.step_log] at hmem
    rw [Run.step_state]
    rcases List.mem_append.mp hmem with hnew | hbefore
    · simp only [stepEntries, List.mem_cons, List.not_mem_nil, or_false] at hnew
      rcases hnew with rfl | rfl | rfl | rfl | rfl
      · trivial
      · trivial
      · trivial
      · trivial
      · exact hne lane hlane
    · -- What was accepted before is not complete, so it says nothing of the new state.
      have hearlier := hlanes.behind fact hbefore
      cases fact with
      | accepted name other input =>
        exact fun hsame hcomplete => absurd (hearlier hsame hcomplete) hincomplete
      | handled name other result => exact hearlier
      | _ => trivial

end Lanes

/-- The instance of the merger runs and takes the current state. -/
theorem Joining.of_running {graph : Graph F} {run run' : Run F} (hlanes : Lanes join graph run)
    (hne : ∀ lane ∈ join.lanes, lane ≠ join.node) {new : List (Fact F)} (hadds : Adds run run' new)
    (hslots : ∀ other, other ≠ join.node → run'.slot other = run.slot other)
    {slot : NodeSlot F} {id : InstanceId} {core : Address}
    (hslot : run'.slot join.node = some slot) (hlive : slot.live = .Running id core)
    (hfree : slot.held = false) (huntaken : slot.untaken = false)
    (hnew : ∀ fact ∈ new, join.Behind run.state.state fact)
    (htaken : .accepted join.node id run.state ∈ new) : Joining join graph run' := by
  refine ⟨hlanes.frame hadds hslots hne hnew, slot, hslot, huntaken,
    .running id core hlive hfree ?_⟩
  rw [hadds.state, hadds.log]
  exact List.mem_append_left _ htaken

/-! What is left to come. -/

/-- The messages still to come from what lives in a slot. -/
def toCome : Live F → Nat
  | .Absent => 0
  | .Creating .. => 2
  | .Running .. => 1

def laneLeft (run : Run F) (lane : String) : Nat :=
  (run.slot lane).elim 0 fun slot => toCome slot.live

/-- The node of the merger has both messages to come before it is created. -/
def nodeLeft (join : Join F) (run : Run F) : Nat :=
  (run.slot join.node).elim 2 fun slot => match slot.live with
    | .Running .. => 1
    | _ => 2

/-- The messages that are still to come before the end of the join. -/
def left (join : Join F) (run : Run F) : Nat :=
  (join.lanes.map (laneLeft run)).sum + nodeLeft join run

theorem left_lt_of_lane {run run' : Run F} {lane : String} (hlane : lane ∈ join.lanes)
    (hsame : ∀ other ∈ join.lanes, other ≠ lane → run'.slot other = run.slot other)
    (hless : laneLeft run' lane < laneLeft run lane)
    (hnode : nodeLeft join run' ≤ nodeLeft join run) : join.left run' < join.left run := by
  have hsum : (join.lanes.map (laneLeft run')).sum < (join.lanes.map (laneLeft run)).sum := by
    apply List.sum_lt_sum
    · intro other hother
      by_cases hown : other = lane
      · rw [hown]
        omega
      · rw [laneLeft, laneLeft, hsame other hother hown]
    · exact ⟨lane, hlane, hless⟩
  unfold left
  omega

theorem left_lt_of_node {run run' : Run F}
    (hsame : ∀ lane ∈ join.lanes, run'.slot lane = run.slot lane)
    (hless : nodeLeft join run' < nodeLeft join run) : join.left run' < join.left run := by
  have hsum : join.lanes.map (laneLeft run') = join.lanes.map (laneLeft run) := by
    apply List.map_congr_left
    intro lane hlane
    rw [laneLeft, laneLeft, hsame lane hlane]
  unfold left
  rw [hsum]
  omega

/-- A wait of a join that goes on. -/
structure Joined (join : Join F) (graph : Graph F) (s : Sys F) : Prop where
  calm : s.Calm
  housed : s.world.Housed
  joining : Joining join graph s.run

/-- The run ends with all marks set, after one result of the merger that comes after the updates of
all lanes. -/
def Ends (join : Join F) (out : Outside F) (control : Control F) : Prop :=
  ∃ polls s final, control.after out polls = .done s (.RunEnded final) ∧ join.Complete final ∧
    ∃ id later past,
      s.run.log = later ++ .handled join.node id (.ok (.Result Fields.emptyUpdate)) :: past ∧
      (∀ lane ∈ join.lanes,
        (∃ id update state targets, .applied lane id update state targets ∈ past) ∧
          ∀ id update state targets, .applied lane id update state targets ∉ later) ∧
      ∀ other result, .handled join.node other result ∉ later ++ past

/-- The next wait of the join, with less to come. -/
def Goes (join : Join F) (graph : Graph F) (out : Outside F) (control : Control F) (polls : Nat)
    (s : Sys F) : Prop :=
  ∃ s', control.after out (polls + 1) = .waiting s' ∧ Joined join graph s' ∧
    join.left s'.run < join.left s.run

/-- Where the driver stands when it hands over after the result of a lane: the lane is free, and the
node of the merger is held. -/
structure Settles (join : Join F) (graph : Graph F) (out : Outside F) (s : Sys F) (lane : String)
    (slot : NodeSlot F) (s' : Sys F) : Prop where
  calm : s'.Calm
  lanes : Lanes join graph s'.run
  slots : ∀ other, s'.run.slot other = if lane = other then some slot.endInstance
    else (s.run.slot other).map fun slot => if other = join.node then slot.hold else slot
  accepted : ∀ id input, .accepted join.node id input ∈ s'.run.log →
    .accepted join.node id input ∈ s.run.log
  kept : ∀ P : Sys F → Prop, Sys.Kept out P → P s → P s'

section Polls

variable {out : Outside F} {graph : Graph F} {config : RunConfig} {origin : Origin}
  {state : State F} {control : Control F}
  (hlaunch : Launch out graph config origin state control) (hfits : join.Fits graph)
  (hdriven : join.Driven out control) (htrips : RoundTrips F) {polls : Nat} {s s₁ : Sys F}
  (hwaiting : control.after out polls = .waiting s) (hjoined : Joined join graph s)

include hdriven hwaiting hjoined

/-- A message that leaves the join calm and busy. -/
private theorem goes_of_joining {message : Message F}
    (hheard : s.heard out = some (message, s₁)) (hcalm : (s₁.step out message).Calm)
    (hbusy : (s₁.step out message).run.allIdle = false)
    (hjoining : Joining join graph (s₁.step out message).run)
    (hleft : join.left (s₁.step out message).run < join.left s.run) :
    Goes join graph out control polls s := by
  have hundisturbed := hdriven.undisturbed
  have hhoused := Sys.housed_kept out
  refine ⟨_, Sys.after_heard hundisturbed hwaiting hjoined.calm hheard hcalm hbusy, ⟨?_, ?_, ?_⟩, ?_⟩
  · exact (Sys.tick_quietly hundisturbed hcalm).calm
  · exact hhoused.tick _ (hhoused.step (Sys.Kept.heard out hhoused hjoined.housed hheard) message)
  · exact hjoining
  · exact hleft

omit hdriven hjoined in
include hlaunch in
/-- Nothing was accepted yet under the id of a creation. -/
private theorem nothing_accepted {name : String} {slot : NodeSlot F} {id : InstanceId}
    {first : Shared F} (hslot : s.run.slot name = some slot)
    (hcreating : slot.live = .Creating id first) (input : Shared F) :
    .accepted name id input ∉ s.run.log := by
  have haccounts := hlaunch.accounts polls
  rw [hwaiting] at haccounts
  exact haccounts.nothing_accepted hslot hcreating input

include hlaunch hfits

/-- The instance of a lane is there. -/
private theorem goes_of_created_lane (htakes : join.Takes out control) {lane : String}
    {slot : NodeSlot F} {id : InstanceId} {first : Shared F}
    {result : Except CreationFailure Instance} (hlane : lane ∈ join.lanes)
    (hheard : s.heard out = some (.Created lane id result, s₁))
    (hslot : s.run.slot lane = some slot) (hcreating : slot.live = .Creating id first) :
    Goes join graph out control polls s := by
  have hundisturbed := hdriven.undisturbed
  obtain ⟨core, rfl⟩ := hdriven.created polls s lane id result s₁ hwaiting hheard
  have hrun := Sys.heard_run hheard
  have hcalm₁ := (Sys.heard_quietly hundisturbed hjoined.calm hheard).calm
  have hthere := Sys.heard_there out hjoined.housed hheard
  have hslot₁ : s₁.run.slot lane = some slot := hrun ▸ hslot
  obtain ⟨hquietly, slot', hslot', hlive'⟩ := Sys.step_created hundisturbed hcalm₁ core hslot₁
    hcreating
  have hbusy := Sys.busy_of_live hslot' (by simp [hlive'])
  have hbegun := Sys.step_begun hundisturbed hcalm₁ hslot₁ hcreating hthere
  rw [hrun] at hbegun
  have hlanes := hjoined.joining.lanes
  have hne (other : String) (hother : other ∈ join.lanes) := hfits.lane_ne state hother
  obtain ⟨own, hown, hfree, -, -⟩ := hlanes.lane lane hlane
  rw [hslot, Option.some.injEq] at hown
  subst hown
  cases hbegun with
  | refuses hrefused hshut =>
    have hnext := Sys.after_heard hundisturbed hwaiting hjoined.calm hheard hquietly.calm hbusy
    have hnothing : acceptedInputs (s₁.step out (.Created lane id (.ok ⟨id, core⟩))).run.log lane
        id = [] := by
      rw [List.eq_nil_iff_forall_not_mem]
      intro input hmem
      rw [mem_acceptedInputs, hrefused] at hmem
      rcases List.mem_cons.mp hmem with htold | hbefore
      · cases htold
      · exact nothing_accepted hlaunch hwaiting hslot hcreating input hbefore
    exact absurd ((Sys.shut_kept out core).tick _ hshut) (htakes (polls + 1) _ hnext
      lane hlane slot' id core hslot' hlive' hnothing)
  | takes _ htaken =>
    have hslots (other : String) (hother : lane ≠ other) :
        ((s.run.instanceCreated lane id core slot).accept lane id first).slot other =
          s.run.slot other := (s.run.slot_change_at hslot _ other).trans (if_neg hother)
    apply goes_of_joining hdriven hwaiting hjoined hheard hquietly.calm hbusy
    · rw [htaken]
      refine ⟨hlanes.created core hne hlane hslot hcreating, ?_⟩
      obtain ⟨node, hnode, huntaken, hgathers⟩ := hjoined.joining.node
      exact ⟨node, (hslots _ (hne lane hlane)).trans hnode, huntaken,
        hgathers.frame ((Adds.instanceCreated s.run lane id core slot).trans (.accept _ _ _ _))⟩
    · have hself : ((s.run.instanceCreated lane id core slot).accept lane id first).slot lane =
          some (slot.becomeRunning id core) :=
        (s.run.slot_change_at hslot _ lane).trans (if_pos rfl)
      rw [htaken]
      apply left_lt_of_lane hlane
      · exact fun other _ hother => hslots other (Ne.symm hother)
      · simp only [laneLeft, hself, hslot, Option.elim_some, hcreating]
        exact Nat.lt_succ_self 1
      · rw [nodeLeft, nodeLeft, hslots _ (hne lane hlane)]
  | takesBoth hheld _ =>
    rw [hfree] at hheld
    cases hheld
  | takesFirst hheld _ _ =>
    rw [hfree] at hheld
    cases hheld

/-- The instance of the merger is there. -/
private theorem goes_of_created_node {slot : NodeSlot F} {id : InstanceId} {first : Shared F}
    {result : Except CreationFailure Instance}
    (hheard : s.heard out = some (.Created join.node id result, s₁))
    (hslot : s.run.slot join.node = some slot) (hcreating : slot.live = .Creating id first) :
    Goes join graph out control polls s := by
  have hundisturbed := hdriven.undisturbed
  obtain ⟨core, rfl⟩ := hdriven.created polls s join.node id result s₁ hwaiting hheard
  have hrun := Sys.heard_run hheard
  have hcalm₁ := (Sys.heard_quietly hundisturbed hjoined.calm hheard).calm
  have hthere := Sys.heard_there out hjoined.housed hheard
  have hslot₁ : s₁.run.slot join.node = some slot := hrun ▸ hslot
  obtain ⟨hquietly, slot', hslot', hlive'⟩ := Sys.step_created hundisturbed hcalm₁ core hslot₁
    hcreating
  have hbusy := Sys.busy_of_live hslot' (by simp [hlive'])
  have hbegun := Sys.step_begun hundisturbed hcalm₁ hslot₁ hcreating hthere
  rw [hrun] at hbegun
  have hlanes := hjoined.joining.lanes
  have hne (lane : String) (hlane : lane ∈ join.lanes) := hfits.lane_ne state hlane
  have hnothing := nothing_accepted hlaunch hwaiting hslot hcreating
  -- What the merger accepted, when its core was found shut, was not complete.
  have hopen (hshut : (s₁.step out (.Created join.node id (.ok ⟨id, core⟩))).world.Shut core)
      (hincomplete : ∀ input, .accepted join.node id input ∈
        (s₁.step out (.Created join.node id (.ok ⟨id, core⟩))).run.log →
          ¬join.Complete input.state) : False := by
    have hnext := Sys.after_heard hundisturbed hwaiting hjoined.calm hheard hquietly.calm hbusy
    have hserving := hdriven.serves (polls + 1) _ slot' id core hnext hslot' hlive'
    exact hserving.open_of_incomplete hfits hincomplete ((Sys.shut_kept out core).tick _ hshut)
  obtain ⟨own, hown, huntaken, hgathers⟩ := hjoined.joining.node
  rw [hslot, Option.some.injEq] at hown
  subst hown
  obtain ⟨hlatest, hearly⟩ : (slot.held = false → first = s.run.state) ∧
      (slot.held = true → ¬join.Complete first.state) := by
    cases hgathers with
    | idle hlive _ _ =>
      rw [hcreating] at hlive
      cases hlive
    | creating other input hlive hlatest hearly =>
      rw [hcreating, Live.Creating.injEq] at hlive
      rw [hlive.2]
      exact ⟨hlatest, hearly⟩
    | running other other' hlive _ _ =>
      rw [hcreating] at hlive
      cases hlive
  have hborn (other : String) :
      ((s.run.instanceCreated join.node id core slot).accept join.node id first).slot other =
        if join.node = other then some (slot.becomeRunning id core) else s.run.slot other :=
    s.run.slot_change_at hslot _ other
  have hless {run' : Run F} (hself : ∃ slot', run'.slot join.node = some slot' ∧
      slot'.live = .Running id core) : nodeLeft join run' < nodeLeft join s.run := by
    obtain ⟨slot', hslot', hlive'⟩ := hself
    simp only [nodeLeft, hslot', hslot, Option.elim_some, hcreating, hlive']
    exact Nat.lt_succ_self 1
  cases hbegun with
  | refuses hrefused hshut =>
    refine (hopen hshut fun input hmem => ?_).elim
    rw [hrefused] at hmem
    rcases List.mem_cons.mp hmem with htold | hbefore
    · cases htold
    · exact absurd hbefore (hnothing input)
  | takes hfree htaken =>
    have hself := (hborn join.node).trans (if_pos rfl)
    have hslots (other : String) (hother : other ≠ join.node) :=
      (hborn other).trans (if_neg (Ne.symm hother))
    have hadds := (Adds.instanceCreated s.run join.node id core slot).trans
      (.accept _ join.node id first)
    apply goes_of_joining hdriven hwaiting hjoined hheard hquietly.calm hbusy
    · rw [htaken]
      apply Joining.of_running hlanes hne hadds hslots hself rfl hfree huntaken
      · simp [Behind, hlatest hfree]
      · simp [hlatest hfree]
    · rw [htaken]
      apply left_lt_of_node
      · exact fun lane hlane => hslots lane (hne lane hlane)
      · exact hless ⟨_, hself, rfl⟩
  | takesBoth hheld htaken =>
    generalize hlater : (((s.run.instanceCreated join.node id core slot).accept join.node id
      first).accept join.node id s.run.state).change join.node (·.release) = later at htaken
    have hself : later.slot join.node = some (slot.becomeRunning id core).release := by
      rw [← hlater, Run.slot_change_self, Run.slot_accept, hborn, if_pos rfl]
      rfl
    have hslots (other : String) (hother : other ≠ join.node) :
        later.slot other = s.run.slot other := by
      rw [← hlater, Run.slot_change_of_ne _ (Ne.symm hother), Run.slot_accept, hborn,
        if_neg (Ne.symm hother)]
    have hadds := (((Adds.instanceCreated s.run join.node id core slot).trans
      (.accept _ join.node id first)).trans (.accept _ join.node id s.run.state)).trans
        (.change _ join.node (·.release))
    rw [hlater] at hadds
    apply goes_of_joining hdriven hwaiting hjoined hheard hquietly.calm hbusy
    · rw [htaken]
      apply Joining.of_running hlanes hne hadds hslots hself rfl rfl huntaken
      · simp [Behind, hearly hheld]
      · simp
    · rw [htaken]
      apply left_lt_of_node
      · exact fun lane hlane => hslots lane (hne lane hlane)
      · exact hless ⟨_, hself, rfl⟩
  | takesFirst hheld htaken hshut =>
    refine (hopen hshut fun input hmem => ?_).elim
    rw [htaken] at hmem
    rcases List.mem_cons.mp hmem with htold | hmem
    · cases htold
    · rcases List.mem_cons.mp hmem with haccepted | hmem
      · cases haccepted
        exact hearly hheld
      · rcases List.mem_cons.mp hmem with htold | hbefore
        · cases htold
        · exact absurd hbefore (hnothing input)

include htrips

omit hlaunch in
/-- The result of a lane is applied, and the node of the merger alone is handed to. -/
private theorem settles_lane {lane : String} {slot : NodeSlot F} {id : InstanceId}
    {core : Address} {result : Except EventEndError (Event F)} (hlane : lane ∈ join.lanes)
    (hheard : s.heard out = some (.Ended lane id result, s₁))
    (hslot : s.run.slot lane = some slot) (hlive : slot.live = .Running id core) :
    ∃ s', Settles join graph out s lane slot s' ∧
      s₁.step out (.Ended lane id result) = s'.handTo out join.node := by
  have hundisturbed := hdriven.undisturbed
  obtain ⟨update, now, next, rfl, happlied, hmarked, hothers⟩ := hdriven.lane_ends polls s lane id
    result s₁ hwaiting hlane hheard ⟨slot, core, hslot, hlive⟩
  have hrun := Sys.heard_run hheard
  have hcalm₁ := (Sys.heard_quietly hundisturbed hjoined.calm hheard).calm
  have hslot₁ : s₁.run.slot lane = some slot := hrun ▸ hslot
  have hlanes := hjoined.joining.lanes
  have hne (other : String) (hother : other ∈ join.lanes) := hfits.lane_ne next hother
  have happlies (other : Nat) : s₁.run.state.state.apply other update = .ok next := by
    rw [hrun]
    exact htrips.apply_steady happlied other
  have hevaluates (other : Nat) : s₁.run.graph.evaluateEdge other lane next =
      .ok [.Node join.node] := by
    rw [hrun, hlanes.graph]
    exact hfits.leads lane hlane other next
  obtain ⟨s₂, hrun₂, -, -, hgoing⟩ := Sys.step_settled hundisturbed htrips hcalm₁ update next
    [.Node join.node] hslot₁ hlive happlies hevaluates
  rw [hrun] at hrun₂
  have hlanes₂ : Lanes join graph s₂.run := by
    rw [hrun₂]
    exact hlanes.settled hne hlane hslot hlive hmarked hothers
  have hslots₂ (other : String) : s₂.run.slot other =
      if lane = other then some slot.endInstance
      else (s.run.slot other).map fun slot => if other = join.node then slot.hold else slot := by
    rw [hrun₂]
    exact slot_settled s.run hslot (hne lane hlane) id update next other
  have hlog₂ : s₂.run.log = stepEntries lane id update ⟨s.run.state.step + 1, next⟩
      [.Node join.node] ++ s.run.log := by
    rw [hrun₂]
    exact Run.step_log s.run lane id update next _
  have hbusy₂ : s₂.run.allIdle = false := by
    obtain ⟨node, hnode, -, -⟩ := hjoined.joining.node
    have hnode₂ : s₂.run.slot join.node = some node.hold := by
      rw [hslots₂, if_neg (hne lane hlane), hnode]
      simp
    exact Sys.busy_of_slot hnode₂ (by simp [NodeSlot.isIdle, NodeSlot.hold])
  obtain ⟨s₃, hquietly, hoffers, hkept, hhanded⟩ := hgoing hbusy₂
  obtain ⟨hslots₃, offers, hadds, hoffered⟩ : s₃.run.slot = s₂.run.slot ∧ ∃ new,
      Adds s₂.run s₃.run new ∧ ∀ fact ∈ new, ∃ checkpoint, fact = .offered checkpoint := by
    rcases hoffers with hsame | ⟨checkpoint, hnoted⟩
    · rw [hsame]
      exact ⟨rfl, [], ⟨rfl, rfl, rfl⟩, by simp⟩
    · rw [hnoted]
      exact ⟨rfl, _, .note _ (.offered checkpoint), by simp⟩
  have hlanes₃ : Lanes join graph s₃.run := by
    refine hlanes₂.frame hadds (fun other _ => by rw [hslots₃]) hne ?_
    intro fact hmem
    obtain ⟨checkpoint, rfl⟩ := hoffered fact hmem
    trivial
  have hhand : s₃.handOver out [join.node] = s₃.handTo out join.node := by
    apply Sys.handOver_one out hquietly.calm.isStopping
    intro other own hown hheld
    by_contra hother
    by_cases hmember : other ∈ join.lanes
    · obtain ⟨found, hfound, hfree, -, -⟩ := hlanes₃.lane other hmember
      rw [hown, Option.some.injEq] at hfound
      rw [← hfound, hheld] at hfree
      cases hfree
    · have hidle := hlanes₃.others other own hown hmember hother
      rw [((NodeSlot.isIdle_iff own).mp hidle).2.1] at hheld
      cases hheld
  refine ⟨s₃, ⟨hquietly.calm, hlanes₃, ?_, ?_, ?_⟩, hhanded.trans hhand⟩
  · intro other
    rw [hslots₃]
    exact hslots₂ other
  · intro own input hmem
    rw [hadds.log, hlog₂] at hmem
    rcases List.mem_append.mp hmem with hoffer | hmem
    · obtain ⟨checkpoint, hfact⟩ := hoffered _ hoffer
      cases hfact
    · rcases List.mem_append.mp hmem with hstep | hbefore
      · simp [stepEntries] at hstep
      · exact hbefore
  · intro P hP hs
    exact hkept P hP (Sys.Kept.heard out hP hs hheard)

omit hlaunch in
/-- A lane ends: its mark is set, and the node of the merger is handed the new state. -/
private theorem goes_of_ended_lane {lane : String} {slot : NodeSlot F} {id : InstanceId}
    {core : Address} {result : Except EventEndError (Event F)} (hlane : lane ∈ join.lanes)
    (hheard : s.heard out = some (.Ended lane id result, s₁))
    (hslot : s.run.slot lane = some slot) (hlive : slot.live = .Running id core) :
    Goes join graph out control polls s := by
  have hundisturbed := hdriven.undisturbed
  obtain ⟨s', hsettles, hstep⟩ := settles_lane hfits hdriven htrips hwaiting hjoined hlane
    hheard hslot hlive
  have hne (other : String) (hother : other ∈ join.lanes) := hfits.lane_ne s.run.state.state hother
  have hincomplete := hjoined.joining.lanes.not_complete hlane hslot (by simp [hlive])
  obtain ⟨node, hnode, huntaken, hgathers⟩ := hjoined.joining.node
  have hnode' : s'.run.slot join.node = some node.hold := by
    rw [hsettles.slots, if_neg (hne lane hlane), hnode]
    simp
  have hcalm : (s₁.step out (.Ended lane id result)).Calm := by
    rw [hstep]
    exact (Sys.handTo_quietly hundisturbed hsettles.calm _).calm
  have hthere (own : InstanceId) (address : Address)
      (halive : node.hold.live = .Running own address) : address < s'.world.cores.length := by
    obtain ⟨-, -, held, -, hheld, -⟩ := hdriven.serves polls s node own address hwaiting hnode halive
    exact hsettles.kept _ (Sys.there_kept out address) (List.getElem?_eq_some_iff.mp hheld).1
  have hhands := Sys.handTo_handed out hnode' rfl (hundisturbed.minted _) hthere
  rw [← hstep] at hhands
  have hless {run' : Run F} (hslots : ∀ other, other ≠ join.node → run'.slot other =
      s'.run.slot other) (hnodes : nodeLeft join run' ≤ nodeLeft join s.run) :
      join.left run' < join.left s.run := by
    apply left_lt_of_lane hlane
    · intro other hother hdiffers
      rw [hslots other (hne other hother), hsettles.slots, if_neg (Ne.symm hdiffers)]
      simp [hne other hother]
    · have hself : run'.slot lane = some slot.endInstance := by
        rw [hslots lane (hne lane hlane), hsettles.slots, if_pos rfl]
      simp only [laneLeft, hself, hslot, Option.elim_some, hlive]
      exact Nat.one_pos
    · exact hnodes
  cases hhands with
  | waits own first hcreating hrun' =>
    have hcreating' : node.live = .Creating own first := hcreating
    apply goes_of_joining hdriven hwaiting hjoined hheard hcalm
    · rw [hrun']
      exact Sys.busy_of_live hnode' (by simp [hcreating])
    · rw [hrun']
      refine ⟨hsettles.lanes, node.hold, hnode', huntaken, .creating own first hcreating ?_ ?_⟩
      · intro hfree
        cases hfree
      · intro _
        cases hgathers with
        | idle hlive' _ _ =>
          rw [hcreating'] at hlive'
          cases hlive'
        | creating other input hlive' hlatest hearly =>
          rw [hcreating', Live.Creating.injEq] at hlive'
          cases hheld : node.held with
          | false =>
            rw [hlive'.2, hlatest hheld]
            exact hincomplete
          | true =>
            rw [hlive'.2]
            exact hearly hheld
        | running other address hlive' _ _ =>
          rw [hcreating'] at hlive'
          cases hlive'
    · rw [hrun']
      apply hless
      · exact fun _ _ => rfl
      · simp only [nodeLeft, hnode', hnode, Option.elim_some, hcreating, hcreating', le_refl]
  | takes own address hrunning hrun' =>
    have hrunning' : node.live = .Running own address := hrunning
    generalize hlater : (s'.run.accept join.node own s'.run.state).change join.node (·.release) =
      later at hrun'
    have hself : later.slot join.node = some node.hold.release := by
      rw [← hlater, Run.slot_change_self, Run.slot_accept, hnode']
      rfl
    have hslots (other : String) (hother : other ≠ join.node) :
        later.slot other = s'.run.slot other := by
      rw [← hlater, Run.slot_change_of_ne _ (Ne.symm hother), Run.slot_accept]
    have hadds := (Adds.accept s'.run join.node own s'.run.state).trans
      (.change _ join.node (·.release))
    rw [hlater] at hadds
    apply goes_of_joining hdriven hwaiting hjoined hheard hcalm
    · rw [hrun']
      exact Sys.busy_of_live hself (by simp [NodeSlot.release, hrunning])
    · rw [hrun']
      apply Joining.of_running hsettles.lanes hne hadds hslots hself hrunning rfl huntaken
      · simp [Behind]
      · simp
    · rw [hrun']
      apply hless hslots
      have hsame : node.hold.release.live = .Running own address := hrunning
      simp only [nodeLeft, hself, hnode, Option.elim_some, hsame, hrunning', le_refl]
  | refuses own address hrunning hrun' hshut =>
    have hbusy : (s₁.step out (.Ended lane id result)).run.allIdle = false := by
      rw [hrun']
      exact Sys.busy_of_live hnode' (by simp [hrunning])
    have hnext := Sys.after_heard hundisturbed hwaiting hjoined.calm hheard hcalm hbusy
    have hslot' : (s₁.step out (.Ended lane id result)).run.slot join.node = some node.hold := by
      rw [hrun', hnode']
    have hserving := hdriven.serves (polls + 1) _ node.hold own address hnext hslot' hrunning
    refine absurd ((Sys.shut_kept out address).tick _ hshut)
      (hserving.open_of_incomplete hfits fun input hmem hcomplete => ?_)
    rw [Sys.run_tick, hrun'] at hmem
    exact hincomplete (hjoined.joining.lanes.behind _ (hsettles.accepted own input hmem) rfl
      hcomplete)
  | creates habsent hrun' =>
    have habsent' : node.live = .Absent := habsent
    generalize hlater : s'.run.create join.node = later at hrun'
    have hself : later.slot join.node =
        some (node.hold.release.beginCreating s'.run.minted s'.run.state) := by
      rw [← hlater, Run.create, Run.slot_note, Run.slot_change_self]
      show (s'.run.slot join.node).map _ = _
      rw [hnode']
      rfl
    have hslots (other : String) (hother : other ≠ join.node) :
        later.slot other = s'.run.slot other := by
      rw [← hlater, Run.create, Run.slot_note, Run.slot_change_of_ne _ (Ne.symm hother)]
      rfl
    have hadds := Adds.create s'.run join.node
    rw [hlater] at hadds
    apply goes_of_joining hdriven hwaiting hjoined hheard hcalm
    · rw [hrun']
      exact Sys.busy_of_live hself (by simp [NodeSlot.beginCreating])
    · rw [hrun']
      constructor
      · exact hsettles.lanes.frame hadds hslots hne (by simp [Behind])
      · refine ⟨_, hself, huntaken, .creating s'.run.minted s'.run.state rfl ?_ ?_⟩
        · exact fun _ => hadds.state.symm
        · intro hheld
          cases hheld
    · rw [hrun']
      apply hless hslots
      simp only [nodeLeft, hself, hnode, Option.elim_some, habsent', NodeSlot.beginCreating, le_refl]

omit hlaunch in
/-- The merger ends: every node is idle then, and the run ends. -/
private theorem ends_of_ended_node {slot : NodeSlot F} {id : InstanceId} {core : Address}
    {result : Except EventEndError (Event F)}
    (hheard : s.heard out = some (.Ended join.node id result, s₁))
    (hslot : s.run.slot join.node = some slot) (hlive : slot.live = .Running id core) :
    Ends join out control := by
  have hundisturbed := hdriven.undisturbed
  obtain ⟨stage, served, waker, hserves, hready⟩ := hdriven.ended polls s id result s₁ hwaiting
    hheard ⟨slot, core, hslot, hlive⟩
  obtain ⟨rfl, input, haccepted, hcomplete⟩ := result_of_serves hfits hserves hready
  have hlanes := hjoined.joining.lanes
  have hcurrent : join.Complete s.run.state.state := hlanes.behind _ haccepted rfl hcomplete
  have hrun := Sys.heard_run hheard
  have hcalm₁ := (Sys.heard_quietly hundisturbed hjoined.calm hheard).calm
  have hslot₁ : s₁.run.slot join.node = some slot := hrun ▸ hslot
  have happlies (now : Nat) : s₁.run.state.state.apply now Fields.emptyUpdate =
      .ok s.run.state.state := by
    rw [hrun]
    exact hfits.apply_empty htrips s.run.state.state now
  have hevaluates (now : Nat) : s₁.run.graph.evaluateEdge now join.node s.run.state.state =
      .ok [.END] := by
    rw [hrun, hlanes.graph]
    exact hfits.ends now s.run.state.state
  obtain ⟨s₂, hrun₂, hcalm₂, hrests, -⟩ := Sys.step_settled hundisturbed htrips hcalm₁
    Fields.emptyUpdate s.run.state.state [.END] hslot₁ hlive happlies hevaluates
  rw [hrun] at hrun₂
  have hslots₂ (other : String) : s₂.run.slot other =
      if join.node = other then some slot.endInstance else s.run.slot other := by
    rw [hrun₂]
    exact s.run.slot_change_at hslot _ other
  obtain ⟨own, hown, huntaken, hgathers⟩ := hjoined.joining.node
  rw [hslot, Option.some.injEq] at hown
  subst hown
  have hfree : slot.held = false := by
    cases hgathers with
    | idle hlive' hfree _ => exact hfree
    | creating other first hcreating _ _ =>
      rw [hlive] at hcreating
      cases hcreating
    | running other address _ hfree _ => exact hfree
  have hidle : s₂.run.allIdle = true := by
    rw [Run.allIdle_iff]
    intro name other hother
    rw [hslots₂] at hother
    by_cases hnode : join.node = name
    · rw [if_pos hnode, Option.some.injEq] at hother
      rw [← hother, NodeSlot.isIdle_iff]
      exact ⟨rfl, hfree, huntaken⟩
    · rw [if_neg hnode] at hother
      by_cases hmember : name ∈ join.lanes
      · obtain ⟨found, hfound, hheld, htaken, hmarked⟩ := hlanes.lane name hmember
        rw [hother, Option.some.injEq] at hfound
        rw [hfound, NodeSlot.isIdle_iff]
        exact ⟨hmarked.mpr (hcurrent name hmember), hheld, htaken⟩
      · exact hlanes.others name other hother hmember (Ne.symm hnode)
  have hstate : s₂.run.state.state = s.run.state.state := by
    rw [hrun₂, Run.step_state]
  have hlog : s₂.run.log = stepEntries join.node id Fields.emptyUpdate
      ⟨s.run.state.step + 1, s.run.state.state⟩ [.END] ++ s.run.log := by
    rw [hrun₂]
    exact Run.step_log s.run join.node id Fields.emptyUpdate s.run.state.state [.END]
  have hdone : control.after out (polls + 1) = .done
      ((s₂.tick out).report .RunEnded (.RunEnded s.run.state.state)).1
        (.RunEnded s.run.state.state) := by
    rw [Control.after, hwaiting]
    show s.poll out = _
    rw [Sys.poll_heard hundisturbed hjoined.calm hheard, hrests hidle,
      Sys.loopHead_calm hundisturbed hcalm₂, if_pos hidle, hstate]
  refine ⟨polls + 1, _, _, hdone, hcurrent, id, [.concluded (.RunEnded s.run.state.state),
    .told (.Outcome .RunEnded), .told (.EdgeEvaluated join.node [.END]),
    .told (.UpdateApplied join.node), .applied join.node id Fields.emptyUpdate
      ⟨s.run.state.step + 1, s.run.state.state⟩ [.END],
    .told (.EventHandled join.node id .Result)], s.run.log, ?_, ?_, ?_⟩
  · show .concluded _ :: .told _ :: s₂.run.log = _
    rw [hlog]
    rfl
  · intro lane hlane
    refine ⟨hlanes.applied lane hlane (hcurrent lane hlane), ?_⟩
    intro own update state targets hmem
    simp only [List.mem_cons, Fact.applied.injEq, reduceCtorEq, false_or, List.not_mem_nil,
      or_false] at hmem
    exact hfits.lane_ne s.run.state.state hlane hmem.1
  · intro other result hmem
    rcases List.mem_append.mp hmem with hlater | hbefore
    · simp at hlater
    · exact hlanes.behind _ hbefore rfl

end Polls

/-- A join that goes on presses: someone has work that waits for no one. -/
theorem Joining.pressing {graph : Graph F} {run : Run F} (hjoining : Joining join graph run)
    (hlanes : join.lanes ≠ []) : join.Pressing run := by
  have hlane {lane : String} (hmember : lane ∈ join.lanes)
      (hunmarked : ¬join.marked lane run.state.state) : join.Pressing run := by
    obtain ⟨slot, hslot, -, -, hmarked⟩ := hjoining.lanes.lane lane hmember
    refine .lane lane slot hmember hslot ((NodeSlot.isLive_iff slot).mpr fun habsent => ?_)
    exact hunmarked (hmarked.mp habsent)
  obtain ⟨slot, hslot, -, hgathers⟩ := hjoining.node
  cases hgathers with
  | idle hlive hfree hnone =>
    obtain ⟨lane, hmember⟩ := List.exists_mem_of_ne_nil _ hlanes
    exact hlane hmember (hnone lane hmember)
  | creating id first hlive hlatest hearly => exact .created slot id first hslot hlive
  | running id core hlive hfree hlatest =>
    by_cases hcomplete : join.Complete run.state.state
    · exact .merged slot id core run.state hslot hlive hlatest hcomplete
    · simp only [Complete, not_forall] at hcomplete
      obtain ⟨lane, hmember, hunmarked⟩ := hcomplete
      exact hlane hmember hunmarked

section Run

variable {out : Outside F} {graph : Graph F} {config : RunConfig} {state : State F}
  {control : Control F} (hlaunch : Launch out graph config (.Nodes join.lanes) state control)

include hlaunch

/-- The instance of every message is there at every moment of a run. -/
private theorem housed (polls : Nat) : (control.after out polls).sys.world.Housed := by
  refine (Sys.housed_kept out).launched hlaunch ?_ polls
  intro node id made hmem
  cases hmem

variable (hfits : join.Fits graph) (hdriven : join.Driven out control) (htrips : RoundTrips F)

include hfits hdriven htrips

/-- Whatever is heard next of a join that goes on brings it closer to its end. -/
private theorem goes_or_ends (htakes : join.Takes out control) {polls : Nat} {s s₁ : Sys F}
    {message : Message F}
    (hwaiting : control.after out polls = .waiting s) (hjoined : Joined join graph s)
    (hheard : s.heard out = some (message, s₁)) (hlive : message.Live s.run) :
    Goes join graph out control polls s ∨ Ends join out control := by
  have hknown {name : String} {slot : NodeSlot F} (hslot : s.run.slot name = some slot)
      (hlive : slot.live ≠ .Absent) : name ∈ join.lanes ∨ name = join.node := by
    by_contra hneither
    rw [not_or] at hneither
    have hidle := hjoined.joining.lanes.others name slot hslot hneither.1 hneither.2
    exact hlive ((NodeSlot.isIdle_iff slot).mp hidle).1
  cases message with
  | Created name id result =>
    obtain ⟨slot, first, hslot, hcreating⟩ := hlive
    rcases hknown hslot (by simp [hcreating]) with hlane | rfl
    · exact .inl (goes_of_created_lane hlaunch hfits hdriven hwaiting hjoined htakes hlane hheard
        hslot hcreating)
    · exact .inl (goes_of_created_node hlaunch hfits hdriven hwaiting hjoined hheard hslot
        hcreating)
  | Ended name id result =>
    obtain ⟨slot, core, hslot, hrunning⟩ := hlive
    rcases hknown hslot (by simp [hrunning]) with hlane | rfl
    · exact .inl (goes_of_ended_lane hfits hdriven htrips hwaiting hjoined hlane hheard hslot
        hrunning)
    · exact .inr (ends_of_ended_node hfits hdriven htrips hwaiting hjoined hheard hslot hrunning)

/-- From every wait of a join the run comes to its end. -/
private theorem ends_of_joined (htakes : join.Takes out control) (hlanes : join.lanes ≠ [])
    (left : Nat) :
    ∀ polls s, control.after out polls = .waiting s → Joined join graph s →
      join.left s.run = left → Ends join out control := by
  induction left using Nat.strongRecOn with
  | ind left ih =>
    intro polls s hwaiting hjoined hleft
    have hserved := hdriven.served polls s hwaiting (hjoined.joining.pressing hlanes)
    obtain ⟨later, s₁, message, s₂, hwaits, hsame, hcalm, hheard, hlive⟩ :=
      hlaunch.hears hdriven.undisturbed hwaiting hjoined.calm hserved
    have hhoused := housed hlaunch (polls + later)
    rw [hwaits] at hhoused
    have hjoined₁ : Joined join graph s₁ := ⟨hcalm, hhoused, hsame ▸ hjoined.joining⟩
    rcases goes_or_ends hlaunch hfits hdriven htrips htakes hwaits hjoined₁ hheard hlive with
      ⟨s', hnext, hjoined', hless⟩ | hends
    · rw [hsame, hleft] at hless
      exact ih _ hless (polls + later + 1) s' hnext hjoined' rfl
    · exact hends

end Run

/-- Handing to held nodes that are absent begins a creation of each. -/
private theorem creates_all {out : Outside F} (hundisturbed : Undisturbed out) {s : Sys F}
    (hcalm : s.Calm) {names : List String} (hnodup : names.Nodup)
    (hheld : ∀ name ∈ names, ∃ slot, s.run.slot name = some slot ∧ slot.live = .Absent ∧
      slot.held = true ∧ slot.untaken = false) :
    ∃ s', names.foldl (fun s name => if s.run.isStopping then s else s.handTo out name) s = s' ∧
      s'.Calm ∧ (∃ new, Adds s.run s'.run new ∧ ∀ fact ∈ new, ∃ name id, fact = .creating name id) ∧
      (∀ other, other ∉ names → s'.run.slot other = s.run.slot other) ∧
      ∀ name ∈ names, ∃ slot id, s'.run.slot name = some slot ∧
        slot.live = .Creating id s.run.state ∧ slot.held = false ∧ slot.untaken = false := by
  induction names generalizing s with
  | nil => exact ⟨s, rfl, hcalm, ⟨[], ⟨rfl, rfl, rfl⟩, by simp⟩, fun _ _ => rfl, by simp⟩
  | cons name rest ih =>
    obtain ⟨hnew, hrest⟩ := List.nodup_cons.mp hnodup
    obtain ⟨slot, hslot, habsent, hset, huntaken⟩ := hheld name List.mem_cons_self
    have hhands := Sys.handTo_handed out hslot hset (hundisturbed.minted _) fun id core hlive => by
      rw [habsent] at hlive
      cases hlive
    have hrun : (s.handTo out name).run = s.run.create name := by
      cases hhands with
      | creates _ hrun => exact hrun
      | waits _ _ hlive _ | takes _ _ hlive _ | refuses _ _ hlive _ _ =>
        rw [habsent] at hlive
        cases hlive
    have hcalm' := (Sys.handTo_quietly hundisturbed hcalm name).calm
    have hadds := Adds.create s.run name
    rw [← hrun] at hadds
    have hself : (s.handTo out name).run.slot name =
        some (slot.release.beginCreating s.run.minted s.run.state) := by
      rw [hrun, Run.create, Run.slot_note, Run.slot_change_self]
      show (s.run.slot name).map _ = _
      rw [hslot]
      rfl
    have hslots (other : String) (hother : other ≠ name) :
        (s.handTo out name).run.slot other = s.run.slot other := by
      rw [hrun, Run.create, Run.slot_note, Run.slot_change_of_ne _ (Ne.symm hother)]
      rfl
    have hothers (other : String) (hother : other ∈ rest) : other ≠ name :=
      fun hsame => hnew (hsame ▸ hother)
    obtain ⟨s', hfold, hcalms, ⟨new, hadded, hcreated⟩, hkept, hall⟩ := ih hcalm' hrest
      fun other hother => by
        rw [hslots other (hothers other hother)]
        exact hheld other (List.mem_cons_of_mem _ hother)
    refine ⟨s', ?_, hcalms, ⟨new ++ [.creating name s.run.minted], hadds.trans hadded, ?_⟩, ?_, ?_⟩
    · rw [List.foldl_cons, hcalm.isStopping, if_neg Bool.false_ne_true]
      exact hfold
    · intro fact hmem
      rcases List.mem_append.mp hmem with hlater | hfirst
      · exact hcreated fact hlater
      · exact ⟨name, s.run.minted, List.mem_singleton.mp hfirst⟩
    · intro other hother
      rw [List.mem_cons, not_or] at hother
      rw [hkept other hother.2, hslots other hother.1]
    · intro other hother
      rcases List.mem_cons.mp hother with rfl | hlater
      · refine ⟨_, s.run.minted, (hkept other hnew).trans hself, rfl, rfl, huntaken⟩
      · obtain ⟨own, id, hown, hlive, hfree, htaken⟩ := hall other hlater
        exact ⟨own, id, hown, by rw [hlive, hadds.state], hfree, htaken⟩

/-- The first wait of a join: every lane is being created on the state the run starts from. -/
private theorem first_joined {out : Outside F} {graph : Graph F} {config : RunConfig}
    {state : State F} {control : Control F}
    (hlaunch : Launch out graph config (.Nodes join.lanes) state control)
    (hfits : join.Fits graph) (hundisturbed : Undisturbed out)
    (huntriggered : config.triggered = false)
    (hfresh : ∀ lane ∈ join.lanes, ¬join.marked lane state) :
    join.lanes ≠ [] ∧ ∃ s, control.after out 0 = .waiting s ∧ Joined join graph s := by
  obtain ⟨hbegun, hnames⟩ := hlaunch.begins
  obtain ⟨hnonempty, hnodup, hmembers⟩ := (checkNames_ok graph join.lanes).mp hnames
  refine ⟨hnonempty, ?_⟩
  obtain ⟨opened, hrun, hcalm, hbegins⟩ := hlaunch.begins_calm hundisturbed huntriggered
  have hticked := (Sys.tick_quietly hundisturbed hcalm).calm
  have hslots (name : String) : (∀ slot, opened.run.slot name = some slot →
      slot.live = .Absent ∧ slot.untaken = false ∧ (slot.held = true ↔ name ∈ join.lanes)) ∧
        (name ∈ graph.shape.names ↔ (opened.run.slot name).isSome) := by
    rw [hrun]
    exact Run.slot_opened graph state config join.lanes name
  have hstate : opened.run.state = ⟨0, state⟩ := by
    rw [hrun]
    exact Run.holdAll_state _ _
  have hlog : opened.run.log = [.started join.lanes] := by
    rw [hrun]
    simp [Run.opened, Run.note, Run.new, Origin.heldNames]
  have hgraph : opened.run.graph = graph := by
    rw [hrun]
    exact Run.holdAll_graph _ _
  have hheld (lane : String) (hlane : lane ∈ join.lanes) : ∃ slot,
      (opened.tick out).run.slot lane = some slot ∧ slot.live = .Absent ∧ slot.held = true ∧
        slot.untaken = false := by
    obtain ⟨hall, hknown⟩ := hslots lane
    obtain ⟨slot, hslot⟩ := Option.isSome_iff_exists.mp (hknown.mp (hmembers lane hlane))
    obtain ⟨habsent, huntaken, hset⟩ := hall slot hslot
    exact ⟨slot, hslot, habsent, hset.mpr hlane, huntaken⟩
  have horder : Sys.handOrder (opened.tick out).run join.lanes = join.lanes := by
    have hnone : (opened.tick out).run.heldNames.filter (· ∉ join.lanes) = [] := by
      rw [List.filter_eq_nil_iff]
      intro name hname
      obtain ⟨slot, hslot, hset⟩ := ((opened.tick out).run.mem_heldNames name).mp hname
      simp [((hslots name).1 slot hslot).2.2.mp hset]
    rw [Sys.handOrder, hnone, List.append_nil]
  obtain ⟨s', hfold, hcalm', ⟨new, hadds, hcreated⟩, hkept, hall⟩ :=
    creates_all hundisturbed hticked hnodup hheld
  have hhanded : (opened.tick out).handOver out join.lanes = s' := by
    rw [Sys.handOver, horder, hfold]
  obtain ⟨lane, hlane⟩ := List.exists_mem_of_ne_nil _ hnonempty
  have hbusy : s'.run.allIdle = false := by
    obtain ⟨slot, id, hslot, hlive, -, -⟩ := hall lane hlane
    exact Sys.busy_of_live hslot (by simp [hlive])
  have hwaiting : control.after out 0 = .waiting (s'.tick out) := by
    show control = _
    rw [hbegins]
    show ((opened.tick out).handOver out join.lanes).loopHead out = _
    rw [hhanded, Sys.loopHead_calm hundisturbed hcalm', hbusy, if_neg Bool.false_ne_true]
  have hstate' : s'.run.state = ⟨0, state⟩ := hadds.state.trans hstate
  have hhoused := housed hlaunch 0
  rw [hwaiting] at hhoused
  refine ⟨s'.tick out, hwaiting, (Sys.tick_quietly hundisturbed hcalm').calm, hhoused, ?_, ?_⟩
  · refine ⟨hadds.graph.trans hgraph, ?_, ?_, ?_, ?_⟩
    · intro name slot hslot hnot _
      have hbefore : opened.run.slot name = some slot := (hkept name hnot).symm.trans hslot
      obtain ⟨habsent, huntaken, hset⟩ := (hslots name).1 slot hbefore
      rw [NodeSlot.isIdle_iff]
      refine ⟨habsent, ?_, huntaken⟩
      by_contra hheld'
      rw [Bool.not_eq_false] at hheld'
      exact hnot (hset.mp hheld')
    · intro other hother
      obtain ⟨slot, id, hslot, hlive, hfree, huntaken⟩ := hall other hother
      refine ⟨slot, hslot, hfree, huntaken, ?_⟩
      rw [Sys.run_tick, hstate', hlive]
      constructor
      · intro himpossible
        cases himpossible
      · intro hmarked
        exact absurd hmarked (hfresh other hother)
    · intro other hother hmarked
      rw [Sys.run_tick, hstate'] at hmarked
      exact absurd hmarked (hfresh other hother)
    · intro fact hmem
      rw [Sys.run_tick, hadds.log, Sys.run_tick, hlog] at hmem
      rcases List.mem_append.mp hmem with hnew | hfirst
      · obtain ⟨name, id, rfl⟩ := hcreated fact hnew
        trivial
      · rw [List.mem_singleton.mp hfirst]
        trivial
  · have hnode : join.node ∉ join.lanes := fun hmem => hfits.lane_ne state hmem rfl
    have hknown : join.node ∈ graph.shape.names :=
      Graph.target_known (hfits.leads lane hlane 0 state) (by simp)
    obtain ⟨hopened, hisSome⟩ := hslots join.node
    obtain ⟨slot, hslot⟩ := Option.isSome_iff_exists.mp (hisSome.mp hknown)
    obtain ⟨habsent, huntaken, hset⟩ := hopened slot hslot
    refine ⟨slot, (hkept _ hnode).trans hslot, huntaken, .idle habsent ?_ ?_⟩
    · by_contra hheld'
      rw [Bool.not_eq_false] at hheld'
      exact hnode (hset.mp hheld')
    · intro other hother
      rw [Sys.run_tick, hstate']
      exact hfresh other hother

/-- A join through a merger: lanes that are started together, each of which leads to the node of the
merger and sets its own mark, that node leading to the end.  In every order in which the lanes end
and at whatever moment the merger is created, the run ends with every mark set, after one result
of the merger, which comes after the updates of all lanes. -/
theorem join_ends {out : Outside F} {graph : Graph F} {config : RunConfig} {state : State F}
    {control : Control F} (hlaunch : Launch out graph config (.Nodes join.lanes) state control)
    (hfits : join.Fits graph) (hdriven : join.Driven out control) (htakes : join.Takes out control)
    (htrips : RoundTrips F) (huntriggered : config.triggered = false)
    (hfresh : ∀ lane ∈ join.lanes, ¬join.marked lane state) : Ends join out control := by
  obtain ⟨hnonempty, s, hwaiting, hjoined⟩ :=
    first_joined hlaunch hfits hdriven.undisturbed huntriggered hfresh
  exact ends_of_joined hlaunch hfits hdriven htrips htakes hnonempty _ 0 s hwaiting hjoined rfl

/-- A merger that was given a complete state comes to end with the empty update. -/
theorem Fits.comes_to_end {graph : Graph F} (hfits : join.Fits graph) (id : InstanceId)
    {inputs : List (Input F)} {input : Input F} (hmem : input ∈ inputs)
    (hcomplete : join.Complete input.state) :
    ∃ stage served waker, join.merger.Serves false id stage served inputs ∧
      (served.pollRecv waker).2 = .Ready (.ok (.Result Fields.emptyUpdate)) := by
  have hbegins : join.merger.Serves false id .Waiting (Core.new id) [] := .begins
  obtain ⟨core, hgiven, -, -, -⟩ := hbegins.give_all rfl inputs
  rw [List.nil_append] at hgiven
  have hfire := hfits.decide_fire.mpr hcomplete
  obtain ⟨last, event, hreaches, hsent⟩ := hgiven.returns ⟨input, hmem, by simp [hfire]⟩
  have hserves := hgiven.advances hreaches
  have hready : (last.pollRecv 0).2 = .Ready (.ok event) := by
    rw [Core.pollRecv, hsent]
  obtain ⟨event', hsame, hanswers⟩ := hserves.recv hready
  cases hsame
  refine ⟨.Returned, last, 0, hserves, ?_⟩
  cases hanswers with
  | fire => exact hready
  | refuse input _ hrefuse => exact absurd hrefuse (hfits.decide_not_refuse input.state)
  | cancel htriggered => cases htriggered

/-- How often the log tells of a result of a node. -/
def timesHandled (log : List (Fact F)) (name : String) : Nat :=
  log.countP fun
    | .handled node _ _ => node = name
    | _ => false

/-- A join that ends as promised has handled one result of the node of the merger. -/
theorem Ends.once {out : Outside F} {control : Control F} (hends : Ends join out control)
    {polls : Nat} {s : Sys F} {outcome : Outcome F}
    (hdone : control.after out polls = .done s outcome) : timesHandled s.run.log join.node = 1 := by
  obtain ⟨other, s', final, hended, -, id, later, past, hlog, -, hno⟩ := hends
  have hsame : s = s' := by
    have hearly : control.after out (polls + other) = control.after out polls :=
      Control.after_done (by rw [hdone]; rfl) other
    have hlate : control.after out (other + polls) = control.after out other :=
      Control.after_done (by rw [hended]; rfl) polls
    rw [Nat.add_comm, hlate, hended, hdone] at hearly
    cases hearly
    rfl
  have hnone (log : List (Fact F)) (hsub : log ⊆ later ++ past) :
      timesHandled log join.node = 0 := by
    rw [timesHandled, List.countP_eq_zero]
    intro fact hmem hhandled
    split at hhandled
    · rw [decide_eq_true_eq] at hhandled
      subst hhandled
      exact hno _ _ (hsub hmem)
    · cases hhandled
  rw [hsame, hlog, timesHandled, List.countP_append, List.countP_cons]
  rw [← timesHandled, ← timesHandled, hnone later (List.subset_append_left _ _),
    hnone past (List.subset_append_right _ _)]
  simp

end Join

/-! A fork of two lanes that count: `a` sets the first bit of the count, `b` the second, and both lead
to `m`. -/

def fork : GraphBuilder Tally where
  version := "1"
  nodes := [⟨"a", "flow", "plain"⟩, ⟨"b", "flow", "plain"⟩, ⟨"m", "flow", "merger"⟩]
  edges := [leadsTo "a" (.Node "m"), leadsTo "b" (.Node "m"), leadsTo "m" .END]
  entries := ["a", "b"]

theorem fork_accepted : fork.build.isOk = true := by decide +kernel

def forkGraph : Graph Tally := fork.built fork_accepted

def bit (lane : String) (count : Nat) : Bool :=
  if lane = "a" then count % 2 == 1 else count / 2 % 2 == 1

/-- The lanes of the fork and a merger that waits for both bits. -/
def twoBits : Join Tally where
  lanes := ["a", "b"]
  node := "m"
  merger := ⟨⟨"both", fun state => bit "a" state.fields.count && bit "b" state.fields.count,
    fun _ => false⟩, .Silent⟩
  marked lane state := bit lane state.fields.count = true

theorem twoBits_fits : twoBits.Fits forkGraph where
  leads lane hlane now state := by
    have hlanes : lane = "a" ∨ lane = "b" := by simpa [twoBits] using hlane
    obtain rfl | rfl := hlanes
    · rfl
    · rfl
  ends now state := rfl
  ready state := by simp [twoBits, Join.Complete]
  spent state := rfl
  empty state := rfl

local instance : DecidableEq (State Tally) := fun a b =>
  decidable_of_iff (a.fields = b.fields ∧ a.limit = b.limit ∧ a.size = b.size) State.ext_iff.symm

local instance : DecidableEq (Shared Tally)
  | ⟨step, state⟩, ⟨step', state'⟩ =>
    decidable_of_iff (step = step' ∧ state = state') (by simp)

/-- The result of a node sets its own bit and no other, or is the one of the merger. -/
def setsBit (run : Run Tally) (node : String) (id : InstanceId) (update : Nat) : Bool :=
  if node = "m" then
    update == 0 && (acceptedInputs run.log "m" id).any fun input =>
      bit "a" input.state.fields.count && bit "b" input.state.fields.count
  else
    match run.state.state.apply 0 update with
    | .ok next => bit node next.fields.count && ["a", "b"].all fun other =>
        other == node || bit other next.fields.count == bit other run.state.state.fields.count
    | _ => false

/-- What is heard at a wait is about a live instance, and as the join has it. -/
def Sys.hearsJoin (out : Outside Tally) (s : Sys Tally) : Bool :=
  match s.heard out with
  | some (.Created node id (.ok made), _) =>
      made.id == id && (s.run.slot node).any fun slot => (slot.firstInputOfCreation id).isSome
  | some (.Ended node id (.ok (.Result update)), _) =>
      ((s.run.slot node).any fun slot => slot.runningId == some id) && setsBit s.run node id update
  | _ => false

/-- A running merger has read none of its inputs. -/
def Sys.unread (s : Sys Tally) : Bool :=
  (s.run.slot "m").all fun slot =>
    match slot.live with
    | .Running id core => s.world.cores[core]?.any fun own => own.acceptsInput &&
        own.executor == .Attached && decide (own.queue = acceptedInputs s.run.log "m" id)
    | _ => true

/-- Each running lane took an input. -/
def Sys.lanesTook (s : Sys Tally) : Bool :=
  ["a", "b"].all fun lane => (s.run.slot lane).all fun slot =>
    match slot.live with
    | .Running id _ => !(acceptedInputs s.run.log lane id).isEmpty
    | _ => true

/-- At each wait a run comes to before it is over, after some polls, a check holds. -/
def Control.eachWait (check : Sys Tally → Bool) (out : Outside Tally) : Nat → Control Tally → Bool
  | 0, control => control.isDone
  | polls + 1, .waiting s => check s && (s.poll out).eachWait check out polls
  | _ + 1, .done _ _ => false

private theorem after_next (out : Outside Tally) (control : Control Tally) (polls : Nat) :
    (control.next out).after out polls = control.after out (polls + 1) := by
  induction polls with
  | zero => rfl
  | succ polls ih => exact congrArg (Control.next out) ih

private theorem of_eachWait {check : Sys Tally → Bool} {out : Outside Tally} {last : Nat}
    {control : Control Tally} (heach : control.eachWait check out last = true) {polls : Nat}
    {s : Sys Tally} (hwaiting : control.after out polls = .waiting s) : check s = true := by
  induction last generalizing control polls with
  | zero =>
    have hdone : (control.after out 0).isDone = true := heach
    have hover := Control.after_done hdone polls
    rw [Nat.zero_add, hwaiting] at hover
    rw [← hover] at hdone
    cases hdone
  | succ last ih =>
    cases control with
    | done _ _ => cases heach
    | waiting s₀ =>
      obtain ⟨hcheck, hrest⟩ := (Bool.and_eq_true _ _).mp heach
      cases polls with
      | zero =>
        cases hwaiting
        exact hcheck
      | succ polls =>
        rw [← after_next] at hwaiting
        exact ih hrest hwaiting

private theorem of_hearsJoin {out : Outside Tally} {s : Sys Tally}
    (hwell : s.hearsJoin out = true) :
    (∃ node id core s₁, s.heard out = some (.Created node id (.ok ⟨id, core⟩), s₁) ∧
      Message.Live s.run (.Created node id (.ok ⟨id, core⟩))) ∨
    ∃ node id update s₁, s.heard out = some (.Ended node id (.ok (.Result update)), s₁) ∧
      Message.Live s.run (.Ended node id (.ok (.Result update))) ∧
        setsBit s.run node id update = true := by
  unfold Sys.hearsJoin at hwell
  split at hwell
  · rename_i node id made s₁ hheard
    rw [Bool.and_eq_true, beq_iff_eq] at hwell
    obtain ⟨slot, hslot, hbegun⟩ := (Option.any_eq_true _ _).mp hwell.2
    obtain ⟨input, hfirst⟩ := Option.isSome_iff_exists.mp hbegun
    rw [NodeSlot.firstInputOfCreation_eq_some] at hfirst
    refine .inl ⟨node, id, made.core, s₁, ?_, slot, input, hslot, hfirst⟩
    rw [hheard, ← hwell.1]
  · rename_i node id update s₁ hheard
    obtain ⟨hrunning, hsets⟩ := (Bool.and_eq_true _ _).mp hwell
    obtain ⟨slot, hslot, hown⟩ := (Option.any_eq_true _ _).mp hrunning
    obtain ⟨core, hlive⟩ := (NodeSlot.runningId_eq_some slot id).mp (by simpa using hown)
    exact .inr ⟨node, id, update, s₁, hheard, ⟨slot, core, hslot, hlive⟩, hsets⟩
  · cases hwell

private theorem of_setsBit_lane {run : Run Tally} {lane : String} {id : InstanceId} {update : Nat}
    (hlane : lane ∈ twoBits.lanes) (hsets : setsBit run lane id update = true) :
    ∃ next, run.state.state.apply 0 update = .ok next ∧ twoBits.marked lane next ∧
      ∀ other ∈ twoBits.lanes, other ≠ lane →
        (twoBits.marked other next ↔ twoBits.marked other run.state.state) := by
  have hne : lane ≠ "m" := twoBits_fits.lane_ne Tally.zero hlane
  rw [setsBit, if_neg hne] at hsets
  split at hsets
  · rename_i next hnext
    obtain ⟨hown, hothers⟩ := (Bool.and_eq_true _ _).mp hsets
    refine ⟨next, hnext, hown, fun other hother hnot => ?_⟩
    have hkept := List.all_eq_true.mp hothers other hother
    rw [Bool.or_eq_true, beq_iff_eq, beq_iff_eq] at hkept
    have hsame := hkept.resolve_left hnot
    show bit other next.fields.count = true ↔ bit other run.state.state.fields.count = true
    rw [hsame]
  · cases hsets

private theorem of_setsBit_node {run : Run Tally} {id : InstanceId} {update : Nat}
    (hsets : setsBit run "m" id update = true) :
    update = 0 ∧ ∃ input ∈ acceptedInputs run.log "m" id, twoBits.Complete input.state := by
  rw [setsBit, if_pos rfl, Bool.and_eq_true, beq_iff_eq, List.any_eq_true] at hsets
  obtain ⟨hempty, input, hmem, hboth⟩ := hsets
  refine ⟨hempty, input, hmem, ?_⟩
  rw [← twoBits_fits.ready]
  exact hboth

private theorem of_unread {s : Sys Tally} (hunread : s.unread = true) {slot : NodeSlot Tally}
    {id : InstanceId} {core : Address} (hslot : s.run.slot "m" = some slot)
    (hlive : slot.live = .Running id core) : twoBits.Serving s id core := by
  have hall := hunread
  rw [Sys.unread, hslot, Option.all_some, hlive] at hall
  obtain ⟨own, hown, hown'⟩ := (Option.any_eq_true _ _).mp hall
  rw [Bool.and_eq_true, Bool.and_eq_true, beq_iff_eq, decide_eq_true_eq] at hown'
  obtain ⟨⟨hopen, hattached⟩, hqueue⟩ := hown'
  have hnode : own.node = .Working .Open := by
    unfold Core.acceptsInput at hopen
    split at hopen
    · rename_i hnode
      exact hnode
    · cases hopen
  have hbegins : twoBits.merger.Serves false id .Waiting (Core.new id) [] := .begins
  obtain ⟨served, hserves, hnode', hqueue', hattached'⟩ :=
    hbegins.give_all rfl (acceptedInputs s.run.log "m" id)
  refine ⟨.Waiting, served, own, hserves, hown, .inl ⟨?_, ?_, ?_⟩⟩
  · rw [hnode, hnode']
  · rw [hqueue, hqueue']
    rfl
  · rw [hattached, hattached']
    rfl

/-- A run of the fork in which every wait hears of the join, and finds its merger unread, is
driven. -/
theorem driven_of_eachWait {out : Outside Tally} {control : Control Tally} (last : Nat)
    (hundisturbed : Undisturbed out)
    (heach : control.eachWait (fun s => s.hearsJoin out && s.unread) out last = true) :
    twoBits.Driven out control := by
  have hwell {polls : Nat} {s : Sys Tally} (hwaiting : control.after out polls = .waiting s) :
      s.hearsJoin out = true ∧ s.unread = true :=
    (Bool.and_eq_true _ _).mp (of_eachWait heach hwaiting)
  refine ⟨hundisturbed, ?_, ?_, ?_, ?_, ?_⟩
  · intro polls s node id result s₁ hwaiting hheard
    rcases of_hearsJoin (hwell hwaiting).1 with
      ⟨_, _, core, _, hsame, -⟩ | ⟨_, _, _, _, hsame, -⟩
    · rw [hheard] at hsame
      cases hsame
      exact ⟨core, rfl⟩
    · rw [hheard] at hsame
      cases hsame
  · intro polls s lane id result s₁ hwaiting hlane hheard _
    rcases of_hearsJoin (hwell hwaiting).1 with
      ⟨_, _, _, _, hsame, -⟩ | ⟨_, _, update, _, hsame, -, hsets⟩
    · rw [hheard] at hsame
      cases hsame
    · rw [hheard] at hsame
      cases hsame
      obtain ⟨next, hnext, hown, hothers⟩ := of_setsBit_lane hlane hsets
      exact ⟨update, 0, next, rfl, hnext, hown, hothers⟩
  · intro polls s slot id core hwaiting hslot hlive
    exact of_unread (hwell hwaiting).2 hslot hlive
  · intro polls s id result s₁ hwaiting hheard _
    rcases of_hearsJoin (hwell hwaiting).1 with
      ⟨_, _, _, _, hsame, -⟩ | ⟨_, _, update, _, hsame, -, hsets⟩
    · rw [hheard] at hsame
      cases hsame
    · rw [hheard] at hsame
      cases hsame
      obtain ⟨rfl, input, hmem, hcomplete⟩ := of_setsBit_node hsets
      exact twoBits_fits.comes_to_end id hmem hcomplete
  · intro polls s hwaiting _
    rcases of_hearsJoin (hwell hwaiting).1 with
      ⟨_, _, _, s₁, hheard, hlive⟩ | ⟨_, _, _, s₁, hheard, hlive, -⟩
    · exact ⟨0, s, _, s₁, hwaiting, hheard, hlive⟩
    · exact ⟨0, s, _, s₁, hwaiting, hheard, hlive⟩

private theorem takes_of_eachWait {out : Outside Tally} {control : Control Tally} (last : Nat)
    (heach : control.eachWait Sys.lanesTook out last = true) : twoBits.Takes out control := by
  intro polls s hwaiting lane hlane slot id core hslot hlive hnone _
  have htook := List.all_eq_true.mp (of_eachWait heach hwaiting) lane hlane
  rw [hslot, Option.all_some, hlive] at htook
  simp [hnone] at htook

/-- Surroundings that move at some moments and agree to everything. -/
def scripted (script : List (Nat × List (Act Tally))) : Outside Tally := fun moment =>
  match script.lookup moment with
  | some acts => .doing acts
  | none => .still

private theorem scripted_undisturbed {script : List (Nat × List (Act Tally))}
    (hquiet : ∀ entry ∈ script, Act.trigger ∉ entry.2) : Undisturbed (scripted script) where
  quiet moment := by
    unfold scripted
    split
    · rename_i acts hlookup
      obtain ⟨_, _, hscript, -⟩ := List.lookup_eq_some_iff.mp hlookup
      exact hquiet (moment, acts) (by simp [hscript])
    · exact List.not_mem_nil
  minted moment := by
    unfold scripted
    split <;> rfl
  sunk moment := by
    unfold scripted
    split <;> rfl

/-- The task of a merger reads some inputs and ends with the empty update. -/
def merges (core inputs : Nat) : List (Act Tally) :=
  List.replicate inputs (.next core 0) ++
    [.closeInput core, .drain core, .finish core (.Result (0 : Nat)), .forward core]

/-- `a` ends, then `b`, and `m`, which was created in between, is given both states. -/
def oneByOne : Outside Tally := scripted [
  ⟨2, [.channel 0, .created ⟨"a", 0⟩ (.ok 0)]⟩,
  ⟨7, [.channel 1, .created ⟨"b", 1⟩ (.ok 1)]⟩,
  ⟨12, [.finish 0 (.Result (1 : Nat)), .forward 0]⟩,
  ⟨21, [.channel 2, .created ⟨"m", 2⟩ (.ok 2)]⟩,
  ⟨26, [.finish 1 (.Result (2 : Nat)), .forward 1]⟩,
  ⟨36, merges 2 2⟩]

/-- `a` closes its input before it is given one, so it is created a second time when it has ended. -/
def refusing : Outside Tally := scripted [
  ⟨2, [.channel 0, .closeInput 0, .created ⟨"a", 0⟩ (.ok 0)]⟩,
  ⟨7, [.channel 1, .created ⟨"b", 1⟩ (.ok 1)]⟩,
  ⟨12, [.finish 0 (.Result (1 : Nat)), .forward 0]⟩,
  ⟨21, [.channel 2, .created ⟨"m", 2⟩ (.ok 2)]⟩,
  ⟨26, [.finish 1 (.Result (2 : Nat)), .forward 1]⟩,
  ⟨36, merges 2 2⟩,
  ⟨45, [.channel 3, .created ⟨"a", 3⟩ (.ok 3)]⟩,
  ⟨50, [.finish 3 (.Result (4 : Nat)), .forward 3]⟩,
  ⟨59, [.channel 4, .created ⟨"m", 4⟩ (.ok 4)]⟩,
  ⟨64, merges 4 1⟩]

/-- Both bits are set from the start, so `m` merges after each of the lanes. -/
def settled : Outside Tally := scripted [
  ⟨2, [.channel 0, .created ⟨"a", 0⟩ (.ok 0)]⟩,
  ⟨7, [.channel 1, .created ⟨"b", 1⟩ (.ok 1)]⟩,
  ⟨12, [.finish 0 (.Result (4 : Nat)), .forward 0]⟩,
  ⟨21, [.channel 2, .created ⟨"m", 2⟩ (.ok 2)]⟩,
  ⟨26, merges 2 1⟩,
  ⟨35, [.finish 1 (.Result (4 : Nat)), .forward 1]⟩,
  ⟨44, [.channel 3, .created ⟨"m", 3⟩ (.ok 3)]⟩,
  ⟨49, merges 3 1⟩]

def bothSet : State Tally :=
  ⟨⟨3⟩, Tally.zero.limit, 3, rfl, ⟨0, "|||", rfl, by decide⟩, by decide⟩

def forkRun (out : Outside Tally) (state : State Tally) : Control Tally :=
  Sys.begin out ⟨.new forkGraph state 0 true, .fresh false⟩ (.Nodes ["a", "b"])

theorem fork_launch (out : Outside Tally) (state : State Tally) :
    Launch out forkGraph ⟨false, 0, true⟩ (.Nodes ["a", "b"]) state (forkRun out state) :=
  Launch.ofStart state ["a", "b"] (by decide +kernel)

private theorem oneByOne_undisturbed : Undisturbed oneByOne :=
  scripted_undisturbed (by simp [merges])

private theorem refusing_undisturbed : Undisturbed refusing :=
  scripted_undisturbed (by simp [merges])

private theorem settled_undisturbed : Undisturbed settled :=
  scripted_undisturbed (by simp [merges])

private theorem zero_fresh : ∀ lane ∈ twoBits.lanes, ¬twoBits.marked lane Tally.zero := by
  show ∀ lane ∈ ["a", "b"], ¬bit lane 0 = true
  decide

/-- How often the log of a run that is over tells of a result of `m`. -/
def Control.merged : Control Tally → Option Nat
  | .done s _ => some (Join.timesHandled s.run.log "m")
  | .waiting _ => none

private theorem not_ends_of_merged {out : Outside Tally} {control : Control Tally} (polls : Nat)
    (htwice : (control.after out polls).merged = some 2) : ¬twoBits.Ends out control := by
  intro hends
  cases hafter : control.after out polls with
  | waiting s =>
    rw [hafter] at htwice
    cases htwice
  | done s outcome =>
    rw [hafter] at htwice
    have honce := hends.once hafter
    change some (Join.timesHandled s.run.log twoBits.node) = some 2 at htwice
    rw [honce] at htwice
    cases htwice

/-- The fork whose lanes end one by one. -/
theorem join_ends_fork : twoBits.Ends oneByOne (forkRun oneByOne Tally.zero) :=
  Join.join_ends (fork_launch oneByOne Tally.zero) twoBits_fits
    (driven_of_eachWait 6 oneByOne_undisturbed (by decide +kernel))
    (takes_of_eachWait 6 (by decide +kernel)) tally_roundTrips rfl zero_fresh

/-- A lane that refuses the input it is started with ends twice, and so does the merger; and where the
marks are set from the start the merger has a result after each lane. -/
theorem join_ends_twice :
    (Launch refusing forkGraph ⟨false, 0, true⟩ (.Nodes twoBits.lanes) Tally.zero
        (forkRun refusing Tally.zero) ∧ twoBits.Fits forkGraph ∧
      twoBits.Driven refusing (forkRun refusing Tally.zero) ∧
      (∀ lane ∈ twoBits.lanes, ¬twoBits.marked lane Tally.zero) ∧
      ¬twoBits.Ends refusing (forkRun refusing Tally.zero)) ∧
    Launch settled forkGraph ⟨false, 0, true⟩ (.Nodes twoBits.lanes) bothSet
        (forkRun settled bothSet) ∧ twoBits.Fits forkGraph ∧
      twoBits.Driven settled (forkRun settled bothSet) ∧
      twoBits.Takes settled (forkRun settled bothSet) ∧
      ¬twoBits.Ends settled (forkRun settled bothSet) := by
  refine ⟨⟨fork_launch refusing Tally.zero, twoBits_fits, ?_, zero_fresh, ?_⟩,
    fork_launch settled bothSet, twoBits_fits, ?_, ?_, ?_⟩
  · exact driven_of_eachWait 10 refusing_undisturbed (by decide +kernel)
  · exact not_ends_of_merged 10 (by decide +kernel)
  · exact driven_of_eachWait 8 settled_undisturbed (by decide +kernel)
  · exact takes_of_eachWait 8 (by decide +kernel)
  · exact not_ends_of_merged 8 (by decide +kernel)

end LlmGraph.Executor
