/- digest: A running driver never waits on nothing: every held node has a live instance, some node
   has one, and a run that is not stopping concludes only when every node is idle. -/

import LlmGraph.Executor.Accounts

set_option autoImplicit false
set_option relaxedAutoImplicit false

namespace LlmGraph.Executor

open Contract

variable {F : Type} [Fields F]

namespace Run

/-- Every held node has a live instance. -/
def HeldLive (run : Run F) : Prop :=
  ∀ name slot, run.slot name = some slot → slot.held = true → slot.isLive = true

/-- The run is stopping, or no held node waits for its instance. -/
def Served (run : Run F) : Prop := run.isStopping = true ∨ run.HeldLive

theorem Served.heldLive {run : Run F} (hserved : run.Served) (hrunning : run.isStopping = false) :
    run.HeldLive := by
  rcases hserved with hstopping | heldLive
  · rw [hrunning] at hstopping
    cases hstopping
  · exact heldLive

end Run

/-- A recorded failure has stopped the run. -/
theorem Effect.clean {origin : Origin} {triggered : Bool} {run run' : Run F}
    (hchange : Effect origin triggered run run')
    (hclean : run.failures ≠ [] → run.isStopping = true) :
    run'.failures ≠ [] → run'.isStopping = true := by
  cases hchange with
  | idle => exact hclean
  | stop => exact fun _ => rfl
  | create => exact hclean
  | notMinted => exact fun _ => fail_isStopping _ _ _ _
  | created => exact hclean
  | createdShut => exact hclean
  | notCreated => exact fun _ => fail_isStopping _ _ _ _
  | give => exact hclean
  | fail => exact fun _ => fail_isStopping _ _ _ _
  | cancel =>
      unfold Run.stopByHost
      split
      · rename_i hstopping
        exact fun _ => hstopping
      · exact fun _ => rfl
  | apply => simpa [Run.step, Run.ending, Run.note, Run.tell, Run.change, Run.isStopping] using hclean
  | offer => exact hclean
  | sinkFailed => exact fun _ => fail_isStopping _ _ _ _
  | abandon hstopping => exact fun _ => hstopping
  | conclude => exact hclean

namespace Sys

variable (out : Outside F)

/-- Reading the token changes at most the phase. -/
theorem readToken_cases (s : Sys F) :
    (s.readToken out).run = s.run ∨ (s.readToken out).run.isStopping = true := by
  unfold readToken
  dsimp only
  split
  · exact Or.inr rfl
  · exact Or.inl rfl

/-- Reading a triggered token leaves the run stopping. -/
theorem readToken_stops {s : Sys F} (htriggered : s.world.triggered = true) :
    (s.readToken out).run.isStopping = true := by
  rw [(readToken_triggered out htriggered).1]
  unfold Run.stopByHost
  split
  · assumption
  · rfl

theorem readToken_served {s : Sys F} (hserved : s.run.Served) : (s.readToken out).run.Served := by
  rcases readToken_cases out s with hsame | hstopping
  · rw [hsame]
    exact hserved
  · exact Or.inl hstopping

theorem failNode_served (s : Sys F) (node : String) (failure : RunFailure) :
    (s.failNode out node failure).run.Served :=
  Or.inl (fail_isStopping _ _ _ _)

/-- A held node without an instance is a node the hand-over has still to come to. -/
private theorem handTo_waiting (s : Sys F) (name : String) :
    (s.handTo out name).run.isStopping = true ∨
      ∀ other slot, (s.handTo out name).run.slot other = some slot → slot.held = true →
        slot.isLive = false → other ≠ name ∧ s.run.slot other = some slot := by
  unfold handTo
  rcases hatName : s.run.slot name with _ | slot
  · refine Or.inr fun other found hatOther _ _ => ⟨?_, hatOther⟩
    rintro rfl
    change s.run.slot other = some found at hatOther
    rw [hatName] at hatOther
    cases hatOther
  dsimp only
  split
  · rename_i hfree
    refine Or.inr fun other found hatOther hheld _ => ⟨?_, hatOther⟩
    rintro rfl
    rw [hatName] at hatOther
    cases hatOther
    rw [hheld] at hfree
    cases hfree
  · rcases hlive : slot.live with _ | ⟨id, first⟩ | ⟨id, core⟩
    · simp only [NodeSlot.presence, hlive, beginCreation, hatName]
      split
      · exact Or.inl (fail_isStopping _ _ _ _)
      · refine Or.inr fun other found hatOther hheld hdead => ?_
        change (s.run.change name (fun slot =>
          slot.release.beginCreating s.run.minted s.run.state)).slot other = some found at hatOther
        rw [Run.slot_change] at hatOther
        split at hatOther
        · rename_i hsame
          obtain ⟨before, -, rfl⟩ := Option.map_eq_some_iff.mp hatOther
          cases hdead
        · rename_i hdiffers
          exact ⟨fun hequal => hdiffers hequal.symm, hatOther⟩
    · simp only [NodeSlot.presence, hlive]
      refine Or.inr fun other found hatOther _ hdead => ⟨?_, hatOther⟩
      rintro rfl
      rw [hatName] at hatOther
      cases hatOther
      simp [NodeSlot.isLive, NodeSlot.presence, hlive] at hdead
    · simp only [NodeSlot.presence, hlive, giveHeld]
      have hstays : ∀ other found, s.run.slot other = some found → found.isLive = false →
          other ≠ name ∧ s.run.slot other = some found := by
        intro other found hatOther hdead
        refine ⟨?_, hatOther⟩
        rintro rfl
        rw [hatName] at hatOther
        cases hatOther
        simp [NodeSlot.isLive, NodeSlot.presence, hlive] at hdead
      rcases giveInput_cases out s name s.run.state with
        hrefused | ⟨_, id, core, world, -, -, -, hgiven⟩
      · simp only [hrefused, Bool.false_eq_true, ↓reduceIte]
        exact Or.inr fun other found hatOther _ hdead => hstays other found hatOther hdead
      · simp only [hgiven, ↓reduceIte]
        refine Or.inr fun other found hatOther hheld hdead => ?_
        change (s.run.change name (·.release)).slot other = some found at hatOther
        rw [Run.slot_change] at hatOther
        split at hatOther
        · obtain ⟨before, -, rfl⟩ := Option.map_eq_some_iff.mp hatOther
          cases hheld
        · exact hstays other found hatOther hdead

/-- The hand-over serves every held node, or the run is stopping by its end. -/
theorem handOver_served (s : Sys F) (targets : List String) :
    (s.handOver out targets).run.Served := by
  have hwalk : ∀ (order : List String) (s : Sys F),
      (s.run.isStopping = true ∨ ∀ name slot, s.run.slot name = some slot → slot.held = true →
        slot.isLive = false → name ∈ order) →
      (order.foldl (fun s name => if s.run.isStopping then s else s.handTo out name) s).run.Served := by
    intro order
    induction order with
    | nil =>
        rintro s (hstopping | hnone)
        · exact Or.inl hstopping
        · refine Or.inr fun name slot hatName hheld => ?_
          by_contra hdead
          exact absurd (hnone name slot hatName hheld (by simpa using hdead)) List.not_mem_nil
    | cons first rest hstep =>
        intro s hwaiting
        rw [List.foldl_cons]
        apply hstep
        split
        · rename_i hstopping
          exact Or.inl hstopping
        · rename_i hrunning
          rcases handTo_waiting out s first with hstopping | hlater
          · exact Or.inl hstopping
          · refine Or.inr fun name slot hatName hheld hdead => ?_
            obtain ⟨hdiffers, hbefore⟩ := hlater name slot hatName hheld hdead
            have hlisted := (hwaiting.resolve_left hrunning) name slot hbefore hheld hdead
            exact (List.mem_cons.mp hlisted).resolve_left hdiffers
  apply hwalk
  refine Or.inr fun name slot hatName hheld _ => ?_
  unfold handOrder
  by_cases htarget : name ∈ targets
  · exact List.mem_append_left _ htarget
  · apply List.mem_append_right
    rw [List.mem_filter]
    exact ⟨(Run.mem_heldNames _ _).mpr ⟨slot, hatName, hheld⟩, by simpa using htarget⟩

theorem settleCreated_served {s : Sys F} {node : String} {made : Instance} {slot : NodeSlot F}
    {firstInput : Shared F} (hatNode : s.run.slot node = some slot) (hserved : s.run.Served) :
    (s.settleCreated out node made firstInput).run.Served := by
  have hborn : ((s.run.instanceCreated node made.id made.core slot).Served) ∧
      ∀ found, (s.run.instanceCreated node made.id made.core slot).slot node = some found →
        found.isLive = true := by
    have hatOther (other : String) : (s.run.instanceCreated node made.id made.core slot).slot other =
        if node = other then (s.run.slot other).map (·.becomeRunning made.id made.core)
        else s.run.slot other := Run.slot_change _ _ _ _
    refine ⟨hserved.imp id fun heldLive other found hatFound hheld => ?_, fun found hatFound => ?_⟩
    · rw [hatOther] at hatFound
      split at hatFound
      · obtain ⟨before, -, rfl⟩ := Option.map_eq_some_iff.mp hatFound
        rfl
      · exact heldLive other found hatFound hheld
    · rw [hatOther, if_pos rfl, hatNode] at hatFound
      cases hatFound
      rfl
  unfold settleCreated
  rw [hatNode]
  dsimp only
  generalize hbegun : (⟨s.run.instanceCreated node made.id made.core slot,
    s.world.spawnForwarder node made.id made.core⟩ : Sys F) = s₁
  have hsame : s₁.run = s.run.instanceCreated node made.id made.core slot := by rw [← hbegun]
  rw [← hsame] at hborn
  have hchangeServed (s₂ : Sys F) (change : NodeSlot F → NodeSlot F)
      (halive : ∀ slot, slot.isLive = true → (change slot).isLive = true)
      (hslots : ∀ other, s₂.run.slot other = s₁.run.slot other)
      (hphase : s₂.run.isStopping = s₁.run.isStopping) :
      (s₂.withRun (·.change node change)).run.Served := by
    refine hborn.1.imp (fun hstopping => hphase.trans hstopping)
      fun heldLive other found hatFound hheld => ?_
    change (s₂.run.change node change).slot other = some found at hatFound
    rw [Run.slot_change, hslots] at hatFound
    split at hatFound
    · rename_i hequal
      obtain ⟨before, hatBefore, rfl⟩ := Option.map_eq_some_iff.mp hatFound
      exact halive before (hborn.2 before (hequal ▸ hatBefore))
    · exact heldLive other found hatFound hheld
  rcases giveInput_cases out s₁ node firstInput with
    hrefused | ⟨other, id, core, world, -, -, -, hgiven⟩
  · simp only [hrefused, Bool.not_false, ↓reduceIte]
    exact hchangeServed (s₁.tick out) (·.hold) (fun _ halive => halive) (fun _ => rfl) rfl
  · simp only [hgiven, Bool.not_true, Bool.false_eq_true, ↓reduceIte]
    split
    · unfold giveHeld
      rcases giveInput_cases out ⟨s₁.run.accept node id firstInput, world⟩ node s₁.run.state with
        hrefused | ⟨_, _, _, _, -, -, -, haccepted⟩
      · have hshut := hrefused
        change giveInput out ⟨s₁.run.accept node id firstInput, world⟩ node
          (s₁.run.accept node id firstInput).state = _ at hshut
        rw [hshut]
        exact hborn.1
      · change giveInput out ⟨s₁.run.accept node id firstInput, world⟩ node
          (s₁.run.accept node id firstInput).state = _ at haccepted
        rw [haccepted]
        exact hchangeServed _ (·.release) (fun _ halive => halive) (fun _ => rfl) rfl
    · exact hborn.1

theorem onCreated_served {s : Sys F} {node : String} {id : InstanceId}
    {result : Except CreationFailure Instance} (hserved : s.run.Served) :
    (s.onCreated out node id result).run.Served := by
  unfold onCreated
  split
  · exact hserved
  · rename_i firstInput hfound
    obtain ⟨slot, hatNode, -⟩ := Option.bind_eq_some_iff.mp hfound
    dsimp only
    split
    · split
      · exact settleCreated_served out hatNode hserved
      · exact failNode_served out _ _ _
    · exact failNode_served out _ _ _

theorem resultStep_served (s : Sys F) (node : String) (id : InstanceId)
    (update : Fields.Update F) : (s.resultStep out node id update).run.Served := by
  unfold resultStep
  dsimp only
  split
  · exact failNode_served out _ _ _
  · exact failNode_served out _ _ _
  · split
    · exact failNode_served out _ _ _
    · exact failNode_served out _ _ _
    · exact failNode_served out _ _ _
    · generalize ((s.tick out).tick out).withRun _ = s₁
      split
      · rename_i hidle
        refine Or.inr fun name slot hatName hheld => ?_
        have hquiet := (Run.allIdle_iff s₁.run).mp hidle name slot hatName
        rw [NodeSlot.isIdle_iff, hheld] at hquiet
        cases hquiet.2.1
      · generalize (if !s₁.run.isStopping then (s₁.takeStepCheckpoint out).readToken out
          else s₁) = s₂
        split
        · exact handOver_served out _ _
        · rename_i hstopping
          exact Or.inl (by simpa using hstopping)

theorem onEnded_served {s : Sys F} {node : String} {id : InstanceId}
    {result : Except EventEndError (Event F)} (hserved : s.run.Served) :
    ((s.onEnded out node id result).readToken out).run.Served := by
  unfold onEnded
  split
  · exact readToken_served out hserved
  · split
    · exact readToken_served out hserved
    · rcases result with error | event
      · rcases error with _ | _
        · exact readToken_served out (failNode_served out _ _ _)
        · exact readToken_served out (failNode_served out _ _ _)
      · rcases event with update | cause | reason | _
        · exact readToken_served out (resultStep_served out _ _ _ _)
        · exact readToken_served out (failNode_served out _ _ _)
        · exact readToken_served out (failNode_served out _ _ _)
        · dsimp only
          split
          · rename_i htriggered
            -- The token is triggered by now, so the reading that follows stops the run.
            exact Or.inl (readToken_stops out htriggered)
          · exact readToken_served out (failNode_served out _ _ _)

/-- What holds at a wait, and at the end of a run. -/
def Stands : Control F → Prop
  | .waiting s => s.run.Served ∧ s.run.allIdle = false
  | .done s _ => s.run.isStopping = true ∨ s.run.allIdle = true

/-- Concluding only adds to the log. -/
theorem conclude_run (s : Sys F) (starting : Option Checkpoint) :
    ∃ log, (s.conclude out starting).1.run = { s.run with log } := by
  unfold conclude
  split
  · exact ⟨_, rfl⟩
  · rcases starting with _ | checkpoint
    · dsimp only [outcomeCheckpoint]
      split <;> split <;> exact ⟨_, rfl⟩
    · dsimp only
      split <;> exact ⟨_, rfl⟩

theorem conclude_over {s : Sys F} (starting : Option Checkpoint)
    (hover : s.run.isStopping = true ∨ s.run.allIdle = true) : Stands (s.finish out starting) := by
  obtain ⟨log, hsame⟩ := conclude_run out s starting
  change (s.conclude out starting).1.run.isStopping = true ∨
    (s.conclude out starting).1.run.allIdle = true
  rw [hsame]
  exact hover

theorem loopHead_stands {s : Sys F} (hserved : (s.readToken out).run.Served) :
    Stands (s.loopHead out) := by
  unfold loopHead
  dsimp only
  split
  · rename_i hidle
    exact conclude_over out none (.inr hidle)
  · rename_i hbusy
    split
    · rename_i hboth
      rw [Bool.and_eq_true] at hboth
      exact conclude_over out none (.inl hboth.1)
    · exact ⟨hserved, by simpa using hbusy⟩

theorem step_stands {s : Sys F} {message : Message F} (hserved : s.run.Served) :
    Stands ((s.step out message).loopHead out) := by
  apply loopHead_stands
  have hread := readToken_served out hserved
  unfold step
  dsimp only
  split
  · exact readToken_served out (onCreated_served out hread)
  · exact onEnded_served out hread

theorem receive_run {s s₁ : Sys F} {message : Message F}
    (hreceived : s.receive = some (message, s₁)) : s₁.run = s.run := by
  unfold receive at hreceived
  split at hreceived <;> cases hreceived
  rfl

theorem poll_stands {s : Sys F} (hstands : Stands (.waiting s)) : Stands (s.poll out) := by
  unfold poll
  dsimp only
  split
  · split
    · exact loopHead_stands out (readToken_served out (readToken_served out hstands.1))
    · split
      · rename_i message s₁ hreceived
        apply step_stands
        rw [receive_run hreceived]
        exact hstands.1
      · exact hstands
  · rename_i deadline trigger hphase
    split
    · rename_i message s₁ hreceived
      apply step_stands
      rw [receive_run hreceived]
      exact hstands.1
    · split
      · apply conclude_over
        left
        change s.run.isStopping = true
        have hstopping : s.run.phase = .Stopping deadline trigger := hphase
        unfold Run.isStopping
        rw [hstopping]
      · exact hstands

end Sys

theorem Launch.stands {out : Outside F} {graph : Graph F} {config : RunConfig}
    {origin : Origin} {state : State F} {control : Control F}
    (hlaunch : Launch out graph config origin state control) (polls : Nat) :
    Sys.Stands (control.after out polls) := by
  induction polls with
  | zero =>
      rw [hlaunch.begins.1]
      unfold Control.after Sys.begin
      dsimp only
      split
      · rename_i hstopping
        exact Sys.conclude_over out _ (.inl hstopping)
      · exact Sys.loopHead_stands out (Sys.readToken_served out (Sys.handOver_served out _ _))
  | succ polls hstep =>
      change Sys.Stands ((control.after out polls).next out)
      rcases hstanding : control.after out polls with s | ⟨s, outcome⟩
      · rw [hstanding] at hstep
        exact Sys.poll_stands out hstep
      · rw [hstanding] at hstep
        exact hstep

/-- In the running phase the driver waits with no failure recorded, with a live instance behind
every held node, and with at least one live instance; and it concludes outside the stopping phase
only when every node is idle. -/
theorem waits_on_live {out : Outside F} {graph : Graph F} {config : RunConfig} {origin : Origin}
    {state : State F} {control : Control F}
    (hlaunch : Launch out graph config origin state control) (polls : Nat) :
    (∀ s, control.after out polls = .waiting s → s.run.isStopping = false →
      s.run.failures = [] ∧
        (∀ name slot, s.run.slot name = some slot → slot.held = true → slot.isLive = true) ∧
        ∃ name slot, s.run.slot name = some slot ∧ slot.isLive = true) ∧
      ∀ s outcome, control.after out polls = .done s outcome → s.run.isStopping = false →
        ∀ name slot, s.run.slot name = some slot → slot.isIdle = true := by
  have hstands := hlaunch.stands polls
  have haccounts := hlaunch.accounts polls
  obtain ⟨first, hopened, hmoves⟩ := hlaunch.moves polls
  have hclean : (control.after out polls).sys.run.failures ≠ [] →
      (control.after out polls).sys.run.isStopping = true := by
    refine hmoves.keeps (fun _ _ _ hchange hclean => hchange.clean hclean) ?_
    rw [hopened]
    simp [Run.opened, Run.note, Run.new]
  constructor
  · intro s hwaiting hrunning
    rw [hwaiting] at hstands haccounts hclean
    have heldLive := hstands.1.heldLive hrunning
    refine ⟨?_, heldLive, ?_⟩
    · by_contra hfailed
      have hstopping := hclean hfailed
      change s.run.isStopping = true at hstopping
      rw [hrunning] at hstopping
      cases hstopping
    · by_contra hnone
      have hidle : s.run.allIdle = true := by
        rw [Run.allIdle_iff]
        intro name slot hatName
        have hdead : slot.isLive = false := by
          by_contra halive
          exact hnone ⟨name, slot, hatName, by simpa using halive⟩
        have hfree : slot.held = false := by
          by_contra hheld
          rw [heldLive name slot hatName (by simpa using hheld)] at hdead
          cases hdead
        have htaken : slot.untaken = false := by
          by_contra huntaken
          have hstopping := haccounts.taken name slot hatName (by simpa using huntaken)
          change s.run.isStopping = true at hstopping
          rw [hrunning] at hstopping
          cases hstopping
        simp [NodeSlot.isIdle, hdead, hfree, htaken]
      rw [hstands.2] at hidle
      cases hidle
  · intro s outcome hover hrunning
    rw [hover] at hstands
    rcases hstands with hstopping | hidle
    · rw [hrunning] at hstopping
      cases hstopping
    · exact (Run.allIdle_iff s.run).mp hidle

/-- The small graph, started in still surroundings: after its first poll it waits on the creation
of both nodes. -/
theorem waits_on_live_pair :
    (∀ s, (pairRun (fun _ => .still) ⟨false, 0, false⟩).after (fun _ => .still) 1 = .waiting s →
      s.run.isStopping = false →
      s.run.failures = [] ∧
        (∀ name slot, s.run.slot name = some slot → slot.held = true → slot.isLive = true) ∧
        ∃ name slot, s.run.slot name = some slot ∧ slot.isLive = true) ∧
      ∀ s outcome,
        (pairRun (fun _ => .still) ⟨false, 0, false⟩).after (fun _ => .still) 1 = .done s outcome →
        s.run.isStopping = false →
        ∀ name slot, s.run.slot name = some slot → slot.isIdle = true :=
  waits_on_live (pair_launch (fun _ => .still) ⟨false, 0, false⟩) 1

end LlmGraph.Executor
