/- digest: Every function of the driver is a sequence of moves, and so is a whole run. -/

import LlmGraph.Executor.Moves

set_option autoImplicit false
set_option relaxedAutoImplicit false

namespace LlmGraph.Executor

open Contract
open Relation (ReflTransGen)

variable {F : Type} [Fields F]

namespace Sys

variable {origin : Origin} (out : Outside F)

/-- An input is refused and nothing changes, or the running instance of the node accepts it. -/
theorem giveInput_cases (s : Sys F) (name : String) (state : Shared F) :
    s.giveInput out name state = (false, s.tick out) ∨
      ∃ slot id core world, s.run.slot name = some slot ∧ slot.live = .Running id core ∧
        world.triggered = (s.tick out).world.triggered ∧
        s.giveInput out name state = (true, ⟨s.run.accept name id state, world⟩) := by
  unfold giveInput
  dsimp only
  split
  · rename_i kind subkind id core held untaken hfound
    split
    · rename_i given _ _
      refine Or.inr ⟨_, id, core, _, hfound, rfl, ?_, rfl⟩
      rfl
    · exact Or.inl rfl
  · exact Or.inl rfl

theorem giveHeld_moves {s : Sys F} {name : String} {slot : NodeSlot F}
    (hatName : s.run.slot name = some slot) (hheld : slot.held = true)
    (hrunning : s.run.isStopping = false) : Moves origin s (s.giveHeld out name) := by
  rcases giveInput_cases out s name s.run.state with
    hrefused | ⟨other, id, core, world, hfound, halive, hsame, hgiven⟩
  · have hunchanged : s.giveHeld out name = s.tick out := by simp [giveHeld, hrefused]
    rw [hunchanged]
    exact .single (move_tick out s)
  · rw [hatName, Option.some.injEq] at hfound
    subst hfound
    have hresult : s.giveHeld out name =
        ⟨(s.run.accept name id s.run.state).change name (·.release), world⟩ := by
      simp [giveHeld, hgiven, withRun]
    rw [hresult]
    exact .single (move_read out hsame (.give name slot id core hatName halive hheld hrunning))

theorem beginCreation_moves {s : Sys F} {name : String} {slot : NodeSlot F}
    (hatName : s.run.slot name = some slot) (habsent : slot.live = .Absent)
    (hheld : slot.held = true) (hrunning : s.run.isStopping = false) :
    Moves origin s (s.beginCreation out name) := by
  unfold beginCreation
  rw [hatName]
  dsimp only
  split
  · rename_i reason _
    exact .single (move_fail out id fun triggered deadline =>
      .notMinted name slot reason deadline hatName habsent hheld hrunning)
  · exact .single ⟨s.world.triggered, id, id, .create name slot hatName habsent hheld hrunning⟩

theorem handTo_moves {s : Sys F} (name : String) (hrunning : s.run.isStopping = false) :
    Moves origin s (s.handTo out name) := by
  unfold handTo
  split
  · exact .refl
  · rename_i slot hatName
    split
    · exact .refl
    · rename_i hheld
      replace hheld : slot.held = true := by simpa using hheld
      rcases slot with ⟨kind, subkind, _ | _ | _, _, untaken⟩
      · exact beginCreation_moves out hatName rfl hheld hrunning
      · exact .refl
      · exact giveHeld_moves out hatName hheld hrunning

theorem handOver_moves (s : Sys F) (targets : List String) :
    Moves origin s (s.handOver out targets) := by
  unfold handOver
  generalize handOrder s.run targets = order
  induction order generalizing s with
  | nil => exact .refl
  | cons name rest hstep =>
      rw [List.foldl_cons]
      split
      · exact hstep s
      · rename_i hrunning
        exact (handTo_moves out name (by simpa using hrunning)).trans (hstep _)

theorem takeStepCheckpoint_moves {s : Sys F} (hrunning : s.run.isStopping = false)
    (hbusy : s.run.allIdle = false) :
    Moves origin s (s.takeStepCheckpoint out) := by
  refine ReflTransGen.head (move_tick out s) ?_
  unfold takeStepCheckpoint
  dsimp only
  split
  · rename_i reason _
    exact .single (move_fail out id fun _ deadline => .sinkFailed _ deadline hrunning
      (.notBuilt reason))
  · rename_i checkpoint hbuilt
    split
    · exact .refl
    · rename_i hsunk
      have hoffered : Move origin (s.tick out) ((s.tick out).withRun (·.note (.offered checkpoint))) :=
        ⟨_, id, id, .offer _ checkpoint hrunning hbusy (by simpa using hsunk) hbuilt⟩
      refine ReflTransGen.head hoffered (ReflTransGen.head (move_tick out _) ?_)
      split
      · exact .refl
      all_goals exact .single (move_fail out id fun _ deadline =>
        .sinkFailed _ deadline hrunning (.refused _ _))

theorem settleCreated_moves {s : Sys F} {node : String} {made : Instance} {slot : NodeSlot F}
    {firstInput : Shared F} (hatNode : s.run.slot node = some slot)
    (hcreating : slot.live = .Creating made.id firstInput) :
    Moves origin s (s.settleCreated out node made firstInput) := by
  unfold settleCreated
  rw [hatNode]
  dsimp only
  generalize hborn : (⟨s.run.instanceCreated node made.id made.core slot,
    s.world.spawnForwarder node made.id made.core⟩ : Sys F) = s₁
  have hrun₁ : s₁.run = s.run.instanceCreated node made.id made.core slot := by rw [← hborn]
  have hfirst : s.world.triggered = true → (s₁.tick out).world.triggered = true := by
    intro htriggered
    apply World.tick_triggered
    rw [← hborn]
    exact htriggered
  rcases giveInput_cases out s₁ node firstInput with
    hrefused | ⟨other, id, core, world, hfound, halive, hsame, hgiven⟩
  · simp only [hrefused, Bool.not_false, ↓reduceIte]
    refine .single ⟨_, hfirst, fun hread => hread, ?_⟩
    change Effect origin _ s.run (s₁.run.change node (·.hold))
    rw [hrun₁]
    exact .createdShut node slot made.id firstInput made.core hatNode hcreating
  · simp only [hgiven, Bool.not_true, Bool.false_eq_true, ↓reduceIte]
    have hbecame : other.live = .Running made.id made.core := by
      rw [hrun₁] at hfound
      simp only [Run.instanceCreated, Run.slot_tell, Run.slot_change_self, hatNode,
        Option.map_some, Option.some.injEq] at hfound
      rw [← hfound]
      rfl
    have hsameId : id = made.id := by
      rw [hbecame] at halive
      cases halive
      rfl
    have haccepted : Move origin s ⟨s₁.run.accept node id firstInput, world⟩ := by
      refine ⟨_, hfirst, fun hread => hsame ▸ hread, ?_⟩
      rw [hrun₁, hsameId]
      exact .created node slot made.id firstInput made.core hatNode hcreating
    split
    · rename_i hboth
      rw [Bool.and_eq_true, Bool.not_eq_true'] at hboth
      obtain ⟨holding, hatHeld, hheld⟩ := (Option.any_eq_true _ _).mp hboth.1
      exact ReflTransGen.head haccepted (giveHeld_moves out hatHeld hheld hboth.2)
    · exact .single haccepted

theorem onCreated_moves (s : Sys F) (node : String) (id : InstanceId)
    (result : Except CreationFailure Instance) :
    Moves origin s (s.onCreated out node id result) := by
  have hdropped : s.world.triggered = true → (dropResult s.world result).triggered = true := by
    intro htriggered
    rcases result with _ | _ <;> exact htriggered
  unfold onCreated
  split
  · exact .single (move_world _ hdropped)
  · rename_i firstInput hfound
    obtain ⟨slot, hatNode, hcreation⟩ := Option.bind_eq_some_iff.mp hfound
    rw [NodeSlot.firstInputOfCreation_eq_some] at hcreation
    have hfailing (failure : CreationFailure) : Move origin s
        ((({ s with world := dropResult s.world result } : Sys F).withRun
          (·.change node (·.endInstance.hold))).failNode out node
            (.NodeCouldNotStart node failure.reason failure.cause)) :=
      move_fail out hdropped fun _ deadline =>
        .notCreated node slot id firstInput failure.reason failure.cause deadline hatNode hcreation
    dsimp only
    split
    · rename_i made _
      split
      · rename_i hsame
        exact settleCreated_moves out hatNode (hsame ▸ hcreation)
      · exact .single (hfailing ⟨_, none⟩)
    · exact .single (hfailing _)

end Sys

@[simp] theorem Run.ending_state (run : Run F) (name : String) (id : InstanceId)
    (result : Except EventEndError (Event F)) : (run.ending name id result).state = run.state := by
  rcases result with _ | _ <;> rfl

@[simp] theorem Run.ending_graph (run : Run F) (name : String) (id : InstanceId)
    (result : Except EventEndError (Event F)) : (run.ending name id result).graph = run.graph := by
  rcases result with _ | _ <;> rfl

namespace Sys

variable {origin : Origin} (out : Outside F)

/-- A result step, seen from the moment before its instance ended: either the node failed, or
the step was applied and its hand-over follows. -/
theorem resultStep_moves {s s₁ : Sys F} {node : String} {slot : NodeSlot F} {id : InstanceId}
    {core : Address} {update : Fields.Update F} (hatNode : s.run.slot node = some slot)
    (halive : slot.live = .Running id core)
    (hended : s₁.run = s.run.ending node id (.ok (.Result update)))
    (hkept : s.world.triggered = true → s₁.world.triggered = true) :
    Moves origin s (s₁.resultStep out node id update) := by
  have hkeptOnce : s.world.triggered = true → (s₁.tick out).world.triggered = true :=
    fun htriggered => World.tick_triggered out _ (hkept htriggered)
  have hkeptTwice : s.world.triggered = true → ((s₁.tick out).tick out).world.triggered = true :=
    fun htriggered => World.tick_triggered out _ (hkeptOnce htriggered)
  have hdeclined {s₂ : Sys F} {failure : RunFailure} (hsame : s₂.run = s₁.run)
      (hlater : s.world.triggered = true → s₂.world.triggered = true)
      (hdeclined : Declined s.run node update failure) :
      Move origin s (s₂.failNode out node failure) := by
    refine move_fail out hlater fun triggered deadline => ?_
    change Effect origin triggered s.run
      ((s₂.run.change node (·.leaveUntaken)).fail triggered deadline failure)
    rw [hsame, hended]
    exact .fail node slot id core _ failure deadline hatNode halive
      (.declined update failure hdeclined)
  have hstate : s₁.run.state = s.run.state := by rw [hended, Run.ending_state]
  have hgraph : s₁.run.graph = s.run.graph := by rw [hended, Run.ending_graph]
  unfold resultStep
  dsimp only
  split
  · rename_i error hrefused
    rw [run_tick, hstate] at hrefused
    exact .single (hdeclined rfl hkeptOnce (.update (s₁.tick out).world.clock _
      (by simp [hrefused])))
  · rename_i text hrefused
    rw [run_tick, hstate] at hrefused
    exact .single (hdeclined rfl hkeptOnce (.update (s₁.tick out).world.clock _
      (by simp [hrefused])))
  · rename_i newState happlied
    rw [run_tick, hstate] at happlied
    split
    · rename_i cause hrefused
      rw [run_tick, run_tick, hgraph] at hrefused
      exact .single (hdeclined rfl hkeptTwice
        (.edge _ ((s₁.tick out).tick out).world.clock newState _ _ happlied (by simp [hrefused])))
    · rename_i error _ hrefused
      rw [run_tick, run_tick, hgraph] at hrefused
      exact .single (hdeclined rfl hkeptTwice
        (.edge _ ((s₁.tick out).tick out).world.clock newState _ _ happlied (by simp [hrefused])))
    · rename_i text hrefused
      rw [run_tick, run_tick, hgraph] at hrefused
      exact .single (hdeclined rfl hkeptTwice
        (.edge _ ((s₁.tick out).tick out).world.clock newState _ _ happlied (by simp [hrefused])))
    · rename_i targets hevaluated
      rw [run_tick, run_tick, hgraph] at hevaluated
      generalize hstepped : ((s₁.tick out).tick out).withRun
        (·.step node id update newState targets) = s₂
      have hfirst : Move origin s s₂ := by
        refine ⟨_, hkeptTwice, fun hread => hstepped ▸ hread, ?_⟩
        rw [← hstepped]
        change Effect origin _ s.run (s₁.run.step node id update newState targets)
        rw [hended]
        exact .apply node slot id core update newState targets _ _ hatNode halive happlied hevaluated
      refine ReflTransGen.head hfirst ?_
      split
      · exact .refl
      · rename_i hbusy
        have hcheckpointed : Moves origin s₂
            (if !s₂.run.isStopping then (s₂.takeStepCheckpoint out).readToken out else s₂) := by
          split
          · rename_i hrunning
            exact (takeStepCheckpoint_moves out (by simpa using hrunning)
              (by simpa using hbusy)).tail (move_readToken out _)
          · exact .refl
        generalize (if !s₂.run.isStopping then (s₂.takeStepCheckpoint out).readToken out
          else s₂) = s₃ at hcheckpointed ⊢
        refine hcheckpointed.trans ?_
        split
        · exact handOver_moves out _ _
        · exact .refl

/-- Once the token is triggered, reading it stops the run. -/
theorem readToken_triggered {s : Sys F} (htriggered : s.world.triggered = true) :
    (s.readToken out).run =
        s.run.stopByHost (deadlineAfter (s.tick out).world.now s.run.grace) ∧
      (s.readToken out).world.triggered = true := by
  have hread : (s.tick out).world.triggered = true := World.tick_triggered out _ htriggered
  unfold readToken Run.stopByHost
  dsimp only
  rw [hread, Bool.and_true, run_tick]
  rcases hstopping : s.run.isStopping with _ | _
  · exact ⟨rfl, hread⟩
  · exact ⟨rfl, hread⟩

private theorem dropLive_triggered (world : World F) (node : String) (slot : NodeSlot F) :
    (dropLive world node slot).triggered = world.triggered := by
  unfold dropLive
  split <;> rfl

theorem onEnded_moves (s : Sys F) (node : String) (id : InstanceId)
    (result : Except EventEndError (Event F)) :
    Moves origin s ((s.onEnded out node id result).readToken out) := by
  unfold onEnded
  split
  · exact .single (move_readToken out s)
  · rename_i slot hatNode
    split
    · exact .single (move_readToken out s)
    · rename_i hrunning
      obtain ⟨core, halive⟩ := (NodeSlot.runningId_eq_some slot id).mp (not_not.mp hrunning)
      dsimp only
      generalize hended : (⟨(s.run.change node (·.endInstance)).note (.handled node id result),
        dropLive s.world node slot⟩ : Sys F) = s₁
      have hkept : s.world.triggered = true → s₁.world.triggered = true := by
        intro htriggered
        rw [← hended, dropLive_triggered]
        exact htriggered
      have hfailing {failure : RunFailure} {s₂ : Sys F} (hsame : s₂.run = s.run.ending node id result)
          (hlater : s.world.triggered = true → s₂.world.triggered = true)
          (hfailing : Failing s.run node result failure) :
          Moves origin s ((s₂.failNode out node failure).readToken out) := by
        refine ReflTransGen.head (b := s₂.failNode out node failure) ?_
          (.single (move_readToken out _))
        refine move_fail out hlater fun triggered deadline => ?_
        change Effect origin triggered s.run
          ((s₂.run.change node (·.leaveUntaken)).fail triggered deadline failure)
        rw [hsame]
        exact .fail node slot id core result failure deadline hatNode halive hfailing
      rcases result with error | event
      · have hsame : s₁.run = s.run.ending node id (.error error) := by
          rw [← hended]
          rfl
        rcases error with _ | _
        · exact hfailing hsame hkept (.gone _ _)
        · exact hfailing hsame hkept (.gone _ _)
      · have hsame : (s₁.reportEvent node id (.of event)).run = s.run.ending node id (.ok event) := by
          rw [← hended]
          rfl
        rcases event with update | cause | reason | _
        · have hstepped : Moves origin s
              ((s₁.reportEvent node id .Result).resultStep out node id update) :=
            resultStep_moves out hatNode halive hsame hkept
          exact hstepped.tail (move_readToken out _)
        · exact hfailing hsame hkept (.failed cause)
        · exact hfailing hsame hkept (.refused reason)
        · generalize htold : (s₁.reportEvent node id .Cancelled).tick out = s₂
          have hreported : s₂.run = s.run.ending node id (.ok .Cancelled) := by
            rw [← htold, run_tick]
            exact hsame
          have hlater : s.world.triggered = true → s₂.world.triggered = true := by
            intro htriggered
            rw [← htold]
            exact World.tick_triggered out _ (hkept htriggered)
          dsimp only
          split
          · rename_i htriggered
            obtain ⟨hstopped, hread⟩ := readToken_triggered out (s := s₂.leaveUntaken node) htriggered
            refine .single ⟨true, fun _ => rfl, fun _ => hread, ?_⟩
            rw [hstopped]
            change Effect origin true s.run
              ((s₂.run.change node (·.leaveUntaken)).stopByHost _)
            rw [hreported]
            exact .cancel node slot id core _ hatNode halive rfl
          · exact hfailing hreported hlater .cancelled

/-- What the end of a run reports is concluded from the run as it stands. -/
theorem conclude_reports (s : Sys F) (starting : Option Checkpoint)
    (hgiven : ∀ checkpoint, starting = some checkpoint → Carried origin s.run checkpoint none) :
    ∃ t kind outcome, s.conclude out starting = t.report kind outcome ∧ (t = s ∨ t = s.tick out) ∧
      Concluding origin s.run kind outcome := by
  have hstopped (t : Sys F) (hsame : t = s ∨ t = s.tick out) (checkpoint : Checkpoint)
      (notBuilt : Option RunFailure) (hunfinished : ¬(s.run.allIdle ∧ s.run.failures = []))
      (hcarried : Carried origin s.run checkpoint notBuilt) :
      ∃ u kind outcome, (if s.run.stoppedByExecutor then
          t.report .RunFailed (.RunFailed (s.run.failures ++ notBuilt.toList) checkpoint)
        else t.report .RunCancelled
          (.RunCancelled (s.run.failures ++ notBuilt.toList) checkpoint)) = u.report kind outcome ∧
        (u = s ∨ u = s.tick out) ∧ Concluding origin s.run kind outcome := by
    split
    · rename_i hown
      exact ⟨t, _, _, rfl, hsame, .failed checkpoint notBuilt hunfinished hown hcarried⟩
    · rename_i hhost
      exact ⟨t, _, _, rfl, hsame,
        .cancelled checkpoint notBuilt hunfinished (by simpa using hhost) hcarried⟩
  unfold conclude
  split
  · rename_i hboth
    rw [Bool.and_eq_true, List.isEmpty_iff] at hboth
    exact ⟨s, _, _, rfl, .inl rfl, .ended hboth.1 hboth.2⟩
  · rename_i hunfinished
    rw [Bool.and_eq_true, List.isEmpty_iff] at hunfinished
    rcases starting with _ | checkpoint
    · dsimp only [outcomeCheckpoint]
      rcases hbuilt : Checkpoint.build (s.tick out).world.clock (s.tick out).run.state.state
        (s.tick out).run.graph.shape (s.tick out).run.nonIdleNames with reason | checkpoint
      · exact hstopped (s.tick out) (.inr rfl) _ (some _) hunfinished (.unreadable _ reason hbuilt)
      · exact hstopped (s.tick out) (.inr rfl) _ none hunfinished (.built _ checkpoint hbuilt)
    · exact hstopped s (.inl rfl) checkpoint none hunfinished (hgiven checkpoint rfl)

theorem conclude_moves (s : Sys F) (starting : Option Checkpoint)
    (hover : s.run.isStopping = true ∨ s.run.allIdle)
    (hgiven : ∀ checkpoint, starting = some checkpoint → Carried origin s.run checkpoint none) :
    Moves origin s (s.conclude out starting).1 := by
  obtain ⟨t, kind, outcome, hreported, hsame, hconcluding⟩ := conclude_reports out s starting hgiven
  rw [hreported]
  rcases hsame with rfl | rfl
  · exact .single ⟨_, id, id, .conclude kind outcome hover hconcluding⟩
  · exact ReflTransGen.head (move_tick out s)
      (.single ⟨_, id, id, .conclude kind outcome hover hconcluding⟩)

theorem finish_moves (s : Sys F) (hover : s.run.isStopping = true ∨ s.run.allIdle) :
    Moves origin s (s.finish out none).sys :=
  conclude_moves out s none hover fun _ himpossible => by cases himpossible

theorem abandon_moves {s : Sys F} (hstopping : s.run.isStopping = true) :
    Moves origin s (s.abandonAllLive.finish out none).sys := by
  have hkept : ∀ (entries : List (String × NodeSlot F)) (world : World F),
      (entries.foldl (fun world entry => dropLive world entry.1 entry.2) world).triggered =
        world.triggered := by
    intro entries
    induction entries with
    | nil => exact fun _ => rfl
    | cons entry rest hstep =>
        intro world
        rw [List.foldl_cons, hstep, dropLive_triggered]
  have habandoned : Move origin s s.abandonAllLive :=
    ⟨s.world.triggered, id, fun hread => (hkept _ _).trans hread, .abandon hstopping⟩
  exact ReflTransGen.head habandoned (finish_moves out _ (.inl hstopping))

/-- The head of the loop starts with the token, so what precedes it may still wait for that
reading. -/
theorem loopHead_moves {s s₁ : Sys F} (hmoves : Moves origin s (s₁.readToken out)) :
    Moves origin s (s₁.loopHead out).sys := by
  refine hmoves.trans ?_
  unfold loopHead
  dsimp only
  split
  · rename_i hidle
    exact finish_moves out _ (.inr hidle)
  · split
    · rename_i hboth
      rw [Bool.and_eq_true] at hboth
      exact abandon_moves out hboth.1
    · exact .refl

theorem step_moves (s : Sys F) (message : Message F) :
    Moves origin s ((s.step out message).loopHead out).sys := by
  apply loopHead_moves
  refine ReflTransGen.head (move_readToken out s) ?_
  unfold step
  dsimp only
  split
  · exact (onCreated_moves out _ _ _ _).tail (move_readToken out _)
  · exact onEnded_moves out _ _ _ _

theorem receive_moves {s s₁ : Sys F} {message : Message F}
    (hreceived : s.receive = some (message, s₁)) : Move origin s s₁ := by
  unfold receive at hreceived
  split at hreceived
  · contradiction
  · cases hreceived
    exact move_world _ id

theorem poll_moves (s : Sys F) : Moves origin s (s.poll out).sys := by
  refine ReflTransGen.head (move_tick out s) ?_
  unfold poll
  dsimp only
  split
  · split
    · refine ReflTransGen.head (move_readToken out _) (loopHead_moves out ?_)
      exact .single (move_readToken out _)
    · refine ReflTransGen.head (move_tick out _) ?_
      split
      · rename_i message s₁ hreceived
        exact ReflTransGen.head (receive_moves hreceived) (step_moves out s₁ message)
      · exact .refl
  · rename_i deadline trigger hstopping
    split
    · rename_i message s₁ hreceived
      exact ReflTransGen.head (receive_moves hreceived) (step_moves out s₁ message)
    · refine ReflTransGen.head (move_tick out _) ?_
      split
      · apply abandon_moves
        change s.run.isStopping = true
        have hphase : s.run.phase = .Stopping deadline trigger := hstopping
        unfold Run.isStopping
        rw [hphase]
      · exact .refl

end Sys

/-- The record of a run once the nodes it starts from are held. -/
def Run.opened (graph : Graph F) (state : State F) (config : RunConfig) (names : List String) :
    Run F :=
  ((Run.new graph state config.grace config.sink).holdAll names).note (.started names)

/-- The slots of an opened run: idle but for the held names. -/
theorem Run.slot_opened (graph : Graph F) (state : State F) (config : RunConfig)
    (names : List String) (name : String) :
    (∀ slot, (Run.opened graph state config names).slot name = some slot →
      slot.live = .Absent ∧ slot.untaken = false ∧
        (slot.held = true ↔ name ∈ names)) ∧
      (name ∈ graph.shape.names ↔
        ((Run.opened graph state config names).slot name).isSome) := by
  obtain ⟨hknown, hidle⟩ := Run.slot_new graph state config.grace config.sink name
  have hopened : (Run.opened graph state config names).slot name =
      ((Run.new graph state config.grace config.sink).slot name).map
        fun slot => if name ∈ names then slot.hold else slot :=
    Run.slot_holdAll _ _ _
  rw [hopened, Option.isSome_map]
  refine ⟨?_, hknown⟩
  intro slot hfound
  obtain ⟨first, hatName, rfl⟩ := Option.map_eq_some_iff.mp hfound
  obtain ⟨habsent, hnotHeld, htaken⟩ := (NodeSlot.isIdle_iff first).mp (hidle first hatName)
  by_cases hmember : name ∈ names
  · simp [hmember, NodeSlot.hold, habsent, htaken]
  · simp [hmember, habsent, hnotHeld, htaken]

/-- Every run the host can get: a start or a resume that passed its checks. -/
inductive Launch (out : Outside F) (graph : Graph F) (config : RunConfig) :
    Origin → State F → Control F → Prop
  | start (state : State F) (nodes : List String) (control : Control F)
      (haccepted : start out graph state nodes config = .ok control) :
      Launch out graph config (.Nodes nodes) state control
  | resume (checkpoint : Checkpoint) (limit : ℕ+) (state : State F) (control : Control F)
      (hrebuilt : checkResume graph 0 checkpoint limit = .ok state)
      (haccepted : resume out graph checkpoint limit config = .ok control) :
      Launch out graph config (.Checkpoint checkpoint) state control

namespace Launch

variable {out : Outside F} {graph : Graph F} {config : RunConfig} {origin : Origin}
  {state : State F} {control : Control F}

/-- A start with a good node list is a run. -/
theorem ofStart (state : State F) (nodes : List String)
    (hchecked : checkNames graph nodes = .ok ()) :
    Launch out graph config (.Nodes nodes) state (Sys.begin out
      ⟨.new graph state config.grace config.sink, .fresh config.triggered⟩ (.Nodes nodes)) :=
  .start state nodes _ (by rw [Executor.start, hchecked])

/-- A launched run begins on a fresh world with the names of its origin, which are nodes of the
graph. -/
theorem begins (hlaunch : Launch out graph config origin state control) :
    control = Sys.begin out
        ⟨.new graph state config.grace config.sink, .fresh config.triggered⟩ origin ∧
      checkNames graph origin.heldNames = .ok () := by
  rcases hlaunch with ⟨_, nodes, _, haccepted⟩ | ⟨checkpoint, limit, _, _, hrebuilt, haccepted⟩
  · unfold Executor.start at haccepted
    split at haccepted
    · contradiction
    · rename_i hchecked
      cases haccepted
      exact ⟨rfl, hchecked⟩
  · unfold Executor.resume at haccepted
    rw [hrebuilt] at haccepted
    cases haccepted
    refine ⟨rfl, ?_⟩
    unfold checkResume at hrebuilt
    split at hrebuilt
    · contradiction
    · assumption

theorem names_known (hlaunch : Launch out graph config origin state control) :
    ∀ name ∈ origin.heldNames, name ∈ graph.shape.names :=
  ((checkNames_ok graph _).mp hlaunch.begins.2).2.2

/-- The checkpoint of a resume that is stopped before its first hand-over is carried as it is. -/
theorem given (hlaunch : Launch out graph config origin state control) {s : Sys F}
    (hrun : s.run = Run.opened graph state config origin.heldNames) (checkpoint : Checkpoint)
    (hgiven : origin.intoCheckpoint = some checkpoint) :
    Carried origin (s.readToken out).run checkpoint none := by
  have hkept : ∀ name, (s.readToken out).run.slot name = s.run.slot name := by
    intro name
    unfold Sys.readToken
    dsimp only
    split <;> rfl
  have hunmoved : (s.readToken out).run.state.step = 0 := by
    have hfirst : s.run.state.step = 0 := by
      rw [hrun]
      exact congrArg Shared.step (Run.holdAll_state _ _)
    unfold Sys.readToken
    dsimp only
    split <;> exact hfirst
  refine .given checkpoint hgiven hunmoved fun name => ?_
  rw [Run.mem_nonIdleNames, hkept, hrun]
  obtain ⟨heach, hsomeIff⟩ := Run.slot_opened graph state config origin.heldNames name
  have hnames : checkpoint.nodes = origin.heldNames := by
    rcases origin with _ | _ <;> cases hgiven
    rfl
  rw [hnames]
  constructor
  · intro hmember
    obtain ⟨slot, hfound⟩ := Option.isSome_iff_exists.mp
      (hsomeIff.mp (hlaunch.names_known name hmember))
    refine ⟨slot, hfound, ?_⟩
    have hheld := (heach slot hfound).2.2.mpr hmember
    simp [NodeSlot.isIdle, hheld]
  · rintro ⟨slot, hfound, hbusy⟩
    obtain ⟨habsent, htaken, hheld⟩ := heach slot hfound
    by_contra hmissing
    have hnotHeld : slot.held = false := by
      rcases hsame : slot.held with _ | _
      · rfl
      · exact absurd (hheld.mp hsame) hmissing
    rw [(NodeSlot.isIdle_iff slot).mpr ⟨habsent, hnotHeld, htaken⟩] at hbusy
    cases hbusy

/-- The first wait of a launched run, and every later one, is reached by moves from its opened
record. -/
theorem moves (hlaunch : Launch out graph config origin state control) (polls : Nat) :
    ∃ s : Sys F, s.run = Run.opened graph state config origin.heldNames ∧
      Moves origin s (control.after out polls).sys := by
  refine ⟨⟨Run.opened graph state config origin.heldNames, .fresh config.triggered⟩, rfl, ?_⟩
  induction polls with
  | succ polls hstep =>
      refine hstep.trans ?_
      change Moves origin (control.after out polls).sys ((control.after out polls).next out).sys
      rcases control.after out polls with s | ⟨s, outcome⟩
      · exact Sys.poll_moves out s
      · exact .refl
  | zero =>
      rw [hlaunch.begins.1]
      refine ReflTransGen.head (Sys.move_readToken out _) ?_
      unfold Control.after Sys.begin
      dsimp only
      generalize hopened : ((⟨.new graph state config.grace config.sink,
        .fresh config.triggered⟩ : Sys F).withRun fun run =>
          (run.holdAll origin.heldNames).note (.started origin.heldNames)) = s
      have hrun : s.run = Run.opened graph state config origin.heldNames := by
        rw [← hopened]
        rfl
      have hsame : (⟨Run.opened graph state config origin.heldNames,
          .fresh config.triggered⟩ : Sys F) = s := by
        rw [← hopened]
        rfl
      rw [hsame]
      split
      · rename_i hstopping
        exact Sys.conclude_moves out _ _ (.inl hstopping) (hlaunch.given hrun)
      · exact (Sys.handOver_moves out _ _).trans
          (Sys.loopHead_moves out (.single (Sys.move_readToken out _)))

end Launch

/-! A small graph for concrete runs: `a` leads to `n`, and `n` to the end. -/

def leadsTo (source : String) (target : Target) : Edge Tally where
  name := "from_" ++ source
  source := source
  targets := [target]
  evaluate _ _ := .ok [target]

def pair : GraphBuilder Tally where
  version := "1"
  nodes := [⟨"a", "flow", "plain"⟩, ⟨"n", "flow", "plain"⟩]
  edges := [leadsTo "a" (.Node "n"), leadsTo "n" .END]
  entries := ["a", "n"]

theorem pair_accepted : pair.build.isOk = true := by decide +kernel

def pairGraph : Graph Tally := pair.built pair_accepted

/-- A run of the small graph that starts both nodes. -/
def pairRun (out : Outside Tally) (config : RunConfig) : Control Tally :=
  Sys.begin out ⟨.new pairGraph Tally.zero config.grace config.sink, .fresh config.triggered⟩
    (.Nodes ["a", "n"])

theorem pair_launch (out : Outside Tally) (config : RunConfig) :
    Launch out pairGraph config (.Nodes ["a", "n"]) Tally.zero (pairRun out config) :=
  Launch.ofStart Tally.zero ["a", "n"] (by decide +kernel)

end LlmGraph.Executor
