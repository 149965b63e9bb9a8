/- digest: What a driver in undisturbed surroundings does with each message, exactly: the run it
   leaves, and whether a core it could not give to is shut. -/

import LlmGraph.Contract.Channel
import LlmGraph.Executor.Outcomes

set_option autoImplicit false
set_option relaxedAutoImplicit false

namespace LlmGraph.Executor

open Contract

variable {F : Type} [Fields F]

/-! What the others and the driver keep of the cores. -/

namespace World

/-- No core has gone, and none takes inputs again. -/
structure Grown (world world' : World F) : Prop where
  length : world.cores.length ≤ world'.cores.length
  shut : ∀ address, world.Shut address → world'.Shut address

/-- The instance of every message is there. -/
def Housed (world : World F) : Prop :=
  ∀ node id made, .Created node id (.ok made) ∈ world.mailbox → made.core < world.cores.length

theorem Grown.trans {world world' world'' : World F} (hfirst : world.Grown world')
    (hsecond : world'.Grown world'') : world.Grown world'' where
  length := hfirst.length.trans hsecond.length
  shut address hshut := hsecond.shut address (hfirst.shut address hshut)

theorem Steady.grown {world world' : World F} (hsteady : world.Steady world') :
    world.Grown world' := ⟨hsteady.length.ge, hsteady.shut⟩

theorem Housed.steady {world world' : World F} (hhoused : world.Housed)
    (hsteady : world.Steady world') : world'.Housed := by
  intro node id made hmem
  rw [hsteady.length]
  exact hhoused node id made (hsteady.mail _ hmem)

/-- An operation of a node or a forwarder opens no core. -/
private theorem steady_op (world : World F) (address : Address) (action : Core.Action F) :
    world.Steady (world.updateCore address fun core => (core.act action).1) := by
  refine world.steady_updateCore address fun core _ hclosed => ?_
  have hnode := @Core.act_node _ _ core action
  have hshut : core.node ≠ .Working .Open := by
    intro hopen
    rw [Core.acceptsInput, hopen] at hclosed
    cases hclosed
  rw [Core.acceptsInput, hnode]
  rcases core with ⟨id, queue, (_ | _) | _ | _ | _, executor, reader, event, waiters⟩
  · exact absurd rfl hshut
  · cases action <;> rfl
  · cases action <;> rfl
  · cases action <;> rfl
  · cases action <;> rfl

private theorem complete_same (world : World F) (creation : Creation)
    (result : Except CreationFailure Address) : (world.complete creation result).cores = world.cores := by
  rw [complete]
  split
  · rfl
  · rcases result with failure | address
    · rfl
    · dsimp only
      split
      · split
        · rfl
        · rfl
      · rfl

/-- The message of a creation carries a core that is there. -/
private theorem complete_housed {world : World F} (hhoused : world.Housed) (creation : Creation)
    (result : Except CreationFailure Address) : (world.complete creation result).Housed := by
  have hcores := world.complete_same creation result
  intro node id made hmem
  rw [hcores]
  rw [complete] at hmem
  split at hmem
  · exact hhoused node id made hmem
  · rcases result with failure | address
    · rcases List.mem_append.mp hmem with hbefore | hlast
      · exact hhoused node id made hbefore
      · cases List.mem_singleton.mp hlast
    · dsimp only at hmem
      split at hmem
      · rename_i core hcore
        split at hmem
        · rcases List.mem_append.mp hmem with hbefore | hlast
          · exact hhoused node id made hbefore
          · cases List.mem_singleton.mp hlast
            exact (List.getElem?_eq_some_iff.mp hcore).1
        · exact hhoused node id made hmem
      · exact hhoused node id made hmem

private theorem forward_grown (world : World F) (address : Address) :
    world.Grown (world.forward address) ∧ (world.Housed → (world.forward address).Housed) := by
  have hpolled (core : Core F) (hcore : world.cores[address]? = some core) :
      world.Steady (world.updateCore address fun _ => (core.pollRecv address).1) := by
    refine world.steady_updateCore address fun other hother hclosed => ?_
    rw [hcore, Option.some.injEq] at hother
    subst hother
    rcases core with ⟨id, queue, (_ | _) | _ | _ | _, executor, reader, event, waiters⟩
    · cases hclosed
    · rfl
    · rfl
    · rfl
    · rfl
  rw [forward]
  split
  · rename_i forwarder core _ hcore
    have hsteady := hpolled core hcore
    dsimp only
    split
    · exact ⟨hsteady.grown, fun hhoused => hhoused.steady hsteady⟩
    · refine ⟨⟨hsteady.grown.length, hsteady.grown.shut⟩, fun hhoused node id made hmem => ?_⟩
      rcases List.mem_append.mp hmem with hbefore | hlast
      · exact hhoused.steady hsteady node id made hbefore
      · cases List.mem_singleton.mp hlast
  · exact ⟨(Steady.refl world).grown, fun hhoused => hhoused⟩

/-- What the others do keeps every core, opens none, and sends instances that are there. -/
theorem act_grown (world : World F) (act : Act F) :
    world.Grown (world.act act) ∧ (world.Housed → (world.act act).Housed) := by
  have hsame {world' : World F} (hsteady : world.Steady world') :
      world.Grown world' ∧ (world.Housed → world'.Housed) :=
    ⟨hsteady.grown, fun hhoused => hhoused.steady hsteady⟩
  cases act with
  | trigger | pass => exact hsame (.of_same rfl rfl)
  | channel id =>
    have hlength : (world.cores ++ [Core.new id]).length = world.cores.length + 1 := by simp
    refine ⟨⟨?_, ?_⟩, fun hhoused node other made hmem => ?_⟩
    · show world.cores.length ≤ (world.cores ++ [Core.new id]).length
      omega
    · rintro address ⟨core, hcore, hclosed⟩
      exact ⟨core, (List.getElem?_append_left (List.getElem?_eq_some_iff.mp hcore).1).trans hcore,
        hclosed⟩
    · show made.core < (world.cores ++ [Core.new id]).length
      rw [hlength]
      exact Nat.lt_succ_of_lt (hhoused node other made hmem)
  | created creation result =>
    have hcores := world.complete_same creation result
    refine ⟨⟨?_, ?_⟩, fun hhoused => complete_housed hhoused creation result⟩
    · show world.cores.length ≤ (world.complete creation result).cores.length
      rw [hcores]
    · rintro address ⟨core, hcore, hclosed⟩
      refine ⟨core, ?_, hclosed⟩
      show (world.complete creation result).cores[address]? = some core
      rw [hcores]
      exact hcore
  | forward core => exact world.forward_grown core
  | letGo address =>
    have hleft := world.steady_op address .EventEndDropped
    show world.Grown (world.letGo address) ∧ (world.Housed → (world.letGo address).Housed)
    rw [letGo]
    split
    · refine ⟨⟨hleft.grown.length, hleft.grown.shut⟩, fun hhoused node id made hmem => ?_⟩
      exact hhoused.steady hleft node id made hmem
    · exact hsame (.refl world)
  | closeInput address => exact hsame (world.steady_op address .CloseInput)
  | next address waker => exact hsame (world.steady_op address (.Next waker))
  | drain address => exact hsame (world.steady_op address .Drain)
  | finish address event => exact hsame (world.steady_op address (.Finish event))
  | senderGone address => exact hsame (world.steady_op address .SenderGone)

theorem tick_grown (out : Outside F) (world : World F) :
    world.Grown (world.tick out) ∧ (world.Housed → (world.tick out).Housed) := by
  have hall : ∀ (acts : List (Act F)) (world : World F),
      world.Grown (acts.foldl act world) ∧ (world.Housed → (acts.foldl act world).Housed) := by
    intro acts
    induction acts with
    | nil => exact fun world => ⟨(Steady.refl world).grown, fun hhoused => hhoused⟩
    | cons act rest ih =>
      intro world
      obtain ⟨hgrown, hhoused⟩ := world.act_grown act
      obtain ⟨hlater, hstill⟩ := ih (world.act act)
      exact ⟨hgrown.trans hlater, fun hbefore => hstill (hhoused hbefore)⟩
  obtain ⟨hgrown, hhoused⟩ := hall (out world.clock).acts world
  exact ⟨⟨hgrown.length, hgrown.shut⟩, hhoused⟩

end World

namespace Sys

variable (out : Outside F)

/-- A shut core stays shut. -/
theorem shut_kept (address : Address) : Kept out (fun s : Sys F => s.world.Shut address) where
  tick s hshut := (World.tick_grown out s.world).1.shut address hshut
  stop _ hshut _ _ := hshut
  fail s _ hshut := (World.tick_grown out s.world).1.shut address hshut
  same _ _ hshut hsame := hsame.steady.shut address hshut

/-- A core that is there stays there. -/
theorem there_kept (address : Address) :
    Kept out (fun s : Sys F => address < s.world.cores.length) where
  tick s hthere := Nat.lt_of_lt_of_le hthere (World.tick_grown out s.world).1.length
  stop _ hthere _ _ := hthere
  fail s _ hthere := Nat.lt_of_lt_of_le hthere (World.tick_grown out s.world).1.length
  same _ _ hthere hsame := Nat.lt_of_lt_of_le hthere hsame.steady.grown.length

theorem housed_kept : Kept out (fun s : Sys F => s.world.Housed) where
  tick s hhoused := (World.tick_grown out s.world).2 hhoused
  stop _ hhoused _ _ := hhoused
  fail s _ hhoused := (World.tick_grown out s.world).2 hhoused
  same _ _ hhoused hsame := hhoused.steady hsame.steady

theorem busy_of_slot {run : Run F} {name : String} {slot : NodeSlot F}
    (hslot : run.slot name = some slot) (hbusy : slot.isIdle = false) : run.allIdle = false := by
  by_contra hidle
  rw [Bool.not_eq_false, Run.allIdle_iff] at hidle
  rw [hidle name slot hslot] at hbusy
  cases hbusy

theorem busy_of_live {run : Run F} {name : String} {slot : NodeSlot F}
    (hslot : run.slot name = some slot) (hlive : slot.live ≠ .Absent) : run.allIdle = false := by
  apply busy_of_slot hslot
  rw [← Bool.not_eq_true, NodeSlot.isIdle_iff]
  exact fun hidle => hlive hidle.1

/-- A running instance accepts a state, or its core is shut. -/
theorem giveInput_there {s : Sys F} {name : String} {slot : NodeSlot F} {id : InstanceId}
    {core : Address} (hslot : s.run.slot name = some slot) (hlive : slot.live = .Running id core)
    (hthere : core < s.world.cores.length) (state : Shared F) :
    (∃ world, s.giveInput out name state = (true, ⟨s.run.accept name id state, world⟩)) ∨
      (s.giveInput out name state = (false, s.tick out) ∧ (s.tick out).world.Shut core) := by
  have hlater : core < (s.tick out).world.cores.length := (there_kept out core).tick s hthere
  have hcore : (s.tick out).world.cores[core]? = some (s.tick out).world.cores[core] :=
    List.getElem?_eq_getElem hlater
  have hslot' : (s.tick out).run.slot name = some slot := hslot
  rcases slot with ⟨kind, subkind, live, held, untaken⟩
  cases hlive
  unfold giveInput
  simp only [hslot', hcore, Option.bind_some]
  cases hgive : (s.tick out).world.cores[core].give state with
  | some given => exact .inl ⟨_, rfl⟩
  | none =>
    refine .inr ⟨rfl, _, hcore, ?_⟩
    unfold Core.give at hgive
    split at hgive
    · cases hgive
    · rename_i hclosed
      rwa [Bool.not_eq_true] at hclosed

/-- What a held and running node makes of the current state. -/
theorem giveHeld_there {s : Sys F} {name : String} {slot : NodeSlot F} {id : InstanceId}
    {core : Address} (hslot : s.run.slot name = some slot) (hlive : slot.live = .Running id core)
    (hthere : core < s.world.cores.length) :
    (s.giveHeld out name).run = (s.run.accept name id s.run.state).change name (·.release) ∨
      ((s.giveHeld out name).run = s.run ∧ (s.giveHeld out name).world.Shut core) := by
  unfold giveHeld
  rcases giveInput_there out hslot hlive hthere s.run.state with
    ⟨world, hgiven⟩ | ⟨hrefused, hshut⟩
  · rw [hgiven]
    exact .inl rfl
  · rw [hrefused]
    exact .inr ⟨rfl, hshut⟩

/-- What the driver makes of an instance that was created: it takes its first input, and the
current state if the node was targeted meanwhile; or its core is shut. -/
inductive Begun (run : Run F) (node : String) (slot : NodeSlot F) (id : InstanceId)
    (core : Address) (first : Shared F) (s' : Sys F) : Prop
  | refuses (hrun : s'.run = (run.instanceCreated node id core slot).change node (·.hold))
      (hshut : s'.world.Shut core)
  | takes (hfree : slot.held = false)
      (hrun : s'.run = (run.instanceCreated node id core slot).accept node id first)
  | takesBoth (hheld : slot.held = true)
      (hrun : s'.run = (((run.instanceCreated node id core slot).accept node id first).accept
        node id run.state).change node (·.release))
  | takesFirst (hheld : slot.held = true)
      (hrun : s'.run = (run.instanceCreated node id core slot).accept node id first)
      (hshut : s'.world.Shut core)

theorem settleCreated_begun {s : Sys F} (hrunning : s.run.isStopping = false) {node : String}
    {slot : NodeSlot F} {id : InstanceId} {core : Address} (first : Shared F)
    (hslot : s.run.slot node = some slot) (hthere : core < s.world.cores.length) :
    Begun s.run node slot id core first (s.settleCreated out node ⟨id, core⟩ first) := by
  unfold settleCreated
  rw [hslot]
  dsimp only
  generalize hborn : (⟨s.run.instanceCreated node id core slot,
    s.world.spawnForwarder node id core⟩ : Sys F) = born
  have hrun : born.run = s.run.instanceCreated node id core slot := by rw [← hborn]
  have hlength : core < born.world.cores.length := by
    rw [← hborn]
    exact hthere
  have hborn_slot : born.run.slot node = some (slot.becomeRunning id core) := by
    rw [hrun]
    exact (s.run.slot_change_at hslot _ node).trans (if_pos rfl)
  have hstill : born.run.isStopping = false := by
    rw [hrun]
    exact hrunning
  rcases giveInput_there out hborn_slot rfl hlength first with
    ⟨world, hgiven⟩ | ⟨hrefused, hshut⟩
  · rw [hgiven]
    have hslot' : (born.run.accept node id first).slot node =
        some (slot.becomeRunning id core) := hborn_slot
    have hnot : (born.run.accept node id first).isStopping = false := hstill
    simp only [hslot', hnot, Option.any_some, Bool.not_true, Bool.false_eq_true, if_false,
      Bool.not_false, Bool.and_true]
    cases hheld : slot.held with
    | false =>
      have hsame : (slot.becomeRunning id core).held = false := hheld
      rw [hsame, if_neg Bool.false_ne_true]
      exact .takes hheld (by rw [hrun])
    | true =>
      have hsame : (slot.becomeRunning id core).held = true := hheld
      have hworld : core < world.cores.length := by
        have hkept := (there_kept out core).giveInput hlength node first
        rw [hgiven] at hkept
        exact hkept
      rw [hsame, if_pos rfl]
      rcases giveHeld_there out (s := ⟨born.run.accept node id first, world⟩) hslot' rfl hworld with
        hboth | ⟨hfirst, hshut⟩
      · refine .takesBoth hheld (hboth.trans ?_)
        rw [hrun]
        rfl
      · refine .takesFirst hheld (hfirst.trans ?_) hshut
        rw [hrun]
  · rw [hrefused]
    simp only [Bool.not_false, if_true]
    refine .refuses ?_ hshut
    rw [run_withRun, run_tick, hrun]

/-- What the driver makes of a held node: it waits for a creation, gives the current state, or begins
a creation; or the core of its instance is shut. -/
inductive Handed (run : Run F) (name : String) (slot : NodeSlot F) (s' : Sys F) : Prop
  | waits (id : InstanceId) (first : Shared F) (hlive : slot.live = .Creating id first)
      (hrun : s'.run = run)
  | takes (id : InstanceId) (core : Address) (hlive : slot.live = .Running id core)
      (hrun : s'.run = (run.accept name id run.state).change name (·.release))
  | refuses (id : InstanceId) (core : Address) (hlive : slot.live = .Running id core)
      (hrun : s'.run = run) (hshut : s'.world.Shut core)
  | creates (hlive : slot.live = .Absent) (hrun : s'.run = run.create name)

theorem handTo_handed {s : Sys F} {name : String} {slot : NodeSlot F}
    (hslot : s.run.slot name = some slot) (hheld : slot.held = true)
    (hminted : (out s.world.clock).mint = .ok ())
    (hthere : ∀ id core, slot.live = .Running id core → core < s.world.cores.length) :
    Handed s.run name slot (s.handTo out name) := by
  unfold handTo
  rw [hslot]
  dsimp only
  rw [hheld, Bool.not_true, if_neg Bool.false_ne_true]
  cases hlive : slot.live with
  | Absent =>
    have hpresence : slot.presence = .Absent := by rw [NodeSlot.presence, hlive]
    rw [hpresence]
    refine .creates hlive ?_
    show (s.beginCreation out name).run = s.run.create name
    rw [beginCreation, hslot, hminted]
  | Creating id first =>
    have hpresence : slot.presence = .Creating := by rw [NodeSlot.presence, hlive]
    rw [hpresence]
    exact .waits id first hlive rfl
  | Running id core =>
    have hpresence : slot.presence = .Running := by rw [NodeSlot.presence, hlive]
    rw [hpresence]
    rcases giveHeld_there out hslot hlive (hthere id core hlive) with htakes | ⟨hrefused, hshut⟩
    · exact .takes id core hlive htakes
    · exact .refuses id core hlive hrefused hshut

/-- A hand-over to the one held node. -/
theorem handOver_one {s : Sys F} {name : String} (hrunning : s.run.isStopping = false)
    (hheld : ∀ other slot, s.run.slot other = some slot → slot.held = true → other = name) :
    s.handOver out [name] = s.handTo out name := by
  have hnone : s.run.heldNames.filter (· ∉ [name]) = [] := by
    rw [List.filter_eq_nil_iff]
    intro other hother
    obtain ⟨slot, hslot, hset⟩ := (s.run.mem_heldNames other).mp hother
    simp [hheld other slot hslot hset]
  unfold handOver handOrder
  rw [hnone, List.append_nil, List.foldl_cons, List.foldl_nil, hrunning,
    if_neg Bool.false_ne_true]

/-- What the driver keeps holds once it has received a message. -/
theorem Kept.heard {P : Sys F → Prop} (hkept : Kept out P) {s s₁ : Sys F} {message : Message F}
    (hs : P s) (hheard : s.heard out = some (message, s₁)) : P s₁ :=
  hkept.receive (hkept.tick _ (hkept.tick s hs)) hheard

/-- The instance of a message that is heard is there. -/
theorem heard_there {s s₁ : Sys F} {node : String} {id : InstanceId} {made : Instance}
    (hhoused : s.world.Housed) (hheard : s.heard out = some (.Created node id (.ok made), s₁)) :
    made.core < s₁.world.cores.length := by
  have hticked := (housed_kept out).tick _ ((housed_kept out).tick s hhoused)
  unfold heard receive at hheard
  split at hheard
  · cases hheard
  · rename_i message rest hmail
    cases hheard
    refine hticked node id made ?_
    rw [hmail]
    exact List.mem_cons_self

variable {out} (hundisturbed : Undisturbed out)
include hundisturbed

theorem step_begun {s : Sys F} (hcalm : s.Calm) {node : String} {slot : NodeSlot F}
    {id : InstanceId} {core : Address} {first : Shared F} (hslot : s.run.slot node = some slot)
    (hcreating : slot.live = .Creating id first) (hthere : core < s.world.cores.length) :
    Begun s.run node slot id core first (s.step out (.Created node id (.ok ⟨id, core⟩))) := by
  have hticked := (tick_quietly hundisturbed hcalm).calm
  have hfirst : ((s.tick out).run.slot node).bind (·.firstInputOfCreation id) = some first := by
    rw [run_tick, hslot]
    exact (NodeSlot.firstInputOfCreation_eq_some slot id first).mpr hcreating
  have hlater : core < (s.tick out).world.cores.length := (there_kept out core).tick s hthere
  unfold step
  rw [readToken_calm hundisturbed hcalm]
  unfold onCreated
  dsimp only
  rw [hfirst]
  simp only [if_true]
  exact settleCreated_begun out hticked.isStopping first hslot hlater

/-- What the driver makes of a result that is applied and whose edge is evaluated at every moment:
the step, and unless every node is idle then, a checkpoint and a hand-over. -/
theorem step_settled (htrips : RoundTrips F) {s : Sys F} (hcalm : s.Calm) {node : String}
    {slot : NodeSlot F} {id : InstanceId} {core : Address} (update : Fields.Update F)
    (newState : State F) (targets : List Target) (hslot : s.run.slot node = some slot)
    (hlive : slot.live = .Running id core)
    (happlied : ∀ now, s.run.state.state.apply now update = .ok newState)
    (hevaluated : ∀ now, s.run.graph.evaluateEdge now node newState = .ok targets) :
    ∃ s₁ : Sys F, s₁.run = (s.run.ending node id (.ok (.Result update))).step node id update
        newState targets ∧ s₁.Calm ∧
      (s₁.run.allIdle = true → s.step out (.Ended node id (.ok (.Result update))) = s₁) ∧
      (s₁.run.allIdle = false → ∃ s₂, Quietly s₁ s₂ ∧ (s₂.run = s₁.run ∨
          ∃ checkpoint, s₂.run = s₁.run.note (.offered checkpoint)) ∧
        (∀ P : Sys F → Prop, Kept out P → P s → P s₂) ∧
        s.step out (.Ended node id (.ok (.Result update))) =
          s₂.handOver out (Target.names targets)) := by
  have hticked := (tick_quietly hundisturbed hcalm).calm
  have hown : slot.runningId = some id := (NodeSlot.runningId_eq_some slot id).mpr ⟨core, hlive⟩
  unfold step onEnded
  dsimp only
  rw [readToken_calm hundisturbed hcalm, run_tick, hslot]
  simp only [hown, ne_eq, not_true_eq_false, if_false]
  generalize hended : (⟨(s.run.change node (·.endInstance)).note
    (.handled node id (.ok (.Result update))),
    dropLive (s.tick out).world node slot⟩ : Sys F) = s₁
  generalize htold : s₁.reportEvent node id .Result = s₂
  have hkept (P : Sys F → Prop) (hP : Kept out P) (hs : P s) : P s₂ := by
    have hdropped := hP.dropLive (hP.tick s hs) node slot
    have hended' : P s₁ := by
      rw [← hended]
      exact hP.same _ _ hdropped ⟨rfl, rfl, rfl, rfl, rfl, rfl, .refl _⟩
    rw [← htold]
    exact hP.same _ _ hended' ⟨rfl, rfl, rfl, rfl, rfl, rfl, .refl _⟩
  have hsame : s₂.run = s.run.ending node id (.ok (.Result update)) := by
    rw [← htold, ← hended]
    rfl
  have hcalm₂ : s₂.Calm := by
    refine ⟨?_, ?_, ?_⟩
    · rw [hsame]
      exact hcalm.running
    · rw [hsame]
      exact hcalm.clean
    · rw [← htold, ← hended]
      show (dropLive (s.tick out).world node slot).triggered = false
      rw [← hticked.untriggered]
      unfold dropLive
      split <;> rfl
  have honce := tick_quietly hundisturbed hcalm₂
  have htwice := honce.trans (tick_quietly hundisturbed honce.calm)
  have hstate : s₂.run.state = s.run.state := by rw [hsame, Run.ending_state]
  have hgraph : s₂.run.graph = s.run.graph := by rw [hsame, Run.ending_graph]
  unfold resultStep
  simp only [run_tick, hstate, happlied, hgraph, hevaluated]
  generalize hstepped : ((s₂.tick out).tick out).withRun
    (·.step node id update newState targets) = s₃
  have hrun : s₃.run = (s.run.ending node id (.ok (.Result update))).step node id update newState
      targets := by
    rw [← hstepped, ← hsame]
    rfl
  have hkept₃ (P : Sys F → Prop) (hP : Kept out P) (hs : P s) : P s₃ := by
    rw [← hstepped]
    refine hP.same _ _ (hP.tick _ (hP.tick _ (hkept P hP hs)))
      ⟨?_, ?_, ?_, rfl, rfl, rfl, .refl _⟩
    · exact Run.holdAll_phase _ _
    · exact Run.holdAll_failures _ _
    · rw [run_withRun, Run.step, Run.holdAll_log]
      rfl
  have hcalm₃ : s₃.Calm := by
    refine ⟨?_, ?_, ?_⟩
    · rw [hrun, Run.step, Run.holdAll_phase]
      exact hcalm.running
    · rw [hrun, Run.step, Run.holdAll_failures]
      exact hcalm.clean
    · rw [← hstepped]
      exact htwice.calm.untriggered
  refine ⟨s₃, hrun, hcalm₃, fun hidle => ?_, fun hbusy => ?_⟩
  · rw [if_pos hidle]
  · obtain ⟨hshown, hoffers⟩ := takeStepCheckpoint_offers hundisturbed htrips hcalm₃
    have hread := hshown.trans (tick_quietly hundisturbed hshown.calm)
    rw [hbusy, if_neg Bool.false_ne_true, hcalm₃.isStopping]
    simp only [Bool.not_false, if_true]
    rw [readToken_calm hundisturbed hshown.calm, hread.calm.isStopping]
    simp only [Bool.not_false, if_true]
    refine ⟨_, hread, hoffers, fun P hP hs => ?_, rfl⟩
    exact hP.tick _ (hP.takeStepCheckpoint (hkept₃ P hP hs))

/-- A wait at which a message is heard, and the next wait if someone is busy after it. -/
theorem after_heard {control : Control F} {polls : Nat} {s s₁ : Sys F} {message : Message F}
    (hwaiting : control.after out polls = .waiting s) (hcalm : s.Calm)
    (hheard : s.heard out = some (message, s₁)) (hstepped : (s₁.step out message).Calm)
    (hbusy : (s₁.step out message).run.allIdle = false) :
    control.after out (polls + 1) = .waiting ((s₁.step out message).tick out) := by
  rw [Control.after, hwaiting]
  show s.poll out = _
  rw [poll_heard hundisturbed hcalm hheard, loopHead_calm hundisturbed hstepped, hbusy,
    if_neg Bool.false_ne_true]

end Sys

end LlmGraph.Executor
