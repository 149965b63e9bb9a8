/- digest: The runs of one call of a durable agent, each cut anywhere, with what the host writes between
   their supersteps: the thread holds the turns of the call rank after rank, one at most of them open. -/

import LlmGraph.React.CallWrites
import LlmGraph.React.PlainDrafts
import LlmGraph.React.PlainMessages
import Mathlib.Logic.Relation

set_option autoImplicit false
set_option relaxedAutoImplicit false

namespace LlmGraph.React

open Lib (Act)
open Lib.Act (Holds Keeps)
open Superstep (State Config Value GraphError Key Update)

variable {C D σ : Type} [Messages C]

theorem Same.str {key : Key} {state next : State C} (hsame : Same key state next) :
    next.str key = state.str key := by
  unfold State.str
  rw [hsame.value]

/-- A text that is set is read. -/
theorem setStr_ok {key : Key} {state next : State C} {text : String}
    (happlied : state.applyOne (.set key (.str text)) = .ok next) : next.str key = .ok text := by
  unfold State.str
  rw [set_ok happlied]

namespace ReactLoop

variable {loop : ReactLoop} {clients : ModelCall → Prop} {config : Config C} {tkey : Key}

/-- The thread key of a durable loop is apart from its other keys. -/
structure Threaded (loop : ReactLoop) (tkey : Key) : Prop where
  wired : loop.Wired
  thread : loop.call.thread = some tkey
  apart : tkey ∉ loop.own
  flag : ∀ node, loop.limitNode = some node → node.flag ≠ tkey

/-- The state of a run names its thread and the trigger of its call. -/
structure Names (loop : ReactLoop) (tkey : Key) (thread : ThreadId) (trigger : Option InputId)
    (state : State C) : Prop where
  thread : state.str tkey = .ok thread.text
  trigger : loop.call.trigger state = .ok trigger

section Keys

variable {state next : State C} {c : C}

/-- The updates of a reply name the agent's own keys alone. -/
theorem reply_own {step : Step} {updates : List (Update C)} (hreply : loop.reply state step = .ok updates) :
    ∀ update ∈ updates, update.key ∈ loop.own := by
  unfold reply at hreply
  split at hreply
  · cases hreply
  · split at hreply
    · cases hreply
    · cases hreply
      intro update hupdate
      rw [List.mem_singleton.mp hupdate]
      exact List.mem_append_left _ List.mem_cons_self
    · cases hreply
      intro update hupdate
      rcases List.mem_cons.mp hupdate with rfl | hupdate
      · exact List.mem_append_left _ List.mem_cons_self
      · rcases List.mem_append.mp hupdate with hadd | hmove
        · obtain ⟨turns, hturns, rfl⟩ := Option.map_eq_some_iff.mp (Option.mem_toList.mp hadd)
          exact List.mem_append_right _ (Option.mem_toList.mpr hturns)
        · obtain ⟨position, -, rfl⟩ := List.mem_map.mp hmove
          exact List.mem_append_left _ (by simp [AgentCall.moveTo, Update.key])

/-- The updates of a limit node name the conversation and its flag. -/
theorem limit_keys {node : LimitNode} {updates : List (Update C)}
    (hrun : node.run config state = .ok updates) :
    ∀ update ∈ updates, update.key = node.key ∨ update.key = node.flag := by
  unfold LimitNode.run at hrun
  split at hrun
  · cases hrun
  · split at hrun
    · cases hrun
    · split at hrun
      · cases hrun
        exact fun update hupdate => by cases hupdate
      · split at hrun
        · cases hrun
        · cases hrun
        · cases hrun
        · cases hrun
          intro update hupdate
          rcases List.mem_append.mp hupdate with hupdate | hclose
          · rcases List.mem_append.mp hupdate with hanswer | hflag
            · obtain ⟨call, -, rfl⟩ := List.mem_map.mp hanswer
              exact .inl rfl
            · rw [List.mem_singleton.mp hflag]
              exact .inr rfl
          · obtain ⟨step, -, rfl⟩ := List.mem_map.mp hclose
            exact .inl rfl

/-- No superstep changes the thread that the state names. -/
theorem Written.same (hthreaded : loop.Threaded tkey) {store : ThreadStore C σ} {here there : Standing C}
    {desk after : Desk σ} (hwritten : loop.Written store clients config here desk (some there) after) :
    Same tkey here.state there.state := by
  have hne : ∀ {key : Key}, key ∈ loop.own → key ≠ tkey := fun hown heq => hthreaded.apart (heq ▸ hown)
  cases hwritten with
  | replies hclient hwrote happlied hgoes =>
    obtain ⟨step, hreply⟩ := callModel_reply hwrote
    exact applyAll_same (fun update hupdate => hne (reply_own hreply update hupdate))
      (applyBatch_all happlied)
  | answers hconversation hlast hgives hwrote happlied =>
    refine loop.batches_same (hne (by simp [own]))
      (fun own hown answer hanswer update hupdate hkey => ?_) happlied
    refine hgives.spares own hown answer hanswer update hupdate ?_
    rw [List.mem_singleton.mp hkey, kept, hthreaded.thread]
    exact List.mem_cons_self
  | limits hlimit hwrote happlied =>
    refine applyAll_same (fun update hupdate => ?_) (applyBatch_all happlied)
    rcases limit_keys (refuse_run hwrote) update hupdate with hkey | hflag
    · rw [hkey, (limitNode_key hlimit).1]
      exact hne (by simp [own])
    · rw [hflag]
      exact hthreaded.flag _ hlimit

/-- A reply opens the turn of the call's rank, where the conversation has none yet. -/
theorem target_fresh (hthread : loop.call.thread = some tkey) {rank : Nat} {id : TurnId}
    (hposition : loop.call.positionOf state = .ok (.Writing rank)) (hid : loop.call.turnId state rank = .ok id)
    (hnone : turnOf c id = none) : loop.target state c = .ok (.Open id none) := by
  have hgoing : ((lastTurnByAuthor c loop.author).filter fun turn =>
      loop.call.thread.isNone && Messages.state C turn == .AwaitingStep) = none := by
    rw [hthread]
    cases lastTurnByAuthor c loop.author <;> rfl
  unfold target
  rw [hgoing, hposition]
  dsimp only [Position.rank]
  rw [hid]
  dsimp only
  rw [hnone]

end Keys

section Works

variable [StepDrafts D] {store : ThreadStore C σ} {threads : σ → Threads D} {thread : ThreadId}
  {elsewhere : Threads D} {key : Nat → TurnId} {past : MessageStatus → Prop} {inputs : List UserInput}
  {trigger : Option InputId} {before held next : Held D} {last : Nat} {here : Standing C}

/-- How a run of a loop stands to its call in the thread: it opens the next turn, it is on the last one,
or that one answers. -/
inductive Working (loop : ReactLoop) (key : Nat → TurnId) (past : MessageStatus → Prop) (held : Held D)
    (last : Nat) : Standing C → Prop
  | fresh {state : State C} {c : C} (hconversation : state.conversation loop.key = .ok c)
      (hposition : loop.call.positionOf state = .ok (.Writing (last + 1)))
      (hunheld : turnOf c (key (last + 1)) = none) (hended : LastPast key past held last) :
      Working loop key past held last ⟨.llm, state⟩
  | going {here : Standing C} {c : C} {turn : Turn} (hon : loop.OnTurn here.state c turn)
      (halong : loop.Along C turn here.spot) (hid : turn.id = key last) (hpos : 0 < last)
      (hcompleted : here.spot = .after → held.status (key last) = .Completed) :
      Working loop key past held last here
  | answered {state : State C} {c : C} (hconversation : state.conversation loop.key = .ok c)
      (hposition : loop.call.positionOf state = .ok (.Answered last)) (hpos : 0 < last)
      (hcompleted : held.status (key last) = .Completed) :
      Working loop key past held last ⟨.after, state⟩

/-- A turn that is finished by its last step has a step that asks for no tool. -/
theorem Along.ends {turn : Turn} {step : Step} {earlier : List TurnItem}
    (halong : loop.Along C turn .after) (hitems : turn.items = earlier ++ [.Step step]) :
    step.stopReason ≠ .AwaitingToolResults := by
  intro hasks
  cases halong with
  | after hfinished =>
    unfold Turn.awaits at hfinished
    rw [hitems, List.reverse_append] at hfinished
    simp only [List.reverse_singleton, List.singleton_append] at hfinished
    rw [if_pos hasks] at hfinished
    cases hfinished

/-- A reply that leads past the loop asks for no tool. -/
theorem OnTurn.ends (hlawful : Messages.Lawful C) {state : State C} {c : C} {turn : Turn}
    (hon : loop.OnTurn state c turn) {earlier : List TurnItem} {step : Step}
    (hitems : turn.items = earlier ++ [.Step step]) {route : Route}
    (hgoes : loop.llmEdge config state = .ok route) (hspot : route.spot = .after) :
    step.stopReason ≠ .AwaitingToolResults := by
  have halong := hon.along hlawful hitems hgoes
  rw [hspot] at halong
  exact halong.ends hitems

/-- What the superstep of a run leaves of its call. -/
structure Works (loop : ReactLoop) (tkey : Key) (thread : ThreadId) (trigger : Option InputId)
    (key : Nat → TurnId) (past : MessageStatus → Prop) (held : Held D) (last : Nat)
    (here : Standing C) : Prop where
  names : loop.Names tkey thread trigger here.state
  working : loop.Working key past held last here

omit [StepDrafts D] in
/-- A run that goes on to its answer has completed the last turn of its call. -/
theorem Works.completed {state : State C}
    (hworks : loop.Works tkey thread trigger key past held last ⟨.after, state⟩) :
    0 < last ∧ held.status (key last) = .Completed := by
  cases hworks.working with
  | going hon halong hid hpos hcompleted => exact ⟨hpos, hcompleted rfl⟩
  | answered hconversation hposition hpos hcompleted => exact ⟨hpos, hcompleted⟩

/-- A reply that opens the next turn of the call. -/
theorem Written.opens (hlawful : Messages.Lawful C) (hdocumented : store.Documented threads)
    (hstreams : ¬ past .Streaming) (hthreaded : loop.Threaded tkey) (hkey : loop.call.ids trigger = key)
    (hapart : Apart key inputs) {state : State C} {c : C} (hnames : loop.Names tkey thread trigger state)
    (hconversation : state.conversation loop.key = .ok c)
    (hposition : loop.call.positionOf state = .ok (.Writing (last + 1)))
    (hunheld : turnOf c (key (last + 1)) = none) {desk after : Desk σ}
    (hstands : Stands threads thread elsewhere (fun held =>
      CallOn key past inputs before held last ∧ LastPast key past held last) desk)
    {there : Option (Standing C)}
    (hwritten : loop.Written store clients config ⟨.llm, state⟩ desk there after) :
    ∃ count, CallStands threads thread elsewhere key past inputs before count after ∧
      ∀ next, there = some next →
      loop.Works tkey thread trigger key past ((threads after.store).held thread) count next := by
  have hid : loop.call.turnId state (last + 1) = .ok (key (last + 1)) := by
    unfold AgentCall.turnId
    rw [hnames.trigger, ← hkey]
  have htarget := loop.target_fresh hthreaded.thread hposition hid hunheld
  have hcalls : ∀ call, Holds (Stands threads thread elsewhere (fun held =>
      CallOn key past inputs before held last ∧ LastPast key past held last)) (loop.callModel store call state)
      (fun updates desk => ∃ step, loop.reply state step = .ok updates ∧
        Stands threads thread elsewhere (fun held => CallOn key past inputs before held (last + 1) ∧
          (step.stopReason ≠ .AwaitingToolResults → held.status (key (last + 1)) = .Completed)) desk)
      fun _ => Stands threads thread elsewhere fun held => ∃ count, CallOn key past inputs before held count :=
    fun call => callModel_stands hthreaded.thread hnames.thread hconversation htarget
      (streamReply_opens hdocumented hstreams hapart) fun _ _ hafter => ⟨⟨last + 1, hafter.1.1⟩, hafter.2⟩
  cases hwritten with
  | @unreplied state call ended desk after hclient hwrote =>
    rcases (hcalls call).ends hstands hwrote with ⟨_, -, step, -, hafter⟩ |
      ⟨_, -, ⟨count, hcalled⟩, hothers⟩
    · exact ⟨last + 1, ⟨hafter.1.1, hafter.2⟩, fun _ hnone => by cases hnone⟩
    · exact ⟨count, ⟨hcalled, hothers⟩, fun _ hnone => by cases hnone⟩
  | @replies state next call updates route desk after hclient hwrote happlied hgoes =>
    have hsame := Written.same hthreaded (.replies hclient hwrote happlied hgoes)
    obtain ⟨step, hreply, hcalled, hothers⟩ := (hcalls call).done hstands hwrote
    obtain ⟨⟨c', -, hon⟩, -, hown⟩ :=
      loop.reply_opens hlawful hthreaded.wired hconversation htarget hreply happlied
    have hitems : (Turn.new (key (last + 1)) (some loop.author) step).items = [] ++ [.Step step] := rfl
    refine ⟨last + 1, ⟨hcalled.1, hothers⟩, fun there hthere => ?_⟩
    cases hthere
    have halong := hon.along hlawful hitems hgoes
    refine ⟨⟨hsame.str.trans hnames.thread, ?_⟩, .going hon halong rfl (Nat.succ_pos last) fun hspot => ?_⟩
    · exact (trigger_same (hown _ (.inr rfl))).trans hnames.trigger
    · exact hcalled.2 (hon.ends hlawful hitems hgoes hspot)

omit [StepDrafts D] in
/-- A superstep on the last turn of the call that goes on leaves the run on that turn. -/
theorem Written.on_turn (hlawful : Messages.Lawful C) (hthreaded : loop.Threaded tkey)
    (hcheck : loop.check = .ok ()) (hnames : loop.Names tkey thread trigger here.state) {c : C} {turn : Turn}
    (hon : loop.OnTurn here.state c turn) (halong : loop.Along C turn here.spot) (hid : turn.id = key last)
    (hpos : 0 < last) {desk after : Desk σ} {there : Standing C}
    (hwritten : loop.Written store clients config here desk (some there) after)
    (hcompleted : there.spot = .after → held.status (key last) = .Completed) :
    loop.Works tkey thread trigger key past held last there := by
  obtain ⟨c', changed, hmoved⟩ :=
    hwritten.superstep.moved hlawful hthreaded.wired hcheck hon halong
  have hopening : Same loop.call.opening here.state there.state :=
    hmoved.own _ (by simp [own]) (hthreaded.wired.key_ne (by simp))
  exact ⟨⟨(hwritten.same hthreaded).str.trans hnames.thread, (trigger_same hopening).trans hnames.trigger⟩,
    .going hmoved.on hmoved.along (hmoved.id.trans hid) hpos hcompleted⟩

/-- A superstep on the last turn of the call. -/
theorem Written.goes (hlawful : Messages.Lawful C) (hdocumented : store.Documented threads)
    (hstreams : ¬ past .Streaming) (hthreaded : loop.Threaded tkey) (hcheck : loop.check = .ok ())
    (hnames : loop.Names tkey thread trigger here.state) {c : C} {turn : Turn}
    (hon : loop.OnTurn here.state c turn) (halong : loop.Along C turn here.spot) (hid : turn.id = key last)
    (hpos : 0 < last) {desk after : Desk σ}
    (hstands : CallStands threads thread elsewhere key past inputs before last desk)
    {there : Option (Standing C)} (hwritten : loop.Written store clients config here desk there after) :
    CallStands threads thread elsewhere key past inputs before last after ∧ ∀ next, there = some next →
      loop.Works tkey thread trigger key past ((threads after.store).held thread) last next := by
  have hgoes : ∀ next, loop.Written store clients config here desk (some next) after →
      (next.spot = .after → ((threads after.store).held thread).status (key last) = .Completed) →
      loop.Works tkey thread trigger key past ((threads after.store).held thread) last next :=
    fun next hnext => hnext.on_turn hlawful hthreaded hcheck hnames hon halong hid hpos
  have hnone : ∀ next : Standing C, (none : Option (Standing C)) = some next →
      loop.Works tkey thread trigger key past ((threads after.store).held thread) last next :=
    fun _ hnone => by cases hnone
  have hcalls : ∀ call, turn.awaits = .AwaitingStep →
      Holds (CallStands threads thread elsewhere key past inputs before last)
        (loop.callModel store call here.state)
        (fun updates desk => ∃ step, loop.reply here.state step = .ok updates ∧
          Stands threads thread elsewhere (fun held => CallOn key past inputs before held last ∧
            (step.stopReason ≠ .AwaitingToolResults → held.status turn.id = .Completed)) desk)
        fun _ => CallStands threads thread elsewhere key past inputs before last :=
    fun call hawaits => callModel_stands hthreaded.thread hnames.thread hon.conversation
      (hon.target hlawful hawaits) (streamReply_stands hdocumented hstreams)
      fun _ _ hafter => ⟨hafter.1.1, hafter.2⟩
  have hrefuses : ∀ node, loop.limitNode = some node →
      Holds (CallStands threads thread elsewhere key past inputs before last)
        (node.refuse store loop.call.thread config here.state)
        (fun updates desk => node.run config here.state = .ok updates ∧
          Stands threads thread elsewhere (fun held => CallOn key past inputs before held last ∧
            (node.ends = true → held.status turn.id = .Completed)) desk)
        fun _ => CallStands threads thread elsewhere key past inputs before last := by
    intro node hnode
    rw [hthreaded.thread]
    refine LimitNode.refuse_stands hdocumented hstreams hnames.thread (c := c) ?_ ?_
    · rw [(limitNode_key hnode).1]
      exact hon.conversation
    · rw [(limitNode_key hnode).2]
      exact hon.last
  have hround : ∀ turn' results, Keeps (CallStands threads thread elsewhere key past inputs before last)
      (loop.writeRound store here.state turn' results : Act (Desk σ) (Halt C) Unit) :=
    fun _ _ => writeRound_keeps hdocumented hstreams hthreaded.thread hnames.thread
  have hmade := hwritten
  cases hwritten with
  | @unreplied state call ended desk after hclient hwrote =>
    cases halong with
    | step hawaits' =>
      rcases (hcalls call hawaits').ends hstands hwrote with ⟨_, -, step, -, hafter⟩ | ⟨_, -, hcalled⟩
      · exact ⟨⟨hafter.1.1, hafter.2⟩, hnone⟩
      · exact ⟨hcalled, hnone⟩
  | @replies state next call updates route desk after hclient hwrote happlied hgoes' =>
    cases halong with
    | step hawaits' =>
      obtain ⟨step, hreply, hafter⟩ := (hcalls call hawaits').done hstands hwrote
      refine ⟨⟨hafter.1.1, hafter.2⟩, fun there hthere => ?_⟩
      cases hthere
      refine hgoes _ hmade fun hspot => ?_
      obtain ⟨⟨c', -, -, -, -, hon'⟩, -⟩ := hon.reply hlawful hthreaded.wired hawaits' hreply happlied
      rw [← hid]
      exact hafter.1.2 (hon'.ends hlawful rfl hgoes' hspot)
  | @answers state next c' turn' given desk after hconversation hlast' hgives hwrote happlied =>
    refine ⟨(hround _ _).done hstands hwrote, fun there hthere => ?_⟩
    cases hthere
    exact hgoes _ hmade fun hspot => by cases hspot
  | unanswered hconversation hlast' hgives hwrote =>
    rcases (hround _ _).ends hstands hwrote with ⟨_, -, hcalled⟩ | ⟨_, -, hcalled⟩
    · exact ⟨hcalled, hnone⟩
    · exact ⟨hcalled, hnone⟩
  | @limits state next node updates desk after hlimit hwrote happlied =>
    obtain ⟨hrun, hafter⟩ := (hrefuses node hlimit).done hstands hwrote
    refine ⟨⟨hafter.1.1, hafter.2⟩, fun there hthere => ?_⟩
    cases hthere
    refine hgoes _ hmade fun hspot => ?_
    cases hends : node.ends with
    | false =>
      rw [hends] at hspot
      cases hspot
    | true =>
      rw [← hid]
      exact hafter.1.2 hends
  | unlimited hlimit hwrote =>
    rcases (hrefuses _ hlimit).ends hstands hwrote with ⟨_, -, -, hafter⟩ | ⟨_, -, hcalled⟩
    · exact ⟨⟨hafter.1.1, hafter.2⟩, hnone⟩
    · exact ⟨hcalled, hnone⟩

/-- A superstep of a run, cut anywhere, keeps its call and stands to it as before. -/
theorem Written.works (hlawful : Messages.Lawful C) (hdocumented : store.Documented threads)
    (hstreams : ¬ past .Streaming) (hthreaded : loop.Threaded tkey) (hcheck : loop.check = .ok ())
    (hkey : loop.call.ids trigger = key) (hapart : Apart key inputs) {desk after : Desk σ}
    (hworks : loop.Works tkey thread trigger key past ((threads desk.store).held thread) last here)
    (hstands : CallStands threads thread elsewhere key past inputs before last desk)
    {there : Option (Standing C)} (hwritten : loop.Written store clients config here desk there after) :
    ∃ count, CallStands threads thread elsewhere key past inputs before count after ∧
      ∀ next, there = some next →
        loop.Works tkey thread trigger key past ((threads after.store).held thread) count next := by
  obtain ⟨hnames, hworking⟩ := hworks
  cases hworking with
  | fresh hconversation hposition hunheld hended =>
    exact hwritten.opens hlawful hdocumented hstreams hthreaded hkey hapart hnames hconversation
      hposition
      hunheld ⟨⟨hstands.1, hended⟩, hstands.2⟩
  | going hon halong hid hpos hcompleted =>
    exact ⟨last, hwritten.goes hlawful hdocumented hstreams hthreaded hcheck hnames hon halong hid
      hpos hstands⟩
  | answered hconversation hposition hpos hcompleted => cases hwritten

end Works

end ReactLoop

section Entries

variable [StepDrafts D] {store : ThreadStore C σ} {threads : σ → Threads D} {thread : ThreadId}
  {elsewhere : Threads D} {key : Nat → TurnId} {past : MessageStatus → Prop} {inputs : List UserInput}
  {before held next : Held D} {last : Nat}

theorem Position.ofInt_value {position : Position} (hpos : 0 < position.rank) :
    Position.ofInt position.value = position := by
  cases position with
  | Writing rank =>
    unfold Position.ofInt Position.value
    dsimp only
    rw [if_neg (by omega)]
    rfl
  | Answered rank =>
    have hrank : 0 < rank := hpos
    unfold Position.ofInt Position.value
    dsimp only
    rw [if_pos (by omega), Int.natAbs_neg]
    rfl

/-- Where an entry finds its call: about to open the next turn, or answered by the last one. -/
theorem Found.position {entered : Entered C} (hfound : Found key inputs before last entered held)
    (hcalled : CallHeld key past inputs held last)
    (hpast : ∀ status, status ≠ .Streaming → status ≠ .Completed → past status) :
    entered.position = .Writing (last + 1) ∧ LastPast key past held last ∨
      entered.position = .Answered last ∧ 0 < last ∧ held.status (key last) = .Completed := by
  unfold Entered.position Entered.last
  rw [hfound.turns]
  cases last with
  | zero => exact .inl ⟨rfl, fun hpos => absurd hpos (Nat.lt_irrefl 0)⟩
  | succ count =>
    rw [ranksOf_last, List.getLast?_concat]
    dsimp only [Option.map_some]
    obtain ⟨message, hmessage⟩ := hcalled.ranked.some_of_le (Nat.succ_pos count) (Nat.le_refl _)
    have hstill := hfound.still (Nat.succ_pos count) message hmessage
    have hstatus : held.status (key (count + 1)) = message.status := by
      unfold Held.status
      rw [hmessage]
      rfl
    rw [hstatus]
    by_cases hcompleted : message.status = .Completed
    · rw [hcompleted]
      exact .inr ⟨rfl, Nat.succ_pos count, rfl⟩
    · refine .inl ⟨?_, fun _ found hheld => ?_⟩
      · split
        · rename_i heq
          cases heq
        · rename_i heq
          exact absurd (congrArg Prod.snd (Option.some.inj heq)) hcompleted
        · rename_i heq
          cases heq
          rfl
      · rw [hmessage] at hheld
        cases hheld
        exact hpast _ hstill hcompleted

omit [StepDrafts D] in
theorem Opened.forward (hopened : Opened inputs before held) : Forward before held where
  grows := by
    intro id hsome
    rw [hopened.kept id hsome]
    exact hsome
  final := by
    intro id message hheld _
    rw [hopened.kept id (by rw [hheld]; rfl)]
    exact hheld

theorem EntryLeaves.forward (hleaves : EntryLeaves key inputs before last held) : Forward before held := by
  cases hleaves with
  | stored hopened => exact hopened.forward
  | failed hpos hopened hopen hstreams hended =>
    exact hopened.forward.trans (Left.done (.ended hopen hended)).forward

/-- The opening of a call holds its inputs, in order. -/
theorem openingInputs_ok {opening : C} (hopening : openingInputs opening = .ok inputs) :
    entries opening = inputs.map .UserInput := by
  have hinputs : ∀ (listed : List Entry) (found : List UserInput),
      listed.mapM Entry.input? = some found → listed = found.map .UserInput := by
    intro listed
    induction listed with
    | nil =>
      intro found hfound
      cases hfound
      rfl
    | cons entry rest hind =>
      intro found hfound
      rw [List.mapM_cons] at hfound
      obtain ⟨input, hinput, hrest⟩ := Option.bind_eq_some_iff.mp hfound
      obtain ⟨others, hothers, hpure⟩ := Option.bind_eq_some_iff.mp hrest
      cases hpure
      cases entry with
      | Turn turn => cases hinput
      | UserInput held =>
        cases hinput
        rw [hind others hothers]
        rfl
  unfold openingInputs at hopening
  split at hopening
  · rename_i hfound
    cases hopening
    exact hinputs _ _ hfound
  · cases hopening

/-- The trigger of a call is the last input of its opening. -/
theorem trigger_inputs {call : AgentCall} {state : State C} {opening : C}
    (hconversation : state.conversation call.opening = .ok opening)
    (hopening : openingInputs opening = .ok inputs) :
    call.trigger state = .ok (inputs.getLast?.map UserInput.id) := by
  unfold AgentCall.trigger
  rw [hconversation]
  dsimp only
  rw [openingInputs_ok hopening, ← List.map_reverse, List.findSome?_map, ← List.head?_reverse]
  cases inputs.reverse <;> rfl

/-- The entry of a durable agent, cut anywhere: its updates are those of what it has found. -/
theorem EnterNode.run_stands (hlawful : Messages.Lawful C) (hdocumented : store.Documented threads)
    {node : EnterNode} {tkey : Key} (hthread : node.call.thread = some tkey) {state : State C} {opening : C}
    (hconversation : state.conversation node.call.opening = .ok opening)
    (hopening : openingInputs opening = .ok inputs) {given : String} (hgiven : state.str tkey = .ok given)
    {asking : Asking} (hnames : asking.Names (inputs.getLast?.map UserInput.id) given thread)
    (hkey : node.call.ids (inputs.getLast?.map UserInput.id) = key) (hapart : Apart key inputs)
    (hcalled : CallHeld key past inputs before last) :
    Holds (Stands threads thread elsewhere fun held => held = before) (node.run store asking state)
      (fun updates desk => ∃ entered : Entered C, updates =
          [.set node.conversation (.conversation entered.conversation), node.call.moveTo entered.position,
            .set tkey (.str thread.text)] ∧
        Stands threads thread elsewhere (Found key inputs before last entered) desk)
      fun _ => Stands threads thread elsewhere (EntryLeaves key inputs before last) := by
  subst hkey
  unfold EnterNode.run
  rw [known_bind hconversation, hthread]
  dsimp only
  rw [known_bind hopening, known_bind hgiven]
  refine .bind _ (enterThread_stands hlawful hdocumented hnames hapart hcalled) fun entered => ?_
  refine .pure fun desk hentered => ⟨entered, ?_, hentered.2⟩
  rw [hentered.1]

/-- The state of a run once it has entered. -/
theorem EnterNode.applied {node : EnterNode} {tkey : Key} {state next : State C} {entered : Entered C}
    (happlied : state.applyBatch [.set node.conversation (.conversation entered.conversation),
      node.call.moveTo entered.position, .set tkey (.str thread.text)] = .ok next)
    (hdistinct : [node.conversation, node.call.opening, node.call.position, tkey].Nodup)
    (hpos : 0 < entered.position.rank) :
    next.conversation node.conversation = .ok entered.conversation ∧
      node.call.positionOf next = .ok entered.position ∧ next.str tkey = .ok thread.text ∧
      Same node.call.opening state next := by
  simp only [List.nodup_cons, List.mem_cons, List.not_mem_nil, or_false, not_or] at hdistinct
  obtain ⟨⟨hopening, hposition, hthread⟩, ⟨hopening_position, hopening_thread⟩, hposition_thread, -⟩ :=
    hdistinct
  obtain ⟨first, hfirst, hrest⟩ := Lib.foldlM_cons_ok.mp (applyBatch_all happlied)
  obtain ⟨second, hsecond, hthird⟩ := Lib.foldlM_cons_ok.mp hrest
  have hlast := Lib.foldlM_single_ok.mp hthird
  have hmoved : Same node.call.position second next := applyOne_same hlast (Ne.symm hposition_thread)
  have hconversation : Same node.conversation first next :=
    (applyOne_same hsecond (Ne.symm hposition)).trans (applyOne_same hlast (Ne.symm hthread))
  refine ⟨?_, ?_, setStr_ok hlast, ?_⟩
  · rw [hconversation.conversation]
    unfold State.conversation
    rw [set_ok hfirst]
  · unfold AgentCall.positionOf
    rw [hmoved.int, setInt_ok hsecond]
    dsimp only
    rw [Position.ofInt_value hpos]
  · exact ((applyOne_same hfirst hopening).trans
      (applyOne_same hsecond (Ne.symm hopening_position))).trans
      (applyOne_same hlast (Ne.symm hopening_thread))

end Entries

/-- A turn that did not complete. -/
def MessageStatus.Incomplete (status : MessageStatus) : Prop := status = .Failed ∨ status = .Cancelled

/-- The id that a write is about. -/
def Write.names : Write → Option String
  | create _ => none
  | storeInput input => some input.id
  | openTurn turn _ | pushEvent turn _ | pushResults turn _ _ | endTurn turn _ => some turn

/-- A write under another id leaves a message as it is. -/
theorem Left.apart [StepDrafts D] {held next : Held D} {write : Write} {id : String}
    (hleft : Left held write next) (hother : write.names ≠ some id) :
    next id = held id := by
  have hne : ∀ {other : String}, write.names = some other → id ≠ other :=
    fun hnames heq => hother (heq ▸ hnames)
  cases hleft with
  | same => rfl
  | draft hstored hstreams => exact Function.update_of_ne (hne rfl) ..
  | done hdone =>
    cases hdone with
    | created => rfl
    | stored hfree => exact Function.update_of_ne (hne rfl) ..
    | kept => rfl
    | opened author hfree => exact Function.update_of_ne (hne rfl) ..
    | reopened => rfl
    | folded hstored hstreams => exact Function.update_of_ne (hne rfl) ..
    | pushed hstored hstreams => exact Function.update_of_ne (hne rfl) ..
    | ended hstored htaken => exact Function.update_of_ne (hne rfl) ..

/-- What is written beside the runs of a call: anything under other ids, and the end of a turn that is
failed or cancelled. -/
inductive Write.Besides (key : Nat → TurnId) : Write → Prop
  | elsewhere {write : Write} (hother : ∀ rank, 0 < rank → write.names ≠ some (key rank)) :
      Besides key write
  | ends {turn : TurnId} {ending : TurnEnd} (hincomplete : ending ≠ .Completed) :
      Besides key (.endTurn turn ending)

theorem Write.Besides.takes {key : Nat → TurnId} {write : Write} (hbesides : write.Besides key) :
    ∀ rank, 0 < rank → write.takes ≠ some (key rank) := by
  intro rank hpos htakes
  cases hbesides with
  | elsewhere hother =>
    refine hother rank hpos ?_
    cases write with
    | storeInput input => exact htakes
    | openTurn turn author => exact htakes
    | create origin => cases htakes
    | pushEvent turn event => cases htakes
    | pushResults turn index results => cases htakes
    | endTurn turn ending => cases htakes
  | ends hincomplete => cases htakes

/-- One moment in the life of a call: where its run is, and what the host keeps. -/
structure Moment (C σ : Type) where
  site : Site C
  host : σ

namespace ReactAgent

/-- The ids of the turns of the call that answers the last of some inputs. -/
def key (agent : ReactAgent) (inputs : List UserInput) : Nat → TurnId :=
  agent.ids (inputs.getLast?.map UserInput.id)

/-- A run of a call starts with the opening, and with the thread or with none. -/
structure Starts (agent : ReactAgent) (inputs : List UserInput) (thread : ThreadId) (state : State C) :
    Prop where
  opening : ∃ opening, state.conversation agent.call.opening = .ok opening ∧
    openingInputs opening = .ok inputs
  thread : ∃ given, state.str "thread" = .ok given ∧
    agent.asking.Names (inputs.getLast?.map UserInput.id) given thread

section Life

variable [StepDrafts D]

/-- What happens to a call: it is run anew, whatever has become of the run before; its run takes a
superstep, under some configuration, cut after as many operations as it may; or something is written
beside it. -/
inductive Happens (agent : ReactAgent) (store : ThreadStore C σ) (clients : ModelCall → Prop)
    (threads : σ → Threads D) (inputs : List UserInput) (thread : ThreadId) : Moment C σ → Moment C σ → Prop
  | invoked {site : Site C} {host : σ} {state : State C} (hstarts : agent.Starts inputs thread state) :
      Happens agent store clients threads inputs thread ⟨site, host⟩ ⟨.start state, host⟩
  | taken {site next : Site C} {host : σ} {left : Nat} {config : Config C} {after : Desk σ}
      (htakes : agent.Takes store clients config site ⟨host, left⟩ next after) :
      Happens agent store clients threads inputs thread ⟨site, host⟩ ⟨next, after.store⟩
  | written {site : Site C} {host after : σ} {id : ThreadId} {write : Write}
      (hbesides : id = thread → write.Besides (agent.key inputs))
      (hwrote : threads after = ((threads host).write id write).2) :
      Happens agent store clients threads inputs thread ⟨site, host⟩ ⟨site, after⟩

/-- The life of a call. -/
abbrev Life (agent : ReactAgent) (store : ThreadStore C σ) (clients : ModelCall → Prop)
    (threads : σ → Threads D) (inputs : List UserInput) (thread : ThreadId) : Moment C σ → Moment C σ → Prop :=
  Relation.ReflTransGen (agent.Happens store clients threads inputs thread)

variable {agent : ReactAgent} {store : ThreadStore C σ} {clients : ModelCall → Prop}
  {threads : σ → Threads D} {thread : ThreadId}
  {inputs : List UserInput} {held next : Held D} {last : Nat}

omit [StepDrafts D] in
/-- The flag of an agent's round limit names no key of the agent's own. -/
theorem check_flag (hcheck : agent.check = .ok ()) {flag : Key}
    (hflag : agent.roundLimit.bind roundLimitFlag = some flag) :
    flag ∉ ["answer", "opening", "thread", "conversation", "turn_rank"] := by
  intro hmem
  unfold check at hcheck
  rw [hflag] at hcheck
  dsimp only at hcheck
  rw [if_pos hmem] at hcheck
  cases hcheck

theorem threaded (hdurable : agent.durable = true) (hcheck : agent.check = .ok ()) :
    agent.loop.Threaded "thread" ∧ agent.loop.check = .ok () := by
  have hcall : agent.loop.call.thread = some "thread" := by
    unfold loop call
    rw [if_pos hdurable]
  have hown : agent.loop.own = ["conversation", "opening", "turn_rank"] := rfl
  have hflag : ∀ node, agent.loop.limitNode = some node →
      agent.roundLimit.bind roundLimitFlag = some node.flag := by
    intro node hnode
    unfold ReactLoop.limitNode at hnode
    obtain ⟨limit, hlimit, hflagged⟩ := Option.bind_eq_some_iff.mp hnode
    have hround : agent.roundLimit = some limit := hlimit
    rw [hround, Option.bind_some]
    unfold roundLimitFlag
    cases honLimit : limit.onLimit with
    | Error =>
      rw [honLimit] at hflagged
      cases hflagged
    | Continue id flag =>
      rw [honLimit] at hflagged
      cases hflagged
      rfl
    | End id flag =>
      rw [honLimit] at hflagged
      cases hflagged
      rfl
  have hnames : ∀ node, agent.loop.limitNode = some node →
      node.flag ∉ ["answer", "opening", "thread", "conversation", "turn_rank"] :=
    fun node hnode => check_flag hcheck (hflag node hnode)
  have hloop : agent.loop.check = .ok () := by
    have hlast : check.loopCheck agent = .ok () := by
      unfold check at hcheck
      split at hcheck
      · split at hcheck
        · cases hcheck
        · exact hcheck
      · exact hcheck
    unfold check.loopCheck at hlast
    split at hlast
    · cases hlast
    · assumption
  refine ⟨⟨⟨?_, fun node hnode => ?_⟩, hcall, ?_, fun node hnode heq => hnames node hnode ?_⟩, hloop⟩
  · rw [hown]
    decide
  · rw [hown]
    intro hmem
    refine hnames node hnode ?_
    simp only [List.mem_cons, List.not_mem_nil, or_false] at hmem ⊢
    rcases hmem with hmem | hmem | hmem <;> simp [hmem]
  · rw [hown]
    decide
  · rw [heq]
    simp

/-- How the run of a call stands to what the thread holds of the call. -/
inductive Stood (agent : ReactAgent) (inputs : List UserInput) (thread : ThreadId) (held : Held D)
    (last : Nat) : Site C → Prop
  | start {state : State C} (hstarts : agent.Starts inputs thread state) :
      Stood agent inputs thread held last (.start state)
  | on {here : ReactLoop.Standing C} (hentered : ∀ input ∈ inputs, (held input.id).isSome = true)
      (hworks : agent.loop.Works "thread" thread (inputs.getLast?.map UserInput.id) (agent.key inputs)
        MessageStatus.Incomplete held last here) : Stood agent inputs thread held last (.on here)
  | answered {state : State C} : Stood agent inputs thread held last (.answered state)
  | stopped : Stood agent inputs thread held last .stopped

/-- What one superstep of a run leaves of the thread: its call is held as before, with the turns that it
has opened, and nothing that was held is lost. -/
structure Leaves (agent : ReactAgent) (inputs : List UserInput) (thread : ThreadId)
    (before after : Threads D) (last : Nat) (next : Site C) : Prop where
  called : CallHeld (agent.key inputs) MessageStatus.Incomplete inputs (after.held thread) last
  stood : agent.Stood inputs thread (after.held thread) last next
  forward : Forward (before.held thread) (after.held thread)
  others : ∀ other, other ≠ thread → after other = before other

theorem incomplete_of {status : MessageStatus} (hstill : status ≠ .Streaming)
    (hends : status ≠ .Completed) : status.Incomplete := by
  cases status with
  | Streaming => exact absurd rfl hstill
  | Completed => exact absurd rfl hends
  | Failed => exact .inl rfl
  | Cancelled => exact .inr rfl

theorem streaming_open : ¬ MessageStatus.Streaming.Incomplete := by
  rintro (hstatus | hstatus) <;> cases hstatus

/-- What the entry of a run finds, or leaves where it is cut. -/
theorem Starts.holds (hlawful : Messages.Lawful C) (hdocumented : store.Documented threads)
    (hdurable : agent.durable = true) (hapart : Apart (agent.key inputs) inputs) {state : State C}
    (hstarts : agent.Starts inputs thread state)
    (hcalled : CallHeld (agent.key inputs) MessageStatus.Incomplete inputs held last)
    (elsewhere : Threads D) :
    Holds (Stands threads thread elsewhere fun stands => stands = held)
      (agent.enter.run store agent.asking state)
      (fun updates desk => ∃ entered : Entered C, updates =
          [.set agent.enter.conversation (.conversation entered.conversation),
            agent.enter.call.moveTo entered.position, .set "thread" (.str thread.text)] ∧
        Stands threads thread elsewhere (Found (agent.key inputs) inputs held last entered) desk)
      fun _ => Stands threads thread elsewhere (EntryLeaves (agent.key inputs) inputs held last) := by
  obtain ⟨⟨opening, hconversation, hopening⟩, given, hgiven, hnames⟩ := hstarts
  have hthread : agent.enter.call.thread = some "thread" := if_pos hdurable
  have hkey : agent.enter.call.ids (inputs.getLast?.map UserInput.id) = agent.key inputs := rfl
  exact EnterNode.run_stands hlawful hdocumented hthread hconversation hopening hgiven hnames hkey hapart
    hcalled

/-- What an entry leaves, whether or not it is cut. -/
theorem Starts.leaves (hlawful : Messages.Lawful C) (hdocumented : store.Documented threads)
    (hdurable : agent.durable = true) (hapart : Apart (agent.key inputs) inputs) {state : State C}
    (hstarts : agent.Starts inputs thread state) {desk after : Desk σ}
    (hcalled : CallHeld (agent.key inputs) MessageStatus.Incomplete inputs
      ((threads desk.store).held thread) last) {ended : Lib.Ended (Halt C) (List (Update C))}
    (hwrote : agent.enter.run store agent.asking state desk = (ended, after)) :
    EntryLeaves (agent.key inputs) inputs ((threads desk.store).held thread) last
        ((threads after.store).held thread) ∧
      ∀ other, other ≠ thread → threads after.store other = threads desk.store other := by
  have hholds := hstarts.holds hlawful hdocumented hdurable hapart hcalled (threads desk.store)
  rcases hholds.ends ⟨rfl, fun _ _ => rfl⟩ hwrote with
    ⟨_, -, entered, -, hfound, hothers⟩ | ⟨_, -, hleaves, hothers⟩
  · exact ⟨hfound.leaves, hothers⟩
  · exact ⟨hleaves, hothers⟩

/-- The state of a run that has entered. -/
theorem Starts.entered (hlawful : Messages.Lawful C) (hdocumented : store.Documented threads)
    (hdurable : agent.durable = true) (hapart : Apart (agent.key inputs) inputs) {state next : State C}
    (hstarts : agent.Starts inputs thread state) {desk after : Desk σ}
    (hcalled : CallHeld (agent.key inputs) MessageStatus.Incomplete inputs
      ((threads desk.store).held thread) last) {updates : List (Update C)}
    (hwrote : agent.enter.run store agent.asking state desk = (.done updates, after))
    (happlied : state.applyBatch updates = .ok next) :
    ∃ entered : Entered C,
      Found (agent.key inputs) inputs ((threads desk.store).held thread) last entered
        ((threads after.store).held thread) ∧
      (∀ other, other ≠ thread → threads after.store other = threads desk.store other) ∧
      next.conversation agent.loop.key = .ok entered.conversation ∧
      agent.loop.call.positionOf next = .ok entered.position ∧
      agent.loop.Names "thread" thread (inputs.getLast?.map UserInput.id) next := by
  obtain ⟨opening, hconversation, hopening⟩ := hstarts.opening
  have hholds := hstarts.holds hlawful hdocumented hdurable hapart hcalled (threads desk.store)
  obtain ⟨entered, rfl, hfound, hothers⟩ := hholds.done ⟨rfl, fun _ _ => rfl⟩ hwrote
  have hafter := hfound.leaves.called hapart (.inl rfl) hcalled
  have hpos : 0 < entered.position.rank := by
    rcases hfound.position hafter fun _ => incomplete_of with ⟨hposition, -⟩ | ⟨hposition, hpos, -⟩
    · rw [hposition]
      exact Nat.succ_pos last
    · rw [hposition]
      exact hpos
  have hdistinct : [agent.enter.conversation, agent.enter.call.opening, agent.enter.call.position,
      "thread"].Nodup := by
    have hkeys : [agent.enter.conversation, agent.enter.call.opening, agent.enter.call.position,
      "thread"] = ["conversation", "opening", "turn_rank", "thread"] := rfl
    rw [hkeys]
    decide
  obtain ⟨hconversed, hposition, htext, hsame⟩ := EnterNode.applied happlied hdistinct hpos
  have htrigger : agent.loop.call.trigger next = .ok (inputs.getLast?.map UserInput.id) :=
    (ReactLoop.trigger_same hsame).trans (trigger_inputs hconversation hopening)
  exact ⟨entered, hfound, hothers, hconversed, hposition, htext, htrigger⟩

/-- The entry of a run. -/
theorem Starts.enters (hlawful : Messages.Lawful C) (hdocumented : store.Documented threads)
    (hdurable : agent.durable = true) (hapart : Apart (agent.key inputs) inputs) {state : State C}
    (hstarts : agent.Starts inputs thread state) {desk : Desk σ}
    (hcalled : CallHeld (agent.key inputs) MessageStatus.Incomplete inputs
      ((threads desk.store).held thread) last) {config : Config C} {next : Site C} {after : Desk σ}
    (htakes : agent.Takes store clients config (.start state) desk next after) :
    agent.Leaves inputs thread (threads desk.store) (threads after.store) last next := by
  have hleft : ∀ {stood : Site C}, EntryLeaves (agent.key inputs) inputs
        ((threads desk.store).held thread) last ((threads after.store).held thread) →
      agent.Stood inputs thread ((threads after.store).held thread) last stood →
      (∀ other, other ≠ thread → threads after.store other = threads desk.store other) →
      agent.Leaves inputs thread (threads desk.store) (threads after.store) last stood :=
    fun hleaves hstood hothers =>
      ⟨hleaves.called hapart (.inl rfl) hcalled, hstood, hleaves.forward, hothers⟩
  cases htakes with
  | unentered hwrote =>
    obtain ⟨hleaves, hothers⟩ := hstarts.leaves hlawful hdocumented hdurable hapart hcalled hwrote
    exact hleft hleaves .stopped hothers
  | @enters state next updates spot desk after hwrote happlied hgoes =>
    obtain ⟨entered, hfound, hothers, hconversed, hposition, hnames⟩ :=
      hstarts.entered hlawful hdocumented hdurable hapart hcalled hwrote happlied
    have hafter := hfound.leaves.called hapart (.inl rfl) hcalled
    refine hleft hfound.leaves (.on hfound.inputs ⟨hnames, ?_⟩) hothers
    have hedge : agent.enter.call.positionOf next = .ok entered.position := hposition
    unfold EnterNode.edge at hgoes
    split at hgoes
    · cases hgoes
    · rw [hedge] at hgoes
      rcases hfound.position hafter fun _ => incomplete_of with ⟨hat, hpast⟩ | ⟨hat, hpos, hcompleted⟩
      · rw [hat] at hgoes hposition
        cases hgoes
        refine .fresh hconversed hposition ?_ hpast
        rw [hfound.conversation _ (Nat.succ_pos last), hafter.ranked.none_of_lt (Nat.lt_succ_self last)]
        rfl
      · rw [hat] at hgoes hposition
        cases hgoes
        exact .answered hconversed hposition hpos hcompleted

/-- One superstep of a run, cut anywhere. -/
theorem Takes.leaves (hlawful : Messages.Lawful C) (hdocumented : store.Documented threads)
    (hdurable : agent.durable = true) (hcheck : agent.check = .ok ())
    (hapart : Apart (agent.key inputs) inputs) {site next : Site C} {desk after : Desk σ}
    (hcalled : CallHeld (agent.key inputs) MessageStatus.Incomplete inputs
      ((threads desk.store).held thread) last)
    (hstood : agent.Stood inputs thread ((threads desk.store).held thread) last site) {config : Config C}
    (htakes : agent.Takes store clients config site desk next after) :
    ∃ count, agent.Leaves inputs thread (threads desk.store) (threads after.store) count next := by
  obtain ⟨hthreaded, hloop⟩ := threaded hdurable hcheck
  cases hstood with
  | start hstarts => exact ⟨last, hstarts.enters hlawful hdocumented hdurable hapart hcalled htakes⟩
  | answered => cases htakes
  | stopped => cases htakes
  | on hentered hworks' =>
    have hstands : CallStands threads thread (threads desk.store) (agent.key inputs)
        MessageStatus.Incomplete inputs ((threads desk.store).held thread) last desk :=
      ⟨⟨hcalled, hentered, .refl _⟩, fun _ _ => rfl⟩
    cases htakes with
    | answers hran happlied =>
      exact ⟨last, hcalled, .answered, .refl _, fun _ _ => rfl⟩
    | goesOn hwritten =>
      obtain ⟨count, hafter, hworks⟩ :=
        hwritten.works hlawful hdocumented streaming_open hthreaded hloop rfl hapart hworks' hstands
      exact ⟨count, hafter.1.called, .on hafter.1.inputs (hworks _ rfl), hafter.1.forward, hafter.2⟩
    | fails hwritten =>
      obtain ⟨count, hafter, -⟩ :=
        hwritten.works hlawful hdocumented streaming_open hthreaded hloop rfl hapart hworks' hstands
      exact ⟨count, hafter.1.called, .stopped, hafter.1.forward, hafter.2⟩

theorem Stood.left {write : Write} (hleft : Left held write next)
    (hcalled : CallHeld (agent.key inputs) MessageStatus.Incomplete inputs held last) {site : Site C}
    (hstood : agent.Stood inputs thread held last site) : agent.Stood inputs thread next last site := by
  cases hstood with
  | start hstarts => exact .start hstarts
  | answered => exact .answered
  | stopped => exact .stopped
  | on hentered hworks =>
    refine .on (fun input hinput => hleft.grows (hentered input hinput)) ⟨hworks.names, ?_⟩
    cases hworks.working with
    | fresh hconversation hposition hunheld hended =>
      exact .fresh hconversation hposition hunheld (hended.left hcalled streaming_open hleft)
    | going hon halong hid hpos hcompleted =>
      exact .going hon halong hid hpos fun hspot => hleft.completed (hcompleted hspot)
    | answered hconversation hposition hpos hcompleted =>
      exact .answered hconversation hposition hpos (hleft.completed hcompleted)

/-- What is written beside the runs of a call. -/
theorem Stood.beside {before after : Threads D} {id : ThreadId} {write : Write}
    (hbesides : id = thread → write.Besides (agent.key inputs))
    (hwrote : after = (before.write id write).2)
    (hcalled : CallHeld (agent.key inputs) MessageStatus.Incomplete inputs (before.held thread) last)
    {site : Site C} (hstood : agent.Stood inputs thread (before.held thread) last site) :
    CallHeld (agent.key inputs) MessageStatus.Incomplete inputs (after.held thread) last ∧
      agent.Stood inputs thread (after.held thread) last site ∧
      Forward (before.held thread) (after.held thread) := by
  by_cases hid : id = thread
  · subst hid
    have hleft := (before.write_held id write).1
    rw [← hwrote] at hleft
    exact ⟨hcalled.left streaming_open hleft (hbesides rfl).takes, hstood.left hleft hcalled, hleft.forward⟩
  · have hsame : after.held thread = before.held thread := by
      rw [hwrote]
      exact before.held_other (Ne.symm hid) write
    rw [hsame]
    exact ⟨hcalled, hstood, .refl _⟩

/-- The call is held as its runs are to leave it, whatever has happened to it. -/
theorem Life.stands (hlawful : Messages.Lawful C) (hdocumented : store.Documented threads)
    (hdurable : agent.durable = true) (hcheck : agent.check = .ok ())
    (hapart : Apart (agent.key inputs) inputs) {first last : Moment C σ} {count : Nat}
    (hcalled : CallHeld (agent.key inputs) MessageStatus.Incomplete inputs
      ((threads first.host).held thread) count)
    (hstood : agent.Stood inputs thread ((threads first.host).held thread) count first.site)
    (hlife : agent.Life store clients threads inputs thread first last) :
    ∃ late, CallHeld (agent.key inputs) MessageStatus.Incomplete inputs
        ((threads last.host).held thread) late ∧
      agent.Stood inputs thread ((threads last.host).held thread) late last.site ∧
      Forward ((threads first.host).held thread) ((threads last.host).held thread) := by
  induction hlife with
  | refl => exact ⟨count, hcalled, hstood, .refl _⟩
  | tail _ hhappens hind =>
    obtain ⟨early, hearly, hthere, hforward⟩ := hind
    cases hhappens with
    | invoked hstarts => exact ⟨early, hearly, .start hstarts, hforward⟩
    | taken htakes =>
      obtain ⟨late, hleaves⟩ := htakes.leaves hlawful hdocumented hdurable hcheck hapart hearly hthere
      exact ⟨late, hleaves.called, hleaves.stood, hforward.trans hleaves.forward⟩
    | written hbesides hwrote =>
      obtain ⟨hlater, hstays, hkept⟩ := hthere.beside hbesides hwrote hearly
      exact ⟨early, hlater, hstays, hforward.trans hkept⟩

/-- A call that is run again and again, each of its runs cut anywhere, holds the turns of its first ranks
in its thread, and no turn before its opening; each turn before the last one was failed or cancelled, and a
completed one is the last for good, unchanged. An entry ends, a run that answers has completed the last
turn, and no superstep touches another thread. -/
theorem reentry_safe (hlawful : Messages.Lawful C) (hdocumented : store.Documented threads)
    (agent : ReactAgent) (hdurable : agent.durable = true) (hcheck : agent.check = .ok ())
    (hapart : Apart (agent.key inputs) inputs) {first middle last : Moment C σ}
    (hbegins : first.site = .stopped)
    (hnone : ∀ rank, 0 < rank → (threads first.host).held thread (agent.key inputs rank) = none)
    (hearlier : agent.Life store clients threads inputs thread first middle)
    (hlater : agent.Life store clients threads inputs thread middle last) :
    ∃ early late,
      CallHeld (agent.key inputs) MessageStatus.Incomplete inputs ((threads middle.host).held thread) early ∧
      CallHeld (agent.key inputs) MessageStatus.Incomplete inputs ((threads last.host).held thread) late ∧
      early ≤ late ∧
      (∀ rank message, 0 < rank →
        (threads middle.host).held thread (agent.key inputs rank) = some message →
        message.status = .Completed →
        rank = late ∧ (threads last.host).held thread (agent.key inputs rank) = some message) ∧
      (∀ state left, last.site = .start state →
        (agent.enter.run store agent.asking state ⟨last.host, left⟩).1 ≠ .spent) ∧
      (∀ state, last.site = .on ⟨.after, state⟩ →
        ((threads last.host).held thread).status (agent.key inputs late) = .Completed) ∧
      ∀ config next left after, agent.Takes store clients config last.site ⟨last.host, left⟩ next after →
        ∀ other, other ≠ thread → threads after.store other = threads last.host other := by
  have hstart : CallHeld (agent.key inputs) MessageStatus.Incomplete inputs
      ((threads first.host).held thread) 0 := .none hnone
  have hover : agent.Stood inputs thread ((threads first.host).held thread) 0 first.site := by
    rw [hbegins]
    exact .stopped
  obtain ⟨early, hearly, hthere, -⟩ :=
    Life.stands hlawful hdocumented hdurable hcheck hapart hstart hover hearlier
  obtain ⟨late, hlate, hstood, hforward⟩ :=
    Life.stands hlawful hdocumented hdurable hcheck hapart hearly hthere hlater
  have hheld : ∀ rank, 0 < rank →
      ((threads middle.host).held thread (agent.key inputs rank)).isSome = true → rank ≤ late :=
    fun rank hpos hsome => (hlate.ranked.upTo rank hpos).mp (hforward.grows _ hsome)
  refine ⟨early, late, hearly, hlate, ?_, ?_, ?_, ?_, ?_⟩
  · rcases Nat.eq_zero_or_pos early with rfl | hpos
    · exact Nat.zero_le late
    · exact hheld early hpos ((hearly.ranked.upTo early hpos).mpr (Nat.le_refl early))
  · intro rank message hpos hmessage hcompleted
    have hkept := hforward.final _ message hmessage fun hstreams => by
      rw [hcompleted] at hstreams
      cases hstreams
    refine ⟨?_, hkept⟩
    have hle := hheld rank hpos (by rw [hmessage]; rfl)
    by_contra hne
    have hpast := hlate.ranked.past rank message hpos (by omega) hkept
    rw [hcompleted] at hpast
    rcases hpast with hstatus | hstatus <;> cases hstatus
  · intro state left hsite hspent
    rw [hsite] at hstood
    cases hstood with
    | start hstarts =>
      have hholds := hstarts.holds hlawful hdocumented hdurable hapart hlate (threads last.host)
      rcases hholds ⟨last.host, left⟩ ⟨rfl, fun _ _ => rfl⟩ with ⟨_, _, hrun, -⟩ | ⟨_, _, hrun, -⟩
      · rw [hrun] at hspent
        cases hspent
      · rw [hrun] at hspent
        cases hspent
  · intro state hsite
    rw [hsite] at hstood
    cases hstood with
    | on hentered hworks => exact hworks.completed.2
  · intro config next left after htakes
    obtain ⟨_, hleaves⟩ := htakes.leaves hlawful hdocumented hdurable hcheck hapart hlate hstood
    exact hleaves.others

end Life

end ReactAgent

namespace Rerun

/-- An agent without tools, in a thread of its own. -/
def thread : ThreadId := ⟨"01890a5d-ac96-774b-bcce-b302099a8057", by decide +kernel⟩

def agent : ReactAgent where
  author := ⟨"a", "Ann"⟩
  tools := []
  toolNodes := []
  toolConcurrency := none
  roundLimit := none
  enabled := none
  durable := true
  ids := fun _ rank => String.ofList (List.replicate rank 'x')
  asking := ⟨⟨"run", ["agent"]⟩, fun _ => thread⟩

def inputs : List UserInput := [⟨"u", "find it"⟩]

def opening : PlainMessages := ⟨inputs.map .UserInput, by decide +kernel⟩

/-- The state that each run starts with: no thread is named. -/
def asked : State PlainMessages where
  schema := ⟨[("conversation", .conversation), ("opening", .conversation), ("turn_rank", .int),
    ("thread", .str), ("answer", .str)], [], []⟩
  values := fun key =>
    if key = "conversation" || key = "opening" then some (.conversation opening)
    else if key = "turn_rank" then some (.int 0)
    else some (.str "")

def host : TestStore PlainDraft := ⟨fun _ => none, fun _ => 0, fun _ _ => false⟩

abbrev store : ThreadStore PlainMessages (TestStore PlainDraft) := TestStore.port PlainMessages PlainDraft

def config : Config PlainMessages := ⟨[], fun _ => none⟩

def updatesOf :
    Lib.Ended (Halt PlainMessages) (List (Update PlainMessages)) → Option (List (Update PlainMessages))
  | .done updates => some updates
  | _ => none

/-- The entry of a run that finds the host as it stands. -/
def entry (host : TestStore PlainDraft) :
    Lib.Ended (Halt PlainMessages) (List (Update PlainMessages)) × Desk (TestStore PlainDraft) :=
  agent.enter.run store agent.asking asked ⟨host, 10⟩

/-- The state that an entry leaves. -/
def entered (host : TestStore PlainDraft) : State PlainMessages :=
  ((asked.applyBatch ((updatesOf (entry host).1).getD [])).toOption).getD asked

theorem starts : agent.Starts inputs thread asked where
  opening := ⟨opening, rfl, rfl⟩
  thread := ⟨"", rfl, rfl⟩

theorem eq_ok {ε α : Type} {result : Except ε α} {value : α} (htold : result.toOption = some value) :
    result = .ok value := by
  cases result with
  | error error => cases htold
  | ok found =>
    cases htold
    rfl

/-- Updates that apply leave the state that they are read from. -/
theorem applies {state spare : State PlainMessages} {updates : List (Update PlainMessages)}
    (happlied : (state.applyBatch updates).toOption.isSome = true) :
    state.applyBatch updates = .ok ((state.applyBatch updates).toOption.getD spare) := by
  cases hresult : state.applyBatch updates with
  | error error =>
    rw [hresult] at happlied
    cases happlied
  | ok next => rfl

/-- A node that is done has given its updates. -/
theorem gives
    {result : Lib.Ended (Halt PlainMessages) (List (Update PlainMessages)) × Desk (TestStore PlainDraft)}
    (hdone : (updatesOf result.1).isSome = true) :
    result = (.done ((updatesOf result.1).getD []), result.2) := by
  unfold updatesOf at hdone ⊢
  split at hdone
  · rename_i updates hended
    exact Prod.ext hended rfl
  · cases hdone

theorem happens {clients : ModelCall → Prop} {site next : Site PlainMessages}
    {desk after : Desk (TestStore PlainDraft)}
    (htakes : agent.Takes store clients config site desk next after) :
    agent.Happens store clients TestStore.threads inputs thread ⟨site, desk.store⟩ ⟨next, after.store⟩ := by
  obtain ⟨host, left⟩ := desk
  exact .taken htakes

theorem enters {clients : ModelCall → Prop} {host : TestStore PlainDraft} {spot : Spot}
    (hdone : (updatesOf (entry host).1).isSome = true)
    (happlied : (asked.applyBatch ((updatesOf (entry host).1).getD [])).toOption.isSome = true)
    (hgoes : (agent.enter.edge agent.bounds config (entered host)).toOption = some spot) :
    agent.Takes store clients config (.start asked) ⟨host, 10⟩ (.on ⟨spot, entered host⟩) (entry host).2 :=
  .enters (gives hdone) (applies happlied) (eq_ok hgoes)

/-- A call whose client streams the start of a step; the run is cut in the middle of it. -/
def call : ModelCall := ⟨[.BlockStart 0 .Text, .TextDelta 0 "found"], .error "never told"⟩

def first : Moment PlainMessages (TestStore PlainDraft) := ⟨.stopped, host⟩

def begun : TestStore PlainDraft := (entry host).2.store

def cut : TestStore PlainDraft :=
  (agent.loop.callModel store call (entered host) ⟨begun, 2⟩).2.store

def middle : Moment PlainMessages (TestStore PlainDraft) := ⟨.stopped, cut⟩

def last : Moment PlainMessages (TestStore PlainDraft) := ⟨.on ⟨.llm, entered cut⟩, (entry cut).2.store⟩

theorem earlier : agent.Life store (fun _ => True) TestStore.threads inputs thread first middle := by
  have henters : agent.Takes store (fun _ => True) config (.start asked) ⟨host, 10⟩
      (.on ⟨.llm, entered host⟩) (entry host).2 :=
    enters rfl rfl rfl
  have hwrote : agent.loop.callModel store call (entered host) ⟨begun, 2⟩ =
      ((agent.loop.callModel store call (entered host) ⟨begun, 2⟩).1,
        (agent.loop.callModel store call (entered host) ⟨begun, 2⟩).2) := rfl
  have hfails : agent.Takes store (fun _ => True) config (.on ⟨.llm, entered host⟩) ⟨begun, 2⟩ .stopped
      (agent.loop.callModel store call (entered host) ⟨begun, 2⟩).2 := .fails (.unreplied trivial hwrote)
  exact ((Relation.ReflTransGen.single (.invoked starts)).tail (happens henters)).tail (.taken hfails)

theorem later : agent.Life store (fun _ => True) TestStore.threads inputs thread middle last :=
  (Relation.ReflTransGen.single (.invoked starts)).tail (happens (enters rfl rfl rfl))

theorem key_length (rank : Nat) : (agent.key inputs rank).length = rank := by
  unfold ReactAgent.key agent
  simp

theorem apart : Apart (agent.key inputs) inputs where
  numbered := by
    intro rank other _ _ heq
    rw [← key_length rank, heq, key_length]
  inputs := by
    intro input hinput rank _ heq
    have hid : input.id = "u" := by
      rw [List.mem_singleton.mp hinput]
    rw [hid] at heq
    have hletters : List.replicate rank 'x' = ['u'] := by
      have hlists := congrArg String.toList heq
      unfold ReactAgent.key agent at hlists
      simpa using hlists
    have hmem : 'u' ∈ List.replicate rank 'x' := by
      rw [hletters]
      exact List.mem_singleton.mpr rfl
    exact absurd (List.eq_of_mem_replicate hmem) (by decide)

end Rerun

theorem ReactAgent.reentry_safe_rerun :
    ((Rerun.cut.threads.held Rerun.thread).status "x" = .Streaming) ∧
      (Rerun.last.host.threads.held Rerun.thread).status "x" = .Failed ∧
      ∃ early late, early ≤ late ∧ CallHeld (Rerun.agent.key Rerun.inputs) MessageStatus.Incomplete
        Rerun.inputs (Rerun.last.host.threads.held Rerun.thread) late := by
  obtain ⟨early, late, -, hlate, hle, -⟩ :=
    ReactAgent.reentry_safe PlainMessages.lawful (TestStore.documented PlainMessages.lawful rfl)
      Rerun.agent rfl rfl Rerun.apart rfl (fun rank _ => rfl) Rerun.earlier Rerun.later
  exact ⟨rfl, rfl, early, late, hle, hlate⟩

end LlmGraph.React
