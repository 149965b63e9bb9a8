/- digest: A durable call that has completed is answered again, from its thread: each run that answers
   gives the answer of the completed turn, and the runs after it write nothing. -/

import LlmGraph.React.Mirrors
import LlmGraph.React.Reentry

set_option autoImplicit false
set_option relaxedAutoImplicit false

namespace LlmGraph.React

open Lib (Act)
open Lib.Act (Holds Keeps)
open Superstep (State Config Value GraphError Key Update)

section Agents

variable {C D σ : Type} [Messages C] [StepDrafts D] {store : ThreadStore C σ} {threads : σ → Threads D}
  {thread : ThreadId} {elsewhere : Threads D} {id : TurnId} {items : List TurnItem}

/-- The items of a turn in memory, as the thread holds them. -/
def Turn.shown (turn : Turn) : List TurnItem := turn.items.map TurnItem.bare

theorem Turn.shown_addStep (turn : Turn) (step : Step) :
    (turn.addStep step).shown = turn.shown ++ [.Step step.bare] := by
  unfold Turn.shown Turn.addStep
  rw [List.map_append]
  rfl

theorem Turn.shown_withResults {turn : Turn} {earlier : List TurnItem} {reply : Step}
    {results : List ToolResult} (hitems : turn.items = earlier ++ [.Step reply]) (hsome : results ≠ []) :
    (turn.withResults results).shown = turn.shown ++ [.ToolResults results] := by
  unfold Turn.shown
  rw [Turn.items_withResults_step hitems hsome, hitems]
  simp [TurnItem.bare]

section Nodes

variable {loop : ReactLoop} {call : ModelCall} {tkey : Key} {state : State C}

/-- The stream of a reply leaves its step in the turn, completed where it asks for no tool. -/
theorem streamReply_holding (hdrafts : StepDrafts.Lawful D) (hdocumented : store.Documented threads)
    (hstreams : call.Streams D) :
    Holds (Stands threads thread elsewhere (Holding id (Whole items)))
      (loop.streamReply ⟨store, thread, id⟩ false call)
      (fun step => Stands threads thread elsewhere fun held =>
        Holding id (Whole (items ++ [.Step step.bare])) held ∧
          (step.stopReason ≠ .AwaitingToolResults → Finished id (Whole (items ++ [.Step step.bare])) held))
      fun _ _ => True := by
  unfold ReactLoop.streamReply
  simp only [Bool.false_eq_true, if_false]
  cases hreply : call.reply with
  | error error =>
    have hpushed : ∀ events, Holds (Stands threads thread elsewhere fun _ => True)
        ((⟨store, thread, id⟩ : TurnWriter C σ).pushEvents events)
        (fun _ => Stands threads thread elsewhere fun _ => True) fun _ _ => True := by
      intro events
      induction events with
      | nil => exact .pure fun _ hstands => hstands
      | cons event rest hind => exact .bind _ (hdocumented.write_done fun _ _ _ _ => trivial) fun _ => hind
    refine .bind _ ((hpushed call.events).weaken _ _ fun desk hstands => ⟨trivial, hstands.2⟩) fun _ => ?_
    have hfails : call.step C = .error (.Other s!"model call failed: {error}") := by
      unfold ModelCall.step
      rw [hreply]
    rw [hfails]
    exact .bind (fun _ _ => False) (.stop fun _ _ => trivial) fun _ _ hfalse => hfalse.elim
  | ok reply =>
    obtain ⟨hone, hfolds⟩ := hstreams reply hreply
    have hstep : call.step C = .ok reply := by
      unfold ModelCall.step
      rw [hreply]
    rw [hstep]
    refine .bind _ (pushStep_holding hdrafts hdocumented hone) fun _ => ?_
    refine Holds.weaken (Stands threads thread elsewhere (Holding id (Whole (items ++ [.Step reply.bare])))) _
      ?_ fun desk hstands => ⟨fun record hheld hlive => ?_, hstands.2⟩
    · rw [known_bind rfl]
      split
      · refine .bind _ (complete_holding hdocumented) fun _ => .pure fun desk hstands => ?_
        exact ⟨⟨hstands.1.holding, fun _ => hstands.1⟩, hstands.2⟩
      · rename_i hasks
        exact .pure fun desk hstands => ⟨⟨hstands.1, fun hends => absurd hends hasks⟩, hstands.2⟩
    · obtain ⟨folded, hfolded, hwhole⟩ := hstands.1 record hheld hlive
      rw [hfolds folded hfolded] at hwhole
      exact hwhole

/-- A reply that opens a turn leaves its step as the turn's first one. -/
theorem streamReply_begins (hdrafts : StepDrafts.Lawful D) (hdocumented : store.Documented threads)
    (hstreams : call.Streams D) :
    Holds (Stands threads thread elsewhere fun held => held id = none)
      (loop.streamReply ⟨store, thread, id⟩ true call)
      (fun step => Stands threads thread elsewhere fun held =>
        Holding id (Whole [.Step step.bare]) held ∧
          (step.stopReason ≠ .AwaitingToolResults → Finished id (Whole [.Step step.bare]) held))
      fun _ _ => True := by
  have hsplit : loop.streamReply (C := C) ⟨store, thread, id⟩ true call =
      (do (⟨store, thread, id⟩ : TurnWriter C σ).openTurn loop.author
          loop.streamReply ⟨store, thread, id⟩ false call) := rfl
  rw [hsplit]
  refine .bind (fun _ => Stands threads thread elsewhere (Holding id (Whole []))) ?_
    fun _ => streamReply_holding hdrafts hdocumented hstreams
  refine hdocumented.write_done fun held next hnone hdone => ?_
  generalize loop.author = author at hdone
  cases hdone with
  | opened author hfree =>
    intro record hheld _
    rw [Function.update_self] at hheld
    cases hheld
    exact ⟨rfl, rfl⟩
  | reopened hstored =>
    rw [hnone] at hstored
    cases hstored

/-- The round of the tool nodes is the next item of the turn. -/
theorem writeRound_holding (hdrafts : StepDrafts.Lawful D) (hdocumented : store.Documented threads)
    (hkey : loop.call.thread = some tkey) (hthread : state.str tkey = .ok thread.text) {turn : Turn}
    {results : List ToolResult} (hsome : results ≠ []) :
    Holds (Stands threads thread elsewhere (Holding turn.id (Whole turn.shown)))
      (loop.writeRound store state turn results : Act (Desk σ) (Halt C) Unit)
      (fun _ => Stands threads thread elsewhere
        (Holding turn.id (Whole (turn.shown ++ [.ToolResults results])))) fun _ _ => True := by
  have hlength : turn.items.length = turn.shown.length := (List.length_map ..).symm
  unfold ReactLoop.writeRound
  rw [hkey]
  dsimp only
  rw [known_bind (ReactLoop.threadOf_text hthread),
    if_neg (by simpa using hsome), hlength]
  exact pushResults_holding hdrafts hdocumented

theorem pendingCalls_eq {key : Key} {author : Author} {c : C} {turn : Turn}
    (hconversation : state.conversation key = .ok c) (hlast : lastTurnByAuthor c author = some turn) :
    pendingCalls state key author = .ok (turn.pending C) := by
  unfold pendingCalls
  rw [hconversation]
  dsimp only
  rw [hlast]

section Limits

variable {node : LimitNode} {config : Config C} {c : C} {turn : Turn}

/-- The step that a text streams, as the thread holds it. -/
def textStep (text : String) : TurnItem := .Step ⟨[.Text text], .Other limitReached, none, none⟩

theorem writes_holding (hdrafts : StepDrafts.Lawful D) (hdocumented : store.Documented threads)
    {results : List ToolResult} (hsome : results ≠ []) {closing : Option String} :
    Holds (Stands threads thread elsewhere (Holding id (Whole items)))
      (LimitNode.writes (C := C) ⟨store, thread, id⟩ items.length results closing)
      (fun _ => Stands threads thread elsewhere fun held =>
        Holding id (Whole (items ++ [.ToolResults results] ++ closing.toList.map textStep)) held ∧
          (closing.isSome = true →
            Finished id (Whole (items ++ [.ToolResults results] ++ closing.toList.map textStep)) held))
      fun _ _ => True := by
  have hempty : results.isEmpty = false := by simpa using hsome
  unfold LimitNode.writes
  rw [hempty]
  refine .bind _ (pushResults_holding hdrafts hdocumented) fun _ => ?_
  unfold LimitNode.writeClosing
  cases closing with
  | none =>
    rw [Option.toList_none, List.map_nil, List.append_nil]
    exact .pure fun desk hstands => ⟨⟨hstands.1, fun hsome => by cases hsome⟩, hstands.2⟩
  | some text =>
    have hone : OneStep (textStepEvents text (.Other limitReached)) := by
      refine ⟨[.BlockStart 0 .Text, .TextDelta 0 text, .BlockEnd 0],
        .Finish (.Other limitReached) none, rfl, rfl, fun event hevent => ?_⟩
      simp only [List.mem_cons, List.not_mem_nil, or_false] at hevent
      rcases hevent with rfl | rfl | rfl <;> rfl
    rw [Option.toList_some, List.map_singleton]
    refine .bind _ (pushStep_holding hdrafts hdocumented hone) fun _ => ?_
    refine Holds.weaken (Stands threads thread elsewhere
      (Holding id (Whole (items ++ [.ToolResults results] ++ [textStep text])))) _ ?_
      fun desk hstands => ⟨fun record hheld hlive => ?_, hstands.2⟩
    · exact (complete_holding hdocumented).imp (fun _ hpre => hpre)
        (fun _ desk hstands => ⟨⟨hstands.1.holding, fun _ => hstands.1⟩, hstands.2⟩) fun _ _ hexit => hexit
    · obtain ⟨folded, hfolded, hwhole⟩ := hstands.1 record hheld hlive
      rw [hdrafts.text _ _ _ hfolded] at hwhole
      exact hwhole

/-- What the limit node makes of a turn, as the thread is to hold it. -/
theorem limited_shown {max : Nat} {calls : List ToolCall} {earlier : List TurnItem} {reply : Step}
    (hitems : turn.items = earlier ++ [.Step reply])
    (hresults : calls.map (LimitNode.answer (refusal max)) ≠ []) :
    (ReactLoop.limited node max turn calls).shown =
      turn.shown ++ [.ToolResults (calls.map (LimitNode.answer (refusal max)))] ++
        (if node.ends then some (LlmGraph.React.closing max) else none).toList.map textStep := by
  unfold ReactLoop.limited
  dsimp only
  cases node.ends with
  | true =>
    rw [if_pos rfl, if_pos rfl, Turn.shown_addStep, Turn.shown_withResults hitems hresults]
    rfl
  | false =>
    rw [if_neg Bool.false_ne_true, if_neg Bool.false_ne_true, Turn.shown_withResults hitems hresults]
    exact (List.append_nil _).symm

/-- What the limit node writes is what it makes of the turn in memory. -/
theorem refuse_holding (hlawful : Messages.Lawful C) (hdrafts : StepDrafts.Lawful D)
    (hdocumented : store.Documented threads) (hthread : state.str tkey = .ok thread.text)
    (hconversation : state.conversation node.key = .ok c)
    (hlast : lastTurnByAuthor c node.author = some turn) (hsome : turn.pending C ≠ []) {max : Nat}
    (hmax : node.maxRounds.resolve config = .ok max) {earlier : List TurnItem} {reply : Step}
    (hitems : turn.items = earlier ++ [.Step reply]) :
    Holds (Stands threads thread elsewhere (Holding turn.id (Whole turn.shown)))
      (node.refuse store (some tkey) config state)
      (fun _ => Stands threads thread elsewhere fun held =>
        Holding turn.id (Whole (ReactLoop.limited node max turn (turn.pending C)).shown) held ∧
          (node.ends = true →
            Finished turn.id (Whole (ReactLoop.limited node max turn (turn.pending C)).shown) held))
      fun _ _ => True := by
  have hlength : turn.items.length = turn.shown.length := (List.length_map ..).symm
  have hresults : (turn.pending C).map (LimitNode.answer (refusal max)) ≠ [] :=
    fun hnil => hsome (List.map_eq_nil_iff.mp hnil)
  rw [limited_shown hitems hresults]
  unfold LimitNode.refuse
  rw [known_bind hmax, known_bind hconversation]
  dsimp only
  rw [hlast]
  dsimp only
  refine .bind (fun text desk => text = refusal max ∧
    Stands threads thread elsewhere (Holding turn.id (Whole turn.shown)) desk)
    (.ofExcept (fun text htext desk hstands => ⟨hlawful.newText _ _ htext, hstands⟩) fun _ _ _ _ => trivial)
    fun text => .given fun htext => ?_
  rw [htext, known_bind (pendingCalls_eq hconversation hlast)]
  refine .bind (fun closing desk => closing = (if node.ends then some (LlmGraph.React.closing max) else none) ∧
    Stands threads thread elsewhere (Holding turn.id (Whole turn.shown)) desk)
    (.ofExcept (fun closing hclosing desk hstands => ⟨?_, hstands⟩) fun _ _ _ _ => trivial)
    fun closing => .given fun hclosing => ?_
  · split at hclosing
    · rename_i hends
      rw [if_pos hends]
      cases htaken : Messages.newText C (LlmGraph.React.closing max) with
      | error error =>
        rw [htaken] at hclosing
        cases hclosing
      | ok taken =>
        rw [htaken] at hclosing
        cases hclosing
        rw [hlawful.newText _ _ htaken]
    · rename_i hgoes
      rw [if_neg hgoes]
      cases hclosing
      rfl
  · rw [hclosing, known_bind (ReactLoop.threadOf_text hthread), hlength]
    refine .bind _ (writes_holding hdrafts hdocumented hresults) fun _ => ?_
    refine .ofExcept (fun _ _ desk hstands => ⟨⟨hstands.1.1, fun hends => hstands.1.2 ?_⟩, hstands.2⟩)
      fun _ _ _ _ => trivial
    rw [if_pos hends]
    rfl

end Limits

end Nodes

section Answers

/-- The answer that some items give, as the thread holds them. -/
def itemsAnswer (items : List TurnItem) : String :=
  ((items.reverse.findSome? TurnItem.step?).map answerText).getD ""

/-- The answer of a turn that a thread holds. -/
def Held.answer (held : Held D) (id : TurnId) : String :=
  AnswerNode.answerOf ((held id).bind Message.turn)

theorem itemsAnswer_bare (items : List TurnItem) :
    itemsAnswer (items.map TurnItem.bare) = itemsAnswer items := by
  unfold itemsAnswer
  rw [← List.map_reverse, List.findSome?_map]
  induction items.reverse with
  | nil => rfl
  | cons item rest hind =>
    cases item with
    | Step step => rfl
    | ToolResults results => exact hind

theorem Turn.answer_shown (turn : Turn) : AnswerNode.answerOf (some turn) = itemsAnswer turn.shown :=
  (itemsAnswer_bare turn.items).symm

omit [StepDrafts D] in
theorem Finished.answer {held : Held D} (hfinished : Finished id (Whole items) held) :
    held.answer id = itemsAnswer items := by
  obtain ⟨record, hheld, -, hitems, -⟩ := hfinished
  unfold Held.answer
  rw [hheld, ← hitems, itemsAnswer_bare]
  unfold Option.bind Message.turn TurnRecord.turn
  dsimp only
  by_cases hempty : record.items.isEmpty = true
  · rw [if_pos hempty, List.isEmpty_iff.mp hempty]
    rfl
  · rw [if_neg hempty]
    rfl

end Answers

section Runs

variable {loop : ReactLoop} {key : Nat → TurnId} {past : MessageStatus → Prop} {trigger : Option InputId}
  {held next : Held D} {last : Nat} {here : ReactLoop.Standing C} {c : C} {turn : Turn} {tkey : Key}

omit [StepDrafts D] in
/-- An agent that opens its next turn is on none. -/
theorem OnTurn.not_fresh (hlawful : Messages.Lawful C) (hthread : loop.call.thread = some tkey)
    {rank : Nat} {state : State C} (hid : loop.call.turnId state rank = .ok id)
    (hposition : loop.call.positionOf state = .ok (.Writing rank))
    (hconversation : state.conversation loop.key = .ok c) (hnone : turnOf c id = none) {c' : C} :
    ¬ loop.OnTurn state c' turn := by
  intro hon
  rcases hon.writes with hmemory | ⟨position, hat, hturn⟩
  · rw [hthread] at hmemory
    cases hmemory
  · rw [hposition] at hat
    cases hat
    have hsame : turn.id = id := by
      have hboth := hturn.symm.trans hid
      exact Except.ok.inj hboth
    have hfound := ReactLoop.turnOf_mem hlawful hon.mem
    have hsees : c' = c := Except.ok.inj (hon.conversation.symm.trans hconversation)
    rw [hsees, hsame, hnone] at hfound
    cases hfound

omit [StepDrafts D] in
/-- The turn that an agent is on is the last one of its call. -/
theorem ReactLoop.Works.on_id (hlawful : Messages.Lawful C) (hthread : loop.call.thread = some tkey)
    (hkey : loop.call.ids trigger = key)
    (hworks : loop.Works tkey thread trigger key past held last here)
    (hon : loop.OnTurn here.state c turn) : turn.id = key last ∧ 0 < last := by
  have hturn : ∀ rank, loop.call.turnId here.state rank = .ok (key rank) := by
    intro rank
    unfold AgentCall.turnId
    rw [hworks.names.trigger, ← hkey]
  cases hworks.working with
  | fresh hconversation hposition hunheld hended =>
    exact absurd hon (OnTurn.not_fresh hlawful hthread (hturn _) hposition hconversation hunheld)
  | going hon' halong hid' hpos hcompleted =>
    cases hon.conversation.symm.trans hon'.conversation
    cases hon.last.symm.trans hon'.last
    exact ⟨hid', hpos⟩
  | answered hconversation hposition hpos hcompleted =>
    rcases hon.writes with hmemory | ⟨found, hat, hid⟩
    · rw [hthread] at hmemory
      cases hmemory
    · rw [hposition] at hat
      cases hat
      exact ⟨Except.ok.inj (hid.symm.trans (hturn last)), hpos⟩

end Runs

/-- What is written beside the runs of a call leaves its turns as they are, but for those that it fails
or cancels. -/
theorem Holding.beside {key : Nat → TurnId} {held next : Held D} {write : Write}
    (hbesides : write.Besides key) (hleft : Left held write next)
    {rank : Nat} (hpos : 0 < rank) {shape : TurnRecord D → Prop} (hholding : Holding (key rank) shape held) :
    Holding (key rank) shape next := by
  cases hbesides with
  | elsewhere hother =>
    unfold Holding
    rw [Left.apart hleft (hother rank hpos)]
    exact hholding
  | @ends turn ending hincomplete =>
    cases hleft with
    | same => exact hholding
    | done hdone =>
      cases hdone with
      | @ended _ _ record ended hstored htaken =>
        intro found hfound hlive
        by_cases hid : key rank = turn
        · rw [hid, Function.update_self] at hfound
          cases hfound
          have hstatus := (TurnRecord.finish_ok htaken).2.2.1
          rw [hstatus] at hlive
          cases ending with
          | Completed => exact absurd rfl hincomplete
          | Failed => rcases hlive with hlive | hlive <;> cases hlive
          | Cancelled => rcases hlive with hlive | hlive <;> cases hlive
        · rw [Function.update_of_ne hid] at hfound
          exact hholding found hfound hlive

omit [StepDrafts D] in
/-- A completed turn stands as it is. -/
theorem Forward.kept {held next : Held D} (hforward : Forward held next)
    (hcompleted : held.status id = .Completed) : next id = held id := by
  obtain ⟨message, hheld, hmessage⟩ := status_some hcompleted fun heq => by cases heq
  rw [hheld]
  exact hforward.final id message hheld fun heq => by rw [hmessage] at heq; cases heq

/-- An entry leaves a call that has completed as it is. -/
theorem EntryLeaves.completed {key : Nat → TurnId} {past : MessageStatus → Prop} {inputs : List UserInput}
    {before held : Held D} {last : Nat} (hleaves : EntryLeaves key inputs before last held)
    (hapart : Apart key inputs) (hcalled : CallHeld key past inputs before last) (hpos : 0 < last)
    (hcompleted : before.status (key last) = .Completed) : held = before := by
  cases hleaves with
  | stored hopened =>
    funext id
    by_cases hinput : ∃ input ∈ inputs, id = input.id
    · obtain ⟨input, hmem, rfl⟩ := hinput
      exact hopened.kept input.id (hcalled.begun hpos input hmem)
    · exact hopened.apart id fun input hmem heq => hinput ⟨input, hmem, heq⟩
  | @failed held record next hpos' hopened hopen hstreams hended =>
    obtain ⟨message, hheld, hmessage⟩ := status_some hcompleted fun heq => by cases heq
    rw [hopened.turn hapart hpos', hheld] at hopen
    cases hopen
    have hstatus : record.status = .Completed := hmessage
    rw [hstatus] at hstreams
    cases hstreams

namespace ReactAgent

variable {agent : ReactAgent} {clients : ModelCall → Prop} {config : Config C} {inputs : List UserInput}
  {key : Nat → TurnId} {held next : Held D} {last count : Nat} {here there : ReactLoop.Standing C}

/-- The answer of a run is that of the last turn of its call, as the thread holds it. -/
def Answers (agent : ReactAgent) (key : Nat → TurnId) (held : Held D) (last : Nat) (state : State C) : Prop :=
  ∀ c position turn, state.conversation agent.loop.key = .ok c →
    agent.loop.call.positionOf state = .ok position →
    agent.answer.answering state c position = .ok turn → AnswerNode.answerOf turn = held.answer (key last)

/-- What a run has made of its turn stands in the thread: the turn that it is on, or its answer. -/
inductive Mirrored (agent : ReactAgent) (key : Nat → TurnId) (held : Held D) (last : Nat) :
    ReactLoop.Standing C → Prop
  | writes {here : ReactLoop.Standing C} (hbefore : here.spot ≠ .after)
      (hturn : ∀ c turn, agent.loop.OnTurn here.state c turn → Holding turn.id
      (Whole turn.shown) held) :
      Mirrored agent key held last here
  | answers {state : State C} (hanswer : agent.Answers key held last state) :
      Mirrored agent key held last ⟨.after, state⟩

omit [StepDrafts D] in
/-- The turn that a run is on is the one that it answers with. -/
theorem answering_on (hlawful : Messages.Lawful C) (hthread : agent.loop.call.thread = some "thread")
    {state : State C} {c : C} {turn : Turn} (hon : agent.loop.OnTurn state c turn) {position : Position}
    (hposition : agent.loop.call.positionOf state = .ok position) {found : Option Turn}
    (hfound : agent.answer.answering state c position = .ok found) : found = some turn := by
  unfold AnswerNode.answering at hfound
  cases position with
  | Writing rank =>
    cases hfound
    exact hon.last
  | Answered rank =>
    rcases hon.writes with hmemory | ⟨at_, hat, hid⟩
    · rw [hthread] at hmemory
      cases hmemory
    · rw [hposition] at hat
      cases hat
      have hturn : agent.answer.call.turnId state rank = .ok turn.id := hid
      dsimp only at hfound
      rw [hturn] at hfound
      cases hfound
      exact ReactLoop.turnOf_mem hlawful hon.mem

omit [StepDrafts D] in
/-- Where a superstep leaves a run on a turn that the thread holds, the run is mirrored. -/
theorem Mirrored.of_on (hlawful : Messages.Lawful C) (hthread : agent.loop.call.thread = some "thread")
    {c : C} {turn : Turn} (hon : agent.loop.OnTurn there.state c turn) (hid : turn.id = key last)
    (hholding : Holding turn.id (Whole turn.shown) held)
    (hfinished : there.spot = .after → Finished turn.id (Whole turn.shown) held) :
    agent.Mirrored key held last there := by
  by_cases hspot : there.spot = .after
  · obtain ⟨spot, state⟩ := there
    cases hspot
    refine .answers fun c' position found hconversation hposition hfound => ?_
    cases hon.conversation.symm.trans hconversation
    rw [answering_on hlawful hthread hon hposition hfound, Turn.answer_shown, ← hid]
    exact ((hfinished rfl).answer).symm
  · refine .writes hspot fun c' turn' hon' => ?_
    cases hon.conversation.symm.trans hon'.conversation
    cases hon.last.symm.trans hon'.last
    exact hholding

/-- A superstep of a run on a turn that the thread holds leaves it so. -/
theorem Mirrored.goes (hlawful : Messages.Lawful C) (hdrafts : StepDrafts.Lawful D)
    (hdocumented : store.Documented threads) (hthreaded : agent.loop.Threaded "thread")
    (hcheck : agent.loop.check = .ok ()) (hclients : ∀ call, clients call → call.Streams D)
    {trigger : Option InputId} (hkey : agent.loop.call.ids trigger = key)
    (hnames : agent.loop.Names "thread" thread trigger here.state) {c : C} {turn : Turn}
    (hon : agent.loop.OnTurn here.state c turn) (halong : agent.loop.Along C turn here.spot)
    {desk after : Desk σ}
    (hmirrored : agent.Mirrored key ((threads desk.store).held thread) last here)
    (hwritten : agent.loop.Written store clients config here desk (some there) after)
    {past : MessageStatus → Prop}
    (hworks : agent.loop.Works "thread" thread trigger key past ((threads after.store).held thread) count
      there) :
    agent.Mirrored key ((threads after.store).held thread) count there := by
  have hstands : here.spot ≠ .after → Stands threads thread (threads desk.store)
      (Holding turn.id (Whole turn.shown)) desk := by
    intro hbefore
    cases hmirrored with
    | writes hbefore' hshown => exact ⟨hshown c turn hon, fun _ _ => rfl⟩
    | answers hanswer => exact absurd rfl hbefore
  have hnext : ∀ c' turn', agent.loop.OnTurn there.state c' turn' →
      Holding turn'.id (Whole turn'.shown) ((threads after.store).held thread) →
      (there.spot = .after → Finished turn'.id (Whole turn'.shown) ((threads after.store).held thread)) →
      agent.Mirrored key ((threads after.store).held thread) count there :=
    fun c' turn' hon' => .of_on hlawful hthreaded.thread hon'
      (ReactLoop.Works.on_id hlawful hthreaded.thread hkey hworks hon').1
  cases hwritten with
  | @replies state next call updates route desk after hclient hwrote happlied hgoes =>
    cases halong with
    | step hawaits =>
      have hstreamed : Holds (Stands threads thread (threads desk.store) (Holding turn.id (Whole turn.shown)))
          (agent.loop.streamReply ⟨store, thread, turn.id⟩ false call) _ _ :=
        streamReply_holding hdrafts hdocumented (hclients call hclient)
      have hholds := ReactLoop.callModel_stands hthreaded.thread hnames.thread hon.conversation
        (hon.target hlawful hawaits) hstreamed fun _ _ _ => trivial
      obtain ⟨step, hreply, ⟨hholding, hfinished⟩, -⟩ := hholds.done
        (hstands fun heq => by cases heq) hwrote
      obtain ⟨⟨c', -, -, -, -, hon'⟩, -⟩ := hon.reply hlawful hthreaded.wired hawaits hreply happlied
      rw [← Turn.shown_addStep] at hholding hfinished
      exact hnext c' _ hon' hholding fun hspot => hfinished (hon'.ends hlawful rfl hgoes hspot)
  | @answers state next c' turn' given desk after hconversation hlast' hgives' hwrote happlied =>
    cases halong with
    | @tools earlier reply pending hitems hawaits hcovered =>
      cases hon.conversation.symm.trans hconversation
      cases hon.last.symm.trans hlast'
      obtain ⟨hpending, hcalls⟩ := pending_reply hlawful hon.mem hitems hawaits
      have hgives := hgives'.fewer fun _ hkey =>
        List.mem_append_right agent.loop.call.thread.toList hkey
      obtain ⟨⟨c', -, -, -, -, hon'⟩, -⟩ := hon.answers hlawful hthreaded.wired hcheck
        (hpending ▸ hcalls) hcovered hgives happlied
      have hsome := hgives'.results_ne hcheck hcovered (hpending ▸ hcalls)
      have hholds : Holds (Stands threads thread (threads desk.store) (Holding turn.id (Whole turn.shown)))
          (agent.loop.writeRound store state turn (resultsOf given)) _ _ :=
        writeRound_holding hdrafts hdocumented hthreaded.thread hnames.thread hsome
      obtain ⟨hholding, -⟩ := hholds.done (hstands fun heq => by cases heq) hwrote
      rw [← Turn.shown_withResults hitems hsome, ← Turn.withResults_id turn
        (resultsOf given)] at hholding
      exact hnext c' _ hon' hholding fun hspot => by cases hspot
  | @limits state next node updates desk after hlimit hwrote happlied =>
    cases halong with
    | @limit earlier reply pending hitems hawaits =>
      obtain ⟨hpending, hcalls⟩ := pending_reply hlawful hon.mem hitems hawaits
      obtain ⟨max, hmax⟩ := ReactLoop.run_resolves (ReactLoop.refuse_run hwrote)
      obtain ⟨hlimitKey, hauthor⟩ := ReactLoop.limitNode_key hlimit
      have hholds : Holds (Stands threads thread (threads desk.store) (Holding turn.id (Whole turn.shown)))
          (node.refuse store (some "thread") config state) _ _ :=
        refuse_holding hlawful hdrafts hdocumented hnames.thread (hlimitKey ▸ hon.conversation)
          (hauthor ▸ hon.last) (hpending ▸ hcalls) hmax hitems
      rw [hthreaded.thread] at hwrote
      obtain ⟨⟨hholding, hfinished⟩, -⟩ := hholds.done (hstands fun heq => by cases heq) hwrote
      obtain ⟨⟨c', -, -, -, -, hon'⟩, -⟩ :=
        hon.limited hlawful hthreaded.wired hlimit hmax (ReactLoop.refuse_run hwrote) happlied
      rw [← ReactLoop.limited_id node max turn (turn.pending C)] at hholding hfinished
      refine hnext c' _ hon' hholding fun hspot => hfinished ?_
      cases hends : node.ends with
      | true => rfl
      | false =>
        rw [hends] at hspot
        cases hspot

/-- A superstep of a run is mirrored where the one before was. -/
theorem Mirrored.step (hlawful : Messages.Lawful C) (hdrafts : StepDrafts.Lawful D)
    (hdocumented : store.Documented threads) (hthreaded : agent.loop.Threaded "thread")
    (hcheck : agent.loop.check = .ok ()) (hclients : ∀ call, clients call → call.Streams D)
    {trigger : Option InputId} (hkey : agent.loop.call.ids trigger = key) {past : MessageStatus → Prop}
    {desk after : Desk σ}
    (hcalled : CallHeld key past inputs ((threads desk.store).held thread) last)
    (hbefore : agent.loop.Works "thread" thread trigger key past ((threads desk.store).held thread) last here)
    (hmirrored : agent.Mirrored key ((threads desk.store).held thread) last here)
    (hwritten : agent.loop.Written store clients config here desk (some there) after)
    (hworks : agent.loop.Works "thread" thread trigger key past ((threads after.store).held thread) count
      there) :
    agent.Mirrored key ((threads after.store).held thread) count there := by
  cases hbefore.working with
  | going hon' halong hid' hpos hcompleted =>
    exact hmirrored.goes hlawful hdrafts hdocumented hthreaded hcheck hclients hkey hbefore.names
      hon' halong
      hwritten hworks
  | answered hconversation hposition hpos hcompleted => cases hwritten
  | @fresh asked c hconversation hposition hunheld hended =>
    have hid : agent.loop.call.turnId asked (last + 1) = .ok (key (last + 1)) := by
      unfold AgentCall.turnId
      rw [hbefore.names.trigger, ← hkey]
    have htarget := agent.loop.target_fresh hthreaded.thread hposition hid hunheld
    cases hwritten with
    | @replies state next call updates route desk after hclient hwrote happlied hgoes =>
      have hstreamed : Holds
          (Stands threads thread (threads desk.store) fun held => held (key (last + 1)) = none)
          (agent.loop.streamReply ⟨store, thread, key (last + 1)⟩ true call) _ _ :=
        streamReply_begins hdrafts hdocumented (hclients call hclient)
      have hholds := ReactLoop.callModel_stands hthreaded.thread hbefore.names.thread hconversation
        htarget
        hstreamed fun _ _ _ => trivial
      obtain ⟨step, hreply, ⟨hholding, hfinished⟩, -⟩ :=
        hholds.done ⟨hcalled.ranked.none_of_lt (Nat.lt_succ_self last), fun _ _ => rfl⟩ hwrote
      obtain ⟨⟨c', -, hon⟩, -⟩ :=
        agent.loop.reply_opens hlawful hthreaded.wired hconversation htarget hreply happlied
      refine .of_on hlawful hthreaded.thread hon
        (ReactLoop.Works.on_id hlawful hthreaded.thread hkey hworks hon).1 hholding fun hspot => hfinished ?_
      exact hon.ends hlawful (List.nil_append _).symm hgoes hspot

omit [StepDrafts D] in
/-- What the node that answers puts in the state. -/
theorem answer_run (hcheck : agent.check = .ok ()) {state next : State C} {updates : List (Update C)}
    (hran : agent.answer.run config state = .ok updates) (happlied : state.applyBatch updates = .ok next) :
    ∃ c position turn, state.conversation agent.loop.key = .ok c ∧
      agent.loop.call.positionOf state = .ok position ∧
      agent.answer.answering state c position = .ok turn ∧
      next.str "answer" = .ok (AnswerNode.answerOf turn) := by
  have hflag : ∀ {position turn} {flag : List (Update C)},
      agent.answer.flagOf config position turn = .ok flag → ∀ update ∈ flag, update.key ≠ "answer" := by
    intro position turn flag hflagged update hupdate
    unfold AnswerNode.flagOf at hflagged
    split at hflagged
    · split at hflagged
      · cases hflagged
        cases hupdate
      · rename_i key limit hkey
        split at hflagged
        · cases hflagged
        · cases hflagged
          split at hupdate
          · rw [List.mem_singleton.mp hupdate]
            obtain ⟨found, hlimit, hfound⟩ := Option.bind_eq_some_iff.mp hkey
            obtain ⟨name, hname, hpair⟩ := Option.map_eq_some_iff.mp hfound
            cases hpair
            have hnames := check_flag hcheck (by rw [hlimit]; exact hname)
            intro heq
            have hkeyed : key = "answer" := heq
            rw [hkeyed] at hnames
            exact hnames List.mem_cons_self
          · cases hupdate
    · cases hflagged
      cases hupdate
  unfold AnswerNode.run at hran
  split at hran
  · cases hran
  · rename_i c hconversation
    split at hran
    · cases hran
    · rename_i position hposition
      split at hran
      · cases hran
      · rename_i turn hturn
        split at hran
        · cases hran
        · rename_i flag hflagged
          cases hran
          obtain ⟨middle, hfirst, hrest⟩ := Lib.foldlM_cons_ok.mp (applyBatch_all happlied)
          refine ⟨c, position, turn, hconversation, hposition, hturn, ?_⟩
          rw [(applyAll_same (hflag hflagged) hrest).str]
          exact setStr_ok hfirst

/-- What a run of a call has told: its turn as the thread holds it, or the answer of a completed one. -/
inductive Told (agent : ReactAgent) (inputs : List UserInput) (held : Held D) (last : Nat) : Site C → Prop
  | start {state : State C} : Told agent inputs held last (.start state)
  | stopped : Told agent inputs held last .stopped
  | on {here : ReactLoop.Standing C} (hmirrored : agent.Mirrored (agent.key inputs) held last here) :
      Told agent inputs held last (.on here)
  | answered {state : State C} (hpos : 0 < last)
    (hcompleted : held.status (agent.key inputs last) = .Completed)
      (hanswer : state.str "answer" = .ok (held.answer (agent.key inputs last))) :
      Told agent inputs held last (.answered state)

/-- Where an entry leaves a run. -/
theorem Mirrored.of_found (hlawful : Messages.Lawful C) (hdurable : agent.durable = true) {next : State C}
    {entered : Entered C} {before : Held D}
    (hfound : Found (agent.key inputs) inputs before last entered held)
    (hcalled : CallHeld (agent.key inputs) MessageStatus.Incomplete inputs held last)
    (hconversed : next.conversation agent.loop.key = .ok entered.conversation)
    (hposition : agent.loop.call.positionOf next = .ok entered.position)
    (htrigger : agent.loop.call.trigger next = .ok (inputs.getLast?.map UserInput.id)) {spot : Spot}
    (hgoes : agent.enter.edge agent.bounds config next = .ok spot) :
    agent.Mirrored (agent.key inputs) held last ⟨spot, next⟩ := by
  have hthread : agent.loop.call.thread = some "thread" := if_pos hdurable
  have hid : ∀ rank, agent.loop.call.turnId next rank = .ok (agent.key inputs rank) := by
    intro rank
    unfold AgentCall.turnId
    rw [htrigger]
    rfl
  have hedge : agent.enter.call.positionOf next = .ok entered.position := hposition
  unfold EnterNode.edge at hgoes
  split at hgoes
  · cases hgoes
  · rw [hedge] at hgoes
    rcases hfound.position hcalled fun _ => incomplete_of with ⟨hat, -⟩ | ⟨hat, hpos, -⟩
    · rw [hat] at hgoes hposition
      cases hgoes
      have hnone : turnOf entered.conversation (agent.key inputs (last + 1)) = none := by
        rw [hfound.conversation _ (Nat.succ_pos last), hcalled.ranked.none_of_lt (Nat.lt_succ_self last)]
        rfl
      refine .writes (fun heq => by cases heq) fun c turn hon => ?_
      exact absurd hon (OnTurn.not_fresh hlawful hthread (hid _) hposition hconversed hnone)
    · rw [hat] at hgoes hposition
      cases hgoes
      refine .answers fun c position turn hconversation hfoundAt hturn => ?_
      cases hconversed.symm.trans hconversation
      cases hposition.symm.trans hfoundAt
      have hanswering : agent.answer.call.turnId next last = .ok (agent.key inputs last) := hid last
      unfold AnswerNode.answering at hturn
      dsimp only at hturn
      rw [hanswering] at hturn
      cases hturn
      rw [hfound.conversation _ hpos]
      rfl

theorem Told.left (hlawful : Messages.Lawful C) (hdurable : agent.durable = true) {write : Write}
    (hbesides : write.Besides (agent.key inputs)) (hleft : Left held write next) {site : Site C}
    (hstood : agent.Stood inputs thread held last site) (htold : agent.Told inputs held last site) :
    agent.Told inputs next last site := by
  have hanswer : held.status (agent.key inputs last) = .Completed →
      next.answer (agent.key inputs last) = held.answer (agent.key inputs last) := by
    intro hcompleted
    unfold Held.answer
    rw [hleft.forward.kept hcompleted]
  cases htold with
  | start => exact .start
  | stopped => exact .stopped
  | answered hpos' hcompleted' hanswer' =>
    refine .answered hpos' (hleft.completed hcompleted') ?_
    rw [hanswer', hanswer hcompleted']
  | on hmirrored =>
    cases hstood with
    | on hentered hworks =>
      refine .on ?_
      cases hmirrored with
      | writes hbefore hturn' =>
        refine .writes hbefore fun c found hon => ?_
        obtain ⟨hid, hpos⟩ := hworks.on_id hlawful (if_pos hdurable) rfl hon
        have hholding := hturn' c found hon
        rw [hid] at hholding ⊢
        exact hholding.beside hbesides hleft hpos
      | answers hanswer' =>
        refine .answers fun c position turn hconversation hposition hturn => ?_
        rw [hanswer' c position turn hconversation hposition hturn, hanswer hworks.completed.2]

/-- What a superstep of a run leaves told. -/
theorem Takes.tells (hlawful : Messages.Lawful C) (hdrafts : StepDrafts.Lawful D)
    (hdocumented : store.Documented threads) (hdurable : agent.durable = true)
    (hcheck : agent.check = .ok ()) (hclients : ∀ call, clients call → call.Streams D)
    (hapart : Apart (agent.key inputs) inputs) {site there : Site C} {desk after : Desk σ}
    (hcalled : CallHeld (agent.key inputs) MessageStatus.Incomplete inputs
      ((threads desk.store).held thread) last)
    (hstood : agent.Stood inputs thread ((threads desk.store).held thread) last site)
    (htold : agent.Told inputs ((threads desk.store).held thread) last site)
    (htakes : agent.Takes store clients config site desk there after)
    (hleaves : agent.Leaves inputs thread (threads desk.store) (threads after.store) count there) :
    agent.Told inputs ((threads after.store).held thread) count there := by
  cases htakes with
  | unentered hwrote => exact .stopped
  | fails hwritten => exact .stopped
  | enters hwrote happlied hgoes =>
    cases hstood with
    | start hstarts =>
      obtain ⟨entered, hfound, -, hconversed, hposition, hnames⟩ :=
        hstarts.entered hlawful hdocumented hdurable hapart hcalled hwrote happlied
      have hafter := hfound.leaves.called hapart (.inl rfl) hcalled
      obtain rfl := hleaves.called.ranked.last_unique hafter.ranked
      exact .on (.of_found hlawful hdurable hfound hafter hconversed hposition hnames.trigger hgoes)
  | goesOn hwritten =>
    obtain ⟨hthreaded, hloop⟩ := threaded hdurable hcheck
    cases hstood with
    | on hentered hworks =>
      cases htold with
      | on hmirrored =>
        have hthere := hleaves.stood
        cases hthere with
        | on hstays hgoes =>
          exact .on (hmirrored.step hlawful hdrafts hdocumented hthreaded hloop hclients rfl hcalled
            hworks
            hwritten hgoes)
  | answers hran happlied =>
    obtain rfl := hleaves.called.ranked.last_unique hcalled.ranked
    cases hstood with
    | on hentered hworks =>
      obtain ⟨hpos, hcompleted⟩ := hworks.completed
      cases htold with
      | on hmirrored =>
        cases hmirrored with
        | writes hbefore hturn' => exact absurd rfl hbefore
        | answers hanswer =>
          obtain ⟨c, position, turn, hconversation, hposition, hturn, hput⟩ :=
            answer_run hcheck hran happlied
          refine .answered hpos hcompleted ?_
          rw [hput, hanswer c position turn hconversation hposition hturn]

/-- What the runs of a call have told, whatever has happened to it. -/
theorem Life.tells (hlawful : Messages.Lawful C) (hdrafts : StepDrafts.Lawful D)
    (hdocumented : store.Documented threads) (hdurable : agent.durable = true)
    (hcheck : agent.check = .ok ()) (hclients : ∀ call, clients call → call.Streams D)
    (hapart : Apart (agent.key inputs) inputs) {first late : Moment C σ}
    (hcalled : CallHeld (agent.key inputs) MessageStatus.Incomplete inputs
      ((threads first.host).held thread) count)
    (hstood : agent.Stood inputs thread ((threads first.host).held thread) count first.site)
    (htold : agent.Told inputs ((threads first.host).held thread) count first.site)
    (hlife : agent.Life store clients threads inputs thread first late) :
    ∃ last, CallHeld (agent.key inputs) MessageStatus.Incomplete inputs
        ((threads late.host).held thread) last ∧
      agent.Stood inputs thread ((threads late.host).held thread) last late.site ∧
      agent.Told inputs ((threads late.host).held thread) last late.site := by
  induction hlife with
  | refl => exact ⟨count, hcalled, hstood, htold⟩
  | tail _ hhappens hind =>
    obtain ⟨early, hearly, hthere, htells⟩ := hind
    cases hhappens with
    | invoked hstarts => exact ⟨early, hearly, .start hstarts, .start⟩
    | taken htakes =>
      obtain ⟨last, hleaves⟩ := htakes.leaves hlawful hdocumented hdurable hcheck hapart hearly hthere
      exact ⟨last, hleaves.called, hleaves.stood,
        htakes.tells hlawful hdrafts hdocumented hdurable hcheck
        hclients hapart hearly hthere htells hleaves⟩
    | @written site host after id write hbesides hwrote =>
      obtain ⟨hlater, hstays, -⟩ := hthere.beside hbesides hwrote hearly
      refine ⟨early, hlater, hstays, ?_⟩
      by_cases hid : id = thread
      · subst hid
        have hleft := ((threads host).write_held id write).1
        rw [← hwrote] at hleft
        exact htells.left hlawful hdurable (hbesides rfl) hleft hthere
      · have hsame : (threads after).held thread = (threads host).held thread := by
          rw [hwrote]
          exact (threads host).held_other (Ne.symm hid) write
        dsimp only
        rw [hsame]
        exact htells

/-- A run of a call that has completed goes from its entry to its answer. -/
inductive Settled : Site C → Prop
  | start {state : State C} : Settled (.start state)
  | on {state : State C} : Settled (.on ⟨.after, state⟩)
  | answered {state : State C} : Settled (.answered state)
  | stopped : Settled .stopped

/-- A superstep of a run of a call that has completed writes nothing. -/
theorem Takes.settles (hlawful : Messages.Lawful C) (hdocumented : store.Documented threads)
    (hdurable : agent.durable = true) (hapart : Apart (agent.key inputs) inputs) {site there : Site C}
    {desk after : Desk σ}
    (hcalled : CallHeld (agent.key inputs) MessageStatus.Incomplete inputs
      ((threads desk.store).held thread) last) (hpos : 0 < last)
    (hcompleted : ((threads desk.store).held thread).status (agent.key inputs last) = .Completed)
    (hstood : agent.Stood inputs thread ((threads desk.store).held thread) last site)
    (hsettled : Settled site) (htakes : agent.Takes store clients config site desk there after) :
    Settled there ∧ (threads after.store).held thread = (threads desk.store).held thread := by
  cases htakes with
  | answers hran happlied => exact ⟨.answered, rfl⟩
  | goesOn hwritten =>
    cases hsettled with
    | on => cases hwritten
  | fails hwritten =>
    cases hsettled with
    | on => cases hwritten
  | unentered hwrote =>
    cases hstood with
    | start hstarts =>
      obtain ⟨hleaves, -⟩ := hstarts.leaves hlawful hdocumented hdurable hapart hcalled hwrote
      exact ⟨.stopped, hleaves.completed hapart hcalled hpos hcompleted⟩
  | @enters state next updates spot desk after hwrote happlied hgoes =>
    cases hstood with
    | start hstarts =>
      obtain ⟨entered, hfound, -, -, hposition, -⟩ :=
        hstarts.entered hlawful hdocumented hdurable hapart hcalled hwrote happlied
      have hsame := hfound.leaves.completed hapart hcalled hpos hcompleted
      have hafter := hfound.leaves.called hapart (.inl rfl) hcalled
      refine ⟨?_, hsame⟩
      have hedge : agent.enter.call.positionOf next = .ok entered.position := hposition
      unfold EnterNode.edge at hgoes
      split at hgoes
      · cases hgoes
      · rw [hedge] at hgoes
        rcases hfound.position hafter fun _ => incomplete_of with ⟨-, hpast⟩ | ⟨hat, -⟩
        · obtain ⟨message, hheld, hmessage⟩ := status_some hcompleted fun heq => by cases heq
          have hpast := hpast hpos message (by rw [hsame]; exact hheld)
          rw [hmessage] at hpast
          rcases hpast with hstatus | hstatus <;> cases hstatus
        · rw [hat] at hgoes
          cases hgoes
          exact .on

/-- A call that has completed stays so, whatever happens to it. -/
theorem Life.settles (hlawful : Messages.Lawful C) (hdocumented : store.Documented threads)
    (hdurable : agent.durable = true) (hcheck : agent.check = .ok ())
    (hapart : Apart (agent.key inputs) inputs) {first late : Moment C σ}
    (hcalled : CallHeld (agent.key inputs) MessageStatus.Incomplete inputs
      ((threads first.host).held thread) last) (hpos : 0 < last)
    (hcompleted : ((threads first.host).held thread).status (agent.key inputs last) = .Completed)
    (hstood : agent.Stood inputs thread ((threads first.host).held thread) last first.site)
    (hsettled : Settled first.site) (hlife : agent.Life store clients threads inputs thread first late) :
    CallHeld (agent.key inputs) MessageStatus.Incomplete inputs ((threads late.host).held thread) last ∧
      agent.Stood inputs thread ((threads late.host).held thread) last late.site ∧ Settled late.site ∧
      (threads late.host).held thread (agent.key inputs last) =
        (threads first.host).held thread (agent.key inputs last) := by
  induction hlife with
  | refl => exact ⟨hcalled, hstood, hsettled, rfl⟩
  | tail _ hhappens hind =>
    obtain ⟨hearly, hthere, hstays, hsame⟩ := hind
    have hstatus : ∀ held : Held D, held (agent.key inputs last) =
        (threads first.host).held thread (agent.key inputs last) →
        held.status (agent.key inputs last) = .Completed := by
      intro held heq
      rw [← hcompleted]
      unfold Held.status
      rw [heq]
    cases hhappens with
    | invoked hstarts => exact ⟨hearly, .start hstarts, .start, hsame⟩
    | taken htakes =>
      obtain ⟨count, hleaves⟩ := htakes.leaves hlawful hdocumented hdurable hcheck hapart hearly hthere
      obtain ⟨hgoes, hunchanged⟩ :=
        htakes.settles hlawful hdocumented hdurable hapart hearly hpos (hstatus _ hsame) hthere hstays
      have hcount := hleaves.called
      rw [hunchanged] at hcount
      obtain rfl := hcount.ranked.last_unique hearly.ranked
      refine ⟨hleaves.called, hleaves.stood, hgoes, ?_⟩
      dsimp only
      rw [hunchanged]
      exact hsame
    | written hbesides hwrote =>
      obtain ⟨hlater, hstill, hforward⟩ := hthere.beside hbesides hwrote hearly
      exact ⟨hlater, hstill, hstays, (hforward.kept (hstatus _ hsame)).trans hsame⟩

/-- A call that has answered is answered again from its thread: whatever becomes of its later runs, a run
that answers gives the same answer, that of the completed turn, and no superstep of a later run writes
anything. -/
theorem answers_again (hlawful : Messages.Lawful C) (hdrafts : StepDrafts.Lawful D)
    (hdocumented : store.Documented threads) (agent : ReactAgent) (hdurable : agent.durable = true)
    (hcheck : agent.check = .ok ()) (hclients : ∀ call, clients call → call.Streams D)
    (hapart : Apart (agent.key inputs) inputs) {first middle late : Moment C σ}
    (hbegins : first.site = .stopped)
    (hnone : ∀ rank, 0 < rank → (threads first.host).held thread (agent.key inputs rank) = none)
    (hearlier : agent.Life store clients threads inputs thread first middle) {state : State C}
    (hanswered : middle.site = .answered state)
    (hlater : agent.Life store clients threads inputs thread middle late) :
    ∃ rank, 0 < rank ∧
      ((threads late.host).held thread).status (agent.key inputs rank) = .Completed ∧
      state.str "answer" = .ok (((threads late.host).held thread).answer (agent.key inputs rank)) ∧
      (∀ again, late.site = .answered again → again.str "answer" = state.str "answer") ∧
      ∀ config next left after, agent.Takes store clients config late.site ⟨late.host, left⟩ next after →
        (threads after.store).held thread = (threads late.host).held thread ∧
        ∀ other, other ≠ thread → threads after.store other = threads late.host other := by
  have hstart : CallHeld (agent.key inputs) MessageStatus.Incomplete inputs
      ((threads first.host).held thread) 0 := CallHeld.none hnone
  have hbefore : agent.Stood inputs thread ((threads first.host).held thread) 0 first.site ∧
      agent.Told inputs ((threads first.host).held thread) 0 first.site := by
    rw [hbegins]
    exact ⟨.stopped, .stopped⟩
  obtain ⟨rank, hcalled, hstood, htold⟩ := Life.tells hlawful hdrafts hdocumented hdurable hcheck hclients
    hapart hstart hbefore.1 hbefore.2 hearlier
  rw [hanswered] at htold
  cases htold with
  | answered hpos hcompleted' hanswer' =>
    have hsettled : Settled middle.site := by
      rw [hanswered]
      exact .answered
    obtain ⟨hlate, hthere, hgoes, hsame⟩ := Life.settles hlawful hdocumented hdurable hcheck hapart hcalled
      hpos hcompleted' hstood hsettled hlater
    have hcompleted : ((threads late.host).held thread).status (agent.key inputs rank) = .Completed := by
      unfold Held.status
      rw [hsame]
      exact hcompleted'
    have hanswer : state.str "answer" =
        .ok (((threads late.host).held thread).answer (agent.key inputs rank)) := by
      rw [hanswer']
      unfold Held.answer
      rw [hsame]
    refine ⟨rank, hpos, hcompleted, hanswer, fun again hagain => ?_, ?_⟩
    · obtain ⟨last, hlast, -, htells⟩ := Life.tells hlawful hdrafts hdocumented hdurable hcheck hclients
        hapart hstart hbefore.1 hbefore.2 (hearlier.trans hlater)
      obtain rfl := hlate.ranked.last_unique hlast.ranked
      rw [hagain] at htells
      cases htells with
      | answered hpos hcompleted' hanswer' => rw [hanswer', hanswer]
    · intro config next left after htakes
      obtain ⟨count, hleaves⟩ := htakes.leaves hlawful hdocumented hdurable hcheck hapart hlate hthere
      exact ⟨(htakes.settles hlawful hdocumented hdurable hapart hlate hpos hcompleted hthere hgoes).2,
        hleaves.others⟩

end ReactAgent

end Agents

namespace Rerun

/-- A client that streams the step that it replies with. -/
def answering : ModelCall :=
  ⟨textStepEvents "found" .EndTurn, .ok ⟨[.Text "found"], .EndTurn, some "model", none⟩⟩

theorem answering_streams : answering.Streams PlainDraft := by
  intro step hreply
  cases hreply
  refine ⟨⟨[.BlockStart 0 .Text, .TextDelta 0 "found", .BlockEnd 0], .Finish .EndTurn none, rfl, rfl, ?_⟩, ?_⟩
  · decide
  · intro folded hfolded
    cases hfolded
    rfl

/-- What the model call of a run writes, and leaves of its state. -/
def replying :
    Lib.Ended (Halt PlainMessages) (List (Update PlainMessages)) × Desk (TestStore PlainDraft) :=
  agent.loop.callModel store answering (entered host) ⟨begun, 10⟩

def replied : State PlainMessages :=
  (((entered host).applyBatch ((updatesOf replying.1).getD [])).toOption).getD asked

/-- The state that an answer leaves. -/
def spoken (state : State PlainMessages) : State PlainMessages :=
  ((state.applyBatch ((agent.answer.run config state).toOption.getD [])).toOption).getD state

theorem speaks {clients : ModelCall → Prop} {state : State PlainMessages} {desk : Desk (TestStore PlainDraft)}
    (hran : (agent.answer.run config state).toOption.isSome = true)
    (happlied : (state.applyBatch ((agent.answer.run config state).toOption.getD [])).toOption.isSome = true) :
    agent.Takes store clients config (.on ⟨.after, state⟩) desk (.answered (spoken state)) desk := by
  obtain ⟨updates, hupdates⟩ := Option.isSome_iff_exists.mp hran
  have hspoken : spoken state = (state.applyBatch updates).toOption.getD state := by
    unfold spoken
    rw [hupdates]
    rfl
  rw [hupdates] at happlied
  rw [hspoken]
  exact .answers (eq_ok hupdates) (applies happlied)

def answered : Moment PlainMessages (TestStore PlainDraft) := ⟨.answered (spoken replied), replying.2.store⟩

def again : Moment PlainMessages (TestStore PlainDraft) :=
  ⟨.answered (spoken (entered replying.2.store)), (entry replying.2.store).2.store⟩

theorem answers : agent.Life store (Eq answering) TestStore.threads inputs thread first answered := by
  have henters : agent.Takes store (Eq answering) config (.start asked) ⟨host, 10⟩
      (.on ⟨.llm, entered host⟩) (entry host).2 :=
    enters (by decide +kernel) (by decide +kernel) (by decide +kernel)
  have hgoes : agent.loop.llmEdge config replied = .ok .After := eq_ok (by decide +kernel)
  have hreplies : agent.Takes store (Eq answering) config (.on ⟨.llm, entered host⟩) ⟨begun, 10⟩
      (.on ⟨.after, replied⟩) replying.2 :=
    .goesOn (.replies rfl (gives (by decide +kernel)) (applies (by decide +kernel)) hgoes)
  have hspeaks : agent.Takes store (Eq answering) config (.on ⟨.after, replied⟩) replying.2
      (.answered (spoken replied)) replying.2 := speaks (by decide +kernel) (by decide +kernel)
  exact (((Relation.ReflTransGen.single (.invoked starts)).tail (happens henters)).tail
    (.taken hreplies)).tail (happens hspeaks)

theorem answers_later :
    agent.Life store (Eq answering) TestStore.threads inputs thread answered again := by
  have henters : agent.Takes store (Eq answering) config (.start asked) ⟨replying.2.store, 10⟩
      (.on ⟨.after, entered replying.2.store⟩) (entry replying.2.store).2 :=
    enters (by decide +kernel) (by decide +kernel) (by decide +kernel)
  have hspeaks : agent.Takes store (Eq answering) config (.on ⟨.after, entered replying.2.store⟩)
      (entry replying.2.store).2 (.answered (spoken (entered replying.2.store)))
      (entry replying.2.store).2 := speaks (by decide +kernel) (by decide +kernel)
  exact ((Relation.ReflTransGen.single (.invoked starts)).tail (.taken henters)).tail (happens hspeaks)

end Rerun

theorem ReactAgent.answers_again_rerun :
    ((Rerun.spoken Rerun.replied).str "answer").toOption = some "found" ∧
      (Rerun.spoken (Rerun.entered Rerun.replying.2.store)).str "answer" =
        (Rerun.spoken Rerun.replied).str "answer" := by
  obtain ⟨rank, -, -, -, hagain, -⟩ :=
    ReactAgent.answers_again PlainMessages.lawful PlainDraft.lawful
      (TestStore.documented PlainMessages.lawful rfl) Rerun.agent rfl rfl
      (by rintro call rfl; exact Rerun.answering_streams) Rerun.apart rfl (fun rank _ => rfl)
      Rerun.answers rfl Rerun.answers_later
  exact ⟨by decide +kernel, hagain _ rfl⟩

end LlmGraph.React
