/- digest: A superstep of tool nodes that all give back their updates: one result for each pending call,
   and one list of results in the thread and in the conversation. -/

import LlmGraph.React.Partition
import LlmGraph.React.ToolRuns
import LlmGraph.React.Turns

set_option autoImplicit false
set_option relaxedAutoImplicit false

namespace LlmGraph.React

open Lib (foldlM_cons_ok)
open Superstep (State Key Update)

variable {C : Type} [Messages C]

section Rounds

variable {loop : ReactLoop} {calls : List ToolCall} {keys : List Key}
  {given : List (List (ToolResult × List (Update C)))}

/-- The identity and the tool of a call, which its result bears too. -/
def ToolCall.named (call : ToolCall) : ToolCallId × ToolName := (call.id, call.name)

def ToolResult.named (result : ToolResult) : ToolCallId × ToolName :=
  (result.toolCallId, result.name)

/-- What the tool nodes of a loop give for some calls: each node a result for each call of its share,
in call order, and no change of the keys. -/
structure ReactLoop.Gives (loop : ReactLoop) (calls : List ToolCall) (keys : List Key)
    (given : List (List (ToolResult × List (Update C)))) : Prop where
  named : given.map (fun own => own.map fun answer => answer.1.named) =
    (loop.shares calls).map fun share => share.map ToolCall.named
  spares : ∀ own ∈ given, ∀ answer ∈ own, Spares keys answer.2

/-- The results that the tool nodes give, in node order. -/
def resultsOf (given : List (List (ToolResult × List (Update C)))) : List ToolResult :=
  given.flatten.map Prod.fst

/-- The batches of updates that the tool nodes give, in node order. -/
def ReactLoop.batches (loop : ReactLoop) (turn : TurnId)
    (given : List (List (ToolResult × List (Update C)))) : List (List (Update C)) :=
  given.map (ToolNode.updates ⟨loop.key, loop.author, [], loop.enabled⟩ turn)

/-- Every call has one result, and no other call has any. -/
theorem ReactLoop.Gives.perm (hgives : loop.Gives calls keys given) (hcheck : loop.check = .ok ())
    (hcovered : ∀ call ∈ calls, call.name ∈ loop.covered) :
    ((resultsOf given).map ToolResult.named).Perm (calls.map ToolCall.named) := by
  have hnamed : (resultsOf given).map ToolResult.named =
      (loop.shares calls).flatten.map ToolCall.named := by
    have hflat := congrArg List.flatten hgives.named
    rw [← List.map_flatten, ← List.map_flatten] at hflat
    rw [← hflat, resultsOf, List.map_map]
    rfl
  rw [hnamed]
  exact (loop.shares_flatten hcheck hcovered).map _

theorem ReactLoop.Gives.results_ne (hgives : loop.Gives calls keys given) (hcheck : loop.check = .ok ())
    (hcovered : ∀ call ∈ calls, call.name ∈ loop.covered) (hcalls : calls ≠ []) :
    resultsOf given ≠ [] := by
  intro hnone
  have hperm := hgives.perm hcheck hcovered
  rw [hnone] at hperm
  exact hcalls (List.map_eq_nil_iff.mp hperm.symm.eq_nil)

/-- The results go to the turn, those of each node in the order of the nodes. -/
theorem ReactLoop.batches_ok (hlawful : Messages.Lawful C) {state next : State C} {c : C}
    {front back : List Entry} {turn : Turn} (hconversation : state.conversation loop.key = .ok c)
    (hentries : entries c = front ++ .Turn turn :: back)
    (hspared : ∀ own ∈ given, ∀ answer ∈ own, Spares [loop.key] answer.2)
    (happlied : (loop.batches turn.id given).foldlM State.applyBatch state = .ok next) :
    ∃ c', next.conversation loop.key = .ok c' ∧
      entries c' = front ++ .Turn (turn.withResults (resultsOf given)) :: back := by
  induction given generalizing state c turn with
  | nil =>
    cases happlied
    exact ⟨c, hconversation, hentries⟩
  | cons own rest ih =>
    obtain ⟨middle, hfirst, hrest⟩ := foldlM_cons_ok.mp happlied
    obtain ⟨c₁, hmiddle, hentries₁⟩ := answers_ok hlawful hconversation hentries
      (hspared own List.mem_cons_self) (applyBatch_all hfirst)
    have hlater := @ih middle c₁ (turn.withResults (own.map Prod.fst)) hmiddle hentries₁
      (fun other hother => hspared other (List.mem_cons_of_mem _ hother))
    rw [Turn.withResults_id] at hlater
    obtain ⟨c₂, hnext, hentries₂⟩ := hlater hrest
    refine ⟨c₂, hnext, ?_⟩
    rw [hentries₂]
    simp [resultsOf, Turn.withResults, List.foldl_append]

/-- What the tool nodes give leaves the other keys alone that the tools spare. -/
theorem ReactLoop.batches_same {state next : State C} {turn : TurnId} {key : Key}
    (hother : loop.key ≠ key) (hspared : ∀ own ∈ given, ∀ answer ∈ own, Spares [key] answer.2)
    (happlied : (loop.batches turn given).foldlM State.applyBatch state = .ok next) :
    Same key state next := by
  induction given generalizing state with
  | nil =>
    cases happlied
    exact .refl key _
  | cons own rest ih =>
    obtain ⟨middle, hfirst, hrest⟩ := foldlM_cons_ok.mp happlied
    have hown := applyBatch_all hfirst
    have hsame : Same key state middle := answers_same hother (hspared own List.mem_cons_self) hown
    exact hsame.trans (ih (fun other hmem => hspared other (List.mem_cons_of_mem _ hmem)) hrest)

/-- A turn whose pending calls have all got a result awaits its next step. -/
theorem Turn.answered_awaits (hlawful : Messages.Lawful C) {c : C} {turn : Turn}
    {results : List ToolResult} (hentry : Entry.Turn turn ∈ entries c)
    (hpending : turn.pending C ≠ [])
    (hnamed : (results.map ToolResult.named).Perm ((turn.pending C).map ToolCall.named)) :
    (turn.withResults results).awaits = .AwaitingStep := by
  have hstate : Messages.state C turn = turn.awaits := hlawful.state turn
  unfold Turn.pending at hpending hnamed
  rw [hstate] at hpending hnamed
  cases hawaits : turn.awaits with
  | AwaitingStep => simp [hawaits] at hpending
  | Finished reason => simp [hawaits] at hpending
  | AwaitingToolResults pending =>
    rw [hawaits] at hpending hnamed
    dsimp only at hpending hnamed
    obtain ⟨reply, so, hreplied, rfl⟩ := Turn.replied_of_awaits hawaits
    have hunique : (turn.toolCalls.map (·.id)).Nodup := by
      have hall := hlawful.unique c
      obtain ⟨front, back, hsplit⟩ := List.append_of_mem hentry
      unfold React.toolCalls at hall
      rw [hsplit, List.flatMap_append, List.flatMap_cons, List.map_append, List.map_append] at hall
      exact (List.nodup_append.mp (List.nodup_append.mp hall).2.1).1
    rw [hreplied.pending hunique] at hpending hnamed
    refine hreplied.awaits_step ?_ fun call hcall => ?_
    · rintro rfl
      exact hpending (by simpa using hnamed.symm.eq_nil)
    · have hmem := hnamed.symm.subset (List.mem_map_of_mem hcall)
      obtain ⟨result, hresult, hsame⟩ := List.mem_map.mp hmem
      exact List.mem_map.mpr ⟨result, hresult, congrArg Prod.fst hsame⟩

/-- What a tool node finds in a state with a turn of the author: the turn and its own share of the
pending calls. -/
private theorem begins_ok {node : ToolNode} {state : State C} {c : C} {turn : Turn}
    {found : Option (Turn × List (ToolCall × Bool))}
    (hconversation : state.conversation node.key = .ok c)
    (hturn : lastTurnByAuthor c node.author = some turn) (hbegins : node.begins state = .ok found) :
    ∃ calls, found = some (turn, calls) ∧
      calls.map Prod.fst = (turn.pending C).filter fun call => node.tools.contains call.name := by
  have hpending : pendingCalls state node.key node.author = .ok (turn.pending C) := by
    unfold pendingCalls
    rw [hconversation]
    dsimp only
    rw [hturn]
  unfold ToolNode.begins at hbegins
  rw [hconversation] at hbegins
  dsimp only at hbegins
  rw [hturn] at hbegins
  dsimp only at hbegins
  split at hbegins
  · cases hbegins
  · rw [hpending] at hbegins
    cases hbegins
    refine ⟨_, rfl, ?_⟩
    rw [List.map_map]
    exact List.map_id _

end Rounds

/-- A round of tool calls in a loop that builds, whatever the order in which its calls start and end
and its nodes close: once every tool node has given back its updates, each pending call has one result
under its own identity, each node those of its share in call order; the thread of a durable agent has
been given the same results in one piece; and the applied updates leave the agent's turn with exactly
these results more, awaiting its next step. -/
theorem round_agrees (hlawful : Messages.Lawful C) (loop : ReactLoop) (hcheck : loop.check = .ok ())
    (state : State C) (c : C) (turn : Turn) (hconversation : state.conversation loop.key = .ok c)
    (hturn : lastTurnByAuthor c loop.author = some turn)
    (hcovered : ∀ call ∈ turn.pending C, call.name ∈ loop.covered) (superstep : Nat)
    (limit : Option Nat) (durable : Bool) (nodes : Nodes)
    (hunseated : nodes.teams superstep = .opening)
    (hunwritten : nodes.writers.rounds superstep = none) (events : List (WorkEvent C))
    (hquiet : Tooling.Quiet [loop.key] events) (work : Work C)
    (hrun : (Tooling.mk loop.nodes state superstep limit durable).run (Tooling.opening nodes) events =
      some work)
    (hgave : ∀ node < loop.toolNodes.length, (work.gave node).isSome = true) :
    ∃ given, loop.Gives (turn.pending C) [loop.key] given ∧
      (∀ node < loop.toolNodes.length, work.gave node = (loop.batches turn.id given)[node]?) ∧
      ((resultsOf given).map ToolResult.named).Perm ((turn.pending C).map ToolCall.named) ∧
      (durable = true → 0 < loop.toolNodes.length →
        (work.nodes.teams superstep).writes = [resultsOf given]) ∧
      ∀ next, (loop.batches turn.id given).foldlM State.applyBatch state = .ok next →
        ∃ c' front back, entries c = front ++ .Turn turn :: back ∧
          next.conversation loop.key = .ok c' ∧
          entries c' = front ++ .Turn (turn.withResults (resultsOf given)) :: back ∧
          (turn.pending C ≠ [] →
            (turn.withResults (resultsOf given)).awaits = .AwaitingStep) ∧
          ∀ earlier reply, turn.items = earlier ++ [.Step reply] → resultsOf given ≠ [] →
            (turn.withResults (resultsOf given)).items =
              turn.items ++ [.ToolResults (resultsOf given)] := by
  have htold := (Tooling.Told.opening hunseated hunwritten).run hrun
  have hquiet_run := Tooling.quiet_run hquiet (fun _ _ _ hheld => (by cases hheld)) hrun
  generalize htooling : Tooling.mk loop.nodes state superstep limit durable = tooling at *
  have hcount : tooling.tools.length = loop.toolNodes.length := by
    rw [← htooling]
    exact List.length_map ..
  have hsuperstep : tooling.superstep = superstep := by rw [← htooling]
  have hstate : tooling.state = state := by rw [← htooling]
  have hdurable : tooling.durable = durable := by rw [← htooling]
  have hcloses : ∀ node < loop.toolNodes.length, ∃ own,
      tooling.closes work node = some (.ok own) ∧
        work.gave node = some (tooling.updatesOf node own) := by
    intro node hin
    obtain ⟨updates, hupdates⟩ := Option.isSome_iff_exists.mp (hgave node hin)
    obtain ⟨own, hown, rfl, -⟩ := htold.gave node updates hupdates
    exact ⟨own, hown, hupdates⟩
  choose! own hown hgiven using hcloses
  -- What each node finds, and what it gives for it.
  have hnode : ∀ node (hin : node < loop.toolNodes.length),
      (own node).map (fun answer => answer.1.named) =
          ((turn.pending C).filter fun call =>
            (loop.toolNodes[node]).2.contains call.name).map ToolCall.named ∧
        tooling.updatesOf node (own node) = ToolNode.updates
          ⟨loop.key, loop.author, [], loop.enabled⟩ turn.id (own node) ∧
        ∀ answer ∈ own node, Spares [loop.key] answer.2 := by
    intro node hin
    have htool : tooling.tools[node]? =
        some ⟨loop.key, loop.author, (loop.toolNodes[node]).2, loop.enabled⟩ := by
      rw [← htooling, ReactLoop.nodes, List.getElem?_map, List.getElem?_eq_getElem hin]
      rfl
    have hbegins : ∃ found, ToolNode.begins
        ⟨loop.key, loop.author, (loop.toolNodes[node]).2, loop.enabled⟩ tooling.state = .ok found := by
      have hown' := hown node hin
      unfold Tooling.closes at hown'
      rw [htool] at hown'
      dsimp only at hown'
      split at hown'
      · cases hown'
      · exact ⟨_, ‹_›⟩
      · exact ⟨_, ‹_›⟩
    obtain ⟨found, hfound⟩ := hbegins
    obtain ⟨calls, rfl, hcalls⟩ := begins_ok (hstate ▸ hconversation) hturn hfound
    obtain ⟨hnamed, hextras⟩ := Tooling.closes_ok htold.steady htool hfound (hown node hin)
    refine ⟨?_, ?_, fun answer hanswer => ?_⟩
    · rw [← hcalls, List.map_map]
      exact hnamed
    · unfold Tooling.updatesOf
      rw [htool]
      dsimp only
      rw [hfound]
      rfl
    · rcases hextras answer hanswer with hnone | ⟨call, output, hran, hsame⟩
      · rw [hnone]
        exact fun _ hmem => by cases hmem
      · rw [hsame]
        exact hquiet_run node call output hran
  have hmember : ∀ answers ∈ (List.range loop.toolNodes.length).map own,
      ∃ node, ∃ _ : node < loop.toolNodes.length, own node = answers := by
    intro answers hanswers
    obtain ⟨node, hrange, hsame⟩ := List.mem_map.mp hanswers
    exact ⟨node, List.mem_range.mp hrange, hsame⟩
  have hgives : loop.Gives (turn.pending C) [loop.key]
      ((List.range loop.toolNodes.length).map own) := by
    refine ⟨List.ext_getElem (by simp [ReactLoop.shares]) fun node hleft hright => ?_, ?_⟩
    · have hin : node < loop.toolNodes.length := by simpa using hleft
      simp only [ReactLoop.shares, Lib.share, List.getElem_map, List.getElem_range]
      exact (hnode node hin).1
    · intro answers hanswers answer hanswer
      obtain ⟨node, hin, rfl⟩ := hmember answers hanswers
      exact (hnode node hin).2.2 answer hanswer
  refine ⟨(List.range loop.toolNodes.length).map own, hgives, fun node hin => ?_,
    hgives.perm hcheck hcovered, fun hholds hsome => ?_, fun next happlied => ?_⟩
  · rw [hgiven node hin, (hnode node hin).2.1]
    simp [ReactLoop.batches, hin]
  · have hall : ∀ node < loop.toolNodes.length,
        (work.nodes.teams superstep).given node = some ((own node).map Prod.fst) := by
      intro node hin
      obtain ⟨found, hfound, -, hsome⟩ := htold.gave node _ (hgiven node hin)
      rw [hsuperstep] at hsome
      obtain ⟨results, hresults⟩ := Option.isSome_iff_exists.mp (hsome (hdurable.trans hholds))
      obtain ⟨same, hsame, rfl⟩ := htold.given node results (hsuperstep.symm ▸ hresults)
      rw [hown node hin] at hsame
      cases hsame
      exact hresults
    rcases htold.written with ⟨node, error, hfailed⟩ | ⟨hsound, -⟩
    · have hin : node < loop.toolNodes.length := by
        rw [← hcount]
        by_contra hout
        unfold Tooling.closes at hfailed
        rw [List.getElem?_eq_none (by omega)] at hfailed
        cases hfailed
      rw [hown node hin] at hfailed
      cases hfailed
    · rw [hsuperstep, hcount] at hsound
      rw [hsound.due hsome, Team.collected_of_given hall, resultsOf, List.map_flatten,
        List.map_map]
      rfl
  · obtain ⟨-, front, back, hentries, -⟩ := lastTurnByAuthor_iff.mp hturn
    obtain ⟨c', hnext, hentries'⟩ :=
      loop.batches_ok hlawful hconversation hentries hgives.spares happlied
    refine ⟨c', front, back, hentries, hnext, hentries', fun hpending => ?_,
      fun earlier reply hitems hsome => ?_⟩
    · have hentry : Entry.Turn turn ∈ entries c :=
        hentries ▸ List.mem_append_right _ List.mem_cons_self
      exact Turn.answered_awaits hlawful hentry hpending (hgives.perm hcheck hcovered)
    · rw [Turn.items_withResults_step hitems hsome, hitems, List.append_assoc]
      rfl

namespace Searching

def author : Author := ⟨"a", "Ann"⟩

def loop : ReactLoop where
  llm := "llm"
  toolNodes := [("search", ["search"]), ("read", ["read"])]
  after := .End "done"
  key := "conversation"
  author := author
  tools := ["search", "read"]
  enabled := none
  toolConcurrency := none
  roundLimit := none
  call := ⟨"opening", "turn_rank", some "thread", none, fun _ rank => s!"t{rank}"⟩

def turn : Turn :=
  .new "t1" (some author) ⟨[.ToolCall ⟨"c1", "read", ""⟩, .ToolCall ⟨"c2", "search", ""⟩],
    .AwaitingToolResults, none, none⟩

def asked : PlainMessages where
  entries := [.UserInput ⟨"u", "find it"⟩, .Turn turn]
  sound := by decide +kernel

def state : State PlainMessages where
  schema := ⟨[("conversation", .conversation)], [], []⟩
  values := fun key => if key = "conversation" then some (.conversation asked) else none

def found : ToolOutput PlainMessages := ⟨[.Text "found"], false, []⟩

/-- The second node ends and closes first, and the first one writes the round. -/
def events : List (WorkEvent PlainMessages) :=
  [.First 0, .First 1, .Start 0 0, .Start 1 0, .Finish 1 0 none (.ok found), .Close 1, .Look 1 7,
    .Finish 0 0 none (.error "gone"), .Close 0, .Written 0 (.ok ()), .Look 1 7, .Look 0 7]

def tooling : Tooling PlainMessages := ⟨loop.nodes, state, 5, none, true⟩

def work : Work PlainMessages :=
  (tooling.run (Tooling.opening .opening) events).get (by decide +kernel)

end Searching

theorem round_agrees_searching :
    ∃ given, Searching.loop.Gives (Searching.turn.pending PlainMessages) ["conversation"] given ∧
      (∀ node < 2, Searching.work.gave node = (Searching.loop.batches "t1" given)[node]?) ∧
      ((resultsOf given).map ToolResult.named).Perm
        ((Searching.turn.pending PlainMessages).map ToolCall.named) ∧
      (Searching.work.nodes.teams 5).writes = [resultsOf given] := by
  obtain ⟨given, hgives, hgave, hperm, hwritten, -⟩ := round_agrees PlainMessages.lawful
    Searching.loop rfl Searching.state Searching.asked Searching.turn rfl (by decide +kernel)
    (by decide +kernel) 5 none true .opening rfl rfl Searching.events
    (by
      intro node call hook output hmem
      simp only [Searching.events, List.mem_cons, reduceCtorEq, WorkEvent.Finish.injEq,
        Except.ok.injEq, and_false, false_or, or_false, List.not_mem_nil] at hmem
      obtain ⟨-, -, -, rfl⟩ := hmem
      exact fun _ hupdate => by cases hupdate)
    Searching.work (Option.some_get _).symm (by decide +kernel)
  exact ⟨given, hgives, hgave, hperm, hwritten rfl (by decide)⟩

end LlmGraph.React
