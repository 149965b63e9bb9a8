/- digest: The tool nodes of a superstep at every moment: a call keeps its answer, what a node gives to
   the round or gives back is what it closed with, and the round is in order unless a node failed. -/

import LlmGraph.React.Applied
import LlmGraph.React.ToolRound

set_option autoImplicit false
set_option relaxedAutoImplicit false

namespace LlmGraph.React

open Superstep (State GraphError Key NodeId Update)
open Contract (Waker Poll)

variable {C : Type} [Messages C]

private theorem mapM_some {α β : Type} {f : α → Option β} {items : List α} {results : List β} :
    items.mapM f = some results ↔ items.map f = results.map some := by
  induction items generalizing results with
  | nil => cases results <;> simp
  | cons head rest ih =>
    rw [List.mapM_cons]
    cases results with
    | nil =>
      cases hhead : f head <;> cases hrest : rest.mapM f <;> simp
    | cons result others =>
      cases hhead : f head with
      | none => simp [hhead]
      | some value =>
        cases hrest : rest.mapM f with
        | none =>
          have hnot : ¬rest.map f = others.map some := fun heq => by
            rw [ih.mpr heq] at hrest
            cases hrest
          simp [hhead, hnot]
        | some values =>
          have hiff : values = others ↔ rest.map f = others.map some := by
            rw [← ih, hrest, Option.some.injEq]
          simp [hhead, ← hiff]

private theorem mapM_stay {α β : Type} {f g : α → Option β} {items : List α} {results : List β}
    (hstay : ∀ item result, f item = some result → g item = some result)
    (hmapped : items.mapM f = some results) : items.mapM g = some results := by
  rw [mapM_some] at hmapped ⊢
  rw [← hmapped]
  refine List.map_congr_left fun item hitem => ?_
  have hmem : f item ∈ results.map some := hmapped ▸ List.mem_map_of_mem hitem
  obtain ⟨result, -, hresult⟩ := List.mem_map.mp hmem
  rw [← hresult, hstay item result hresult.symm]

/-- What a call answered is the call's own, and an answer each unless a call was not started. -/
private theorem answered_ok {pairs : List (ToolCall × Answer C)}
    {results : List (ToolResult × List (Update C))} (hanswered : answered pairs = .ok results) :
    (∀ call error, (call, Answer.HookFailed error) ∉ pairs) ∧
      ((∀ call, (call, Answer.NotStarted) ∉ pairs) →
        results.map (fun result => (result.1.toolCallId, result.1.name)) =
          pairs.map fun pair => (pair.1.id, pair.1.name)) ∧
      ∀ result ∈ results, result.2 = [] ∨ ∃ call output, (call, Answer.Ran (.ok output)) ∈ pairs ∧
        result.2 = output.updates := by
  induction pairs generalizing results with
  | nil =>
    cases hanswered
    exact ⟨fun _ _ hmem => (by cases hmem), fun _ => rfl, fun _ hmem => by cases hmem⟩
  | cons pair rest ih =>
    obtain ⟨call, answer⟩ := pair
    unfold answered at hanswered
    split at hanswered
    · cases hanswered
    · rename_i own hown
      split at hanswered
      · cases hanswered
      · rename_i others hothers
        cases hanswered
        obtain ⟨hhooks, hcalls, hextras⟩ := ih hothers
        refine ⟨fun other error hmem => ?_, fun hstarted => ?_, fun result hmem => ?_⟩
        · rcases List.mem_cons.mp hmem with heq | hrest
          · cases heq
            cases hown
          · exact hhooks other error hrest
        · rw [List.map_append, List.map_cons,
            hcalls fun other hmem => hstarted other (List.mem_cons_of_mem _ hmem)]
          cases answer with
          | NotStarted => exact absurd List.mem_cons_self (hstarted call)
          | HookFailed error => cases hown
          | NotEnabled =>
            cases hown
            rfl
          | Refused reason =>
            cases hown
            rfl
          | Ran outcome =>
            cases outcome with
            | error error =>
              cases hown
              rfl
            | ok output =>
              cases hown
              rfl
        · rcases List.mem_append.mp hmem with hfirst | hrest
          · cases answer with
            | NotStarted =>
              cases hown
              cases hfirst
            | HookFailed error => cases hown
            | NotEnabled =>
              cases hown
              exact .inl (by rw [List.mem_singleton.mp hfirst])
            | Refused reason =>
              cases hown
              exact .inl (by rw [List.mem_singleton.mp hfirst])
            | Ran outcome =>
              cases outcome with
              | error error =>
                cases hown
                exact .inl (by rw [List.mem_singleton.mp hfirst])
              | ok output =>
                cases hown
                refine .inr ⟨call, output, List.mem_cons_self, ?_⟩
                rw [List.mem_singleton.mp hfirst]
          · rcases hextras result hrest with hnone | ⟨other, output, hother, hsame⟩
            · exact .inl hnone
            · exact .inr ⟨other, output, List.mem_cons_of_mem _ hother, hsame⟩

namespace Tooling

variable {tooling : Tooling C} {work next : Work C} {event : WorkEvent C} {node : Nat}

/-- What holds of the calls of the tool nodes at every moment: a call that holds a slot is an enabled
one without an answer, and a call that was not started is one of a node whose hook has failed. -/
structure Steady (tooling : Tooling C) (work : Work C) : Prop where
  once : work.running.Nodup
  waits : ∀ node call, (node, call) ∈ work.running →
    work.answers node call = none ∧ ∃ owned, (tooling.callsOf node)[call]? = some (owned, true)
  unstarted : ∀ node call, work.answers node call = some .NotStarted → work.failed node = true
  failed : ∀ node, work.failed node = true → ∃ call owned error,
    (tooling.callsOf node)[call]? = some (owned, true) ∧
      work.answers node call = some (.HookFailed error)

/-- What an event does to the calls: one is not started, takes a slot or ends; or nothing. -/
private inductive Answers (tooling : Tooling C) (work next : Work C) : WorkEvent C → Prop
  | idle {event : WorkEvent C} (hanswers : next.answers = work.answers)
      (hrunning : next.running = work.running) (hfailed : next.failed = work.failed) :
      Answers tooling work next event
  | refuses {node call : Nat} (hunheld : work.answers node call = none)
      (hfails : work.failed node = true) (hapart : (node, call) ∉ work.running)
      (hanswers : next.answers = Function.update work.answers node
        (Function.update (work.answers node) call (some .NotStarted)))
      (hrunning : next.running = work.running) (hfailed : next.failed = work.failed) :
      Answers tooling work next (.Start node call)
  | starts {node call : Nat} {owned : ToolCall}
      (henabled : (tooling.callsOf node)[call]? = some (owned, true))
      (hunheld : work.answers node call = none) (hapart : (node, call) ∉ work.running)
      (hanswers : next.answers = work.answers)
      (hrunning : next.running = (node, call) :: work.running) (hfailed : next.failed = work.failed) :
      Answers tooling work next (.Start node call)
  | ends {node call : Nat} {hook : Option (Except String Judgment)}
      {outcome : Except String (ToolOutput C)} (hruns : (node, call) ∈ work.running)
      (hanswers : next.answers = Function.update work.answers node
        (Function.update (work.answers node) call (some (judgeAndRun hook outcome))))
      (hrunning : next.running = work.running.erase (node, call))
      (hfailed : next.failed = match judgeAndRun hook outcome with
        | .HookFailed _ => Function.update work.failed node true
        | _ => work.failed) :
      Answers tooling work next (.Finish node call hook outcome)

private theorem among_ok {event : Event} (hamong : tooling.among work event = some next) :
    ∃ nodes, work.nodes.step tooling.tools.length tooling.superstep event = some nodes ∧
      next = { work with nodes } := by
  obtain ⟨nodes, hstep, rfl⟩ := Option.map_eq_some_iff.mp hamong
  exact ⟨nodes, hstep, rfl⟩

private theorem step_answers (hstep : tooling.step work event = some next) :
    Answers tooling work next event := by
  have hamong : ∀ {told event}, tooling.among work told = some next →
      Answers tooling work next event := by
    intro told event hamong
    obtain ⟨nodes, -, rfl⟩ := among_ok hamong
    exact .idle rfl rfl rfl
  cases event with
  | First node =>
    simp only [step, Option.ite_none_right_eq_some] at hstep
    obtain ⟨-, hstep⟩ := hstep
    split at hstep
    · obtain ⟨nodes, -, rfl⟩ := among_ok hstep
      exact .idle rfl rfl rfl
    · cases hstep
      exact .idle rfl rfl rfl
  | Start node call =>
    unfold step at hstep
    dsimp only at hstep
    split at hstep
    · rename_i owned henabled
      rw [Option.ite_none_right_eq_some] at hstep
      obtain ⟨⟨-, hunheld, hapart⟩, hstep⟩ := hstep
      split at hstep
      · rename_i hfails
        cases hstep
        exact .refuses hunheld hfails hapart rfl rfl rfl
      · rw [Option.ite_none_right_eq_some] at hstep
        obtain ⟨-, hstep⟩ := hstep
        cases hstep
        exact .starts henabled hunheld hapart rfl rfl rfl
    · cases hstep
  | Finish node call hook outcome =>
    simp only [step, Option.ite_none_right_eq_some, Option.some.injEq] at hstep
    obtain ⟨hruns, rfl⟩ := hstep
    exact .ends hruns rfl rfl rfl
  | Close node =>
    simp only [step, Option.ite_none_right_eq_some] at hstep
    obtain ⟨-, hstep⟩ := hstep
    split at hstep
    · cases hstep
    · split at hstep
      · exact hamong hstep
      · cases hstep
        exact .idle rfl rfl rfl
    · split at hstep
      · exact hamong hstep
      · cases hstep
        exact .idle rfl rfl rfl
  | Written node stored => exact hamong hstep
  | Look node waker =>
    unfold step at hstep
    dsimp only at hstep
    split at hstep
    · obtain ⟨given, hgiven, rfl⟩ := Option.map_eq_some_iff.mp hstep
      obtain ⟨nodes, -, rfl⟩ := among_ok hgiven
      split <;> exact .idle rfl rfl rfl
    · exact hamong hstep
  | Elsewhere superstep event =>
    simp only [step, Option.ite_none_left_eq_some] at hstep
    obtain ⟨-, hstep⟩ := hstep
    obtain ⟨nodes, -, rfl⟩ := Option.map_eq_some_iff.mp hstep
    exact .idle rfl rfl rfl

/-- An answer that a call has is the one it keeps. -/
private theorem Steady.answers_stay (hsteady : tooling.Steady work)
    (hstep : tooling.step work event = some next) {call : Nat} {answer : Answer C}
    (hheld : work.answers node call = some answer) : next.answers node call = some answer := by
  have hchanged : ∀ at' own (given : Answer C), work.answers at' own = none →
      next.answers = Function.update work.answers at'
        (Function.update (work.answers at') own (some given)) →
      next.answers node call = some answer := by
    intro at' own given hnone hanswers
    rw [hanswers]
    by_cases hnode : node = at'
    · subst hnode
      have hcall : call ≠ own := by
        rintro rfl
        rw [hheld] at hnone
        cases hnone
      rw [Function.update_self, Function.update_of_ne hcall, hheld]
    · rw [Function.update_of_ne hnode, hheld]
  cases step_answers hstep with
  | idle hanswers' hrunning hfailed => rw [hanswers', hheld]
  | refuses hunheld hfails hapart hanswers' hrunning hfailed => exact hchanged _ _ _ hunheld hanswers'
  | starts henabled hunheld hapart hanswers' hrunning hfailed => rw [hanswers', hheld]
  | ends hruns hanswers' hrunning hfailed =>
    exact hchanged _ _ _ (hsteady.waits _ _ hruns).1 hanswers'

private theorem judged_started (hook : Option (Except String Judgment))
    (outcome : Except String (ToolOutput C)) : judgeAndRun hook outcome ≠ .NotStarted := by
  unfold judgeAndRun
  split <;> exact fun heq => by cases heq

theorem Steady.opening (tooling : Tooling C) (nodes : Nodes) :
    tooling.Steady (Tooling.opening nodes) where
  once := List.nodup_nil
  waits := fun _ _ hruns => by cases hruns
  unstarted := fun _ _ hheld => by cases hheld
  failed := fun _ hfails => by cases hfails

theorem Steady.step (hsteady : tooling.Steady work)
    (hstep : tooling.step work event = some next) : tooling.Steady next := by
  have hstay : ∀ node call answer, work.answers node call = some answer →
      next.answers node call = some answer := fun _ _ _ => hsteady.answers_stay hstep
  cases step_answers hstep with
  | idle hanswers hrunning hfailed =>
    refine ⟨?_, ?_, ?_, ?_⟩
    · rw [hrunning]
      exact hsteady.once
    · rw [hrunning, hanswers]
      exact hsteady.waits
    · rw [hanswers, hfailed]
      exact hsteady.unstarted
    · rw [hfailed, hanswers]
      exact hsteady.failed
  | @refuses node call hunheld hfails' hapart hanswers hrunning hfailed =>
    refine ⟨?_, fun other own hruns => ?_, fun other own hheld => ?_, fun other hfails => ?_⟩
    · rw [hrunning]
      exact hsteady.once
    · rw [hrunning] at hruns
      obtain ⟨hnone, henabled⟩ := hsteady.waits other own hruns
      refine ⟨?_, henabled⟩
      rw [hanswers]
      by_cases hnode : other = node
      · subst hnode
        have hcall : own ≠ call := fun heq => hapart (heq ▸ hruns)
        rw [Function.update_self, Function.update_of_ne hcall, hnone]
      · rw [Function.update_of_ne hnode, hnone]
    · rw [hfailed]
      by_cases hnode : other = node
      · rw [hnode]
        exact hfails'
      · rw [hanswers, Function.update_of_ne hnode] at hheld
        exact hsteady.unstarted other own hheld
    · rw [hfailed] at hfails
      obtain ⟨own, owned, error, henabled, hheld⟩ := hsteady.failed other hfails
      exact ⟨own, owned, error, henabled, hstay _ _ _ hheld⟩
  | @starts node call owned henabled' hunheld hapart hanswers hrunning hfailed =>
    refine ⟨?_, fun other own hruns => ?_, ?_, ?_⟩
    · rw [hrunning]
      exact List.nodup_cons.mpr ⟨hapart, hsteady.once⟩
    · rw [hrunning] at hruns
      rw [hanswers]
      rcases List.mem_cons.mp hruns with heq | hbefore
      · cases heq
        exact ⟨hunheld, owned, henabled'⟩
      · exact hsteady.waits other own hbefore
    · rw [hanswers, hfailed]
      exact hsteady.unstarted
    · rw [hfailed, hanswers]
      exact hsteady.failed
  | @ends node call hook outcome hruns' hanswers hrunning hfailed =>
    have howned := hsteady.waits node call hruns'
    refine ⟨?_, fun other own hruns => ?_, fun other own hheld => ?_, fun other hfails => ?_⟩
    · rw [hrunning]
      exact hsteady.once.erase _
    · rw [hrunning] at hruns
      obtain ⟨hne, hbefore⟩ := (List.Nodup.mem_erase_iff hsteady.once).mp hruns
      obtain ⟨hnone, henabled⟩ := hsteady.waits other own hbefore
      refine ⟨?_, henabled⟩
      rw [hanswers]
      by_cases hnode : other = node
      · subst hnode
        have hcall : own ≠ call := fun heq => hne (heq ▸ rfl)
        rw [Function.update_self, Function.update_of_ne hcall, hnone]
      · rw [Function.update_of_ne hnode, hnone]
    · have hbefore : work.answers other own = some .NotStarted := by
        rw [hanswers] at hheld
        by_cases hnode : other = node
        · subst hnode
          rw [Function.update_self] at hheld
          by_cases hcall : own = call
          · subst hcall
            rw [Function.update_self] at hheld
            exact absurd (Option.some.inj hheld) (judged_started hook outcome)
          · rwa [Function.update_of_ne hcall] at hheld
        · rwa [Function.update_of_ne hnode] at hheld
      have hfails := hsteady.unstarted other own hbefore
      rw [hfailed]
      split
      · by_cases hnode : other = node
        · rw [hnode, Function.update_self]
        · rw [Function.update_of_ne hnode, hfails]
      · exact hfails
    · rw [hfailed] at hfails
      split at hfails
      · rename_i error hjudged
        by_cases hnode : other = node
        · subst hnode
          obtain ⟨owned, henabled⟩ := howned.2
          refine ⟨call, owned, error, henabled, ?_⟩
          rw [hanswers, Function.update_self, Function.update_self, hjudged]
        · rw [Function.update_of_ne hnode] at hfails
          obtain ⟨own, owned, error, henabled, hheld⟩ := hsteady.failed other hfails
          exact ⟨own, owned, error, henabled, hstay _ _ _ hheld⟩
      · obtain ⟨own, owned, error, henabled, hheld⟩ := hsteady.failed other hfails
        exact ⟨own, owned, error, henabled, hstay _ _ _ hheld⟩

/-- A call of a node with its answer. -/
private def paired (tooling : Tooling C) (work : Work C) (node call : Nat) :
    Option (ToolCall × Answer C) :=
  match (tooling.callsOf node)[call]?, tooling.answerOf work node call with
  | some (owned, _), some answer => some (owned, answer)
  | _, _ => none

private theorem pairs_eq (tooling : Tooling C) (work : Work C) (node : Nat) :
    tooling.pairs work node =
      (List.range (tooling.callsOf node).length).mapM (tooling.paired work node) := rfl

private theorem paired_some {call : Nat} {pair : ToolCall × Answer C}
    (hpaired : tooling.paired work node call = some pair) :
    ∃ owned enabled answer, (tooling.callsOf node)[call]? = some (owned, enabled) ∧
      tooling.answerOf work node call = some answer ∧ pair = (owned, answer) := by
  unfold paired at hpaired
  split at hpaired
  · rename_i owned enabled answer howned hanswer
    cases hpaired
    exact ⟨owned, enabled, answer, howned, hanswer, rfl⟩
  · cases hpaired

private theorem paired_of {call : Nat} {owned : ToolCall} {enabled : Bool} {answer : Answer C}
    (howned : (tooling.callsOf node)[call]? = some (owned, enabled))
    (hanswer : tooling.answerOf work node call = some answer) :
    tooling.paired work node call = some (owned, answer) := by
  rw [paired, howned, hanswer]

/-- What a node closes with does not change. -/
private theorem Steady.closes_stay (hsteady : tooling.Steady work)
    (hstep : tooling.step work event = some next)
    {result : Except String (List (ToolResult × List (Update C)))}
    (hcloses : tooling.closes work node = some result) :
    tooling.closes next node = some result := by
  have hanswers : ∀ call answer, tooling.answerOf work node call = some answer →
      tooling.answerOf next node call = some answer := by
    intro call answer hanswer
    unfold answerOf at hanswer ⊢
    split at hanswer
    · cases hanswer
    · exact hanswer
    · exact hsteady.answers_stay hstep hanswer
  have hpairs : ∀ pairs, tooling.pairs work node = some pairs →
      tooling.pairs next node = some pairs := by
    intro pairs hpairs
    rw [pairs_eq] at hpairs ⊢
    refine mapM_stay (fun call pair hpair => ?_) hpairs
    obtain ⟨owned, enabled, answer, howned, hanswer, rfl⟩ := paired_some hpair
    exact paired_of howned (hanswers call answer hanswer)
  unfold closes at hcloses ⊢
  split at hcloses
  · cases hcloses
  · split at hcloses
    · exact hcloses
    · exact hcloses
    · obtain ⟨pairs, hheld, hresult⟩ := Option.map_eq_some_iff.mp hcloses
      rw [hpairs pairs hheld, Option.map_some, hresult]

/-- What the tool nodes tell the writers of their round: the results that a node closes with, and a
seat given up for its error. -/
private inductive Tells (tooling : Tooling C) (work : Work C) : Event → Prop
  | seats (node : Nat) : Tells tooling work (.Seat node)
  | deposits {node : Nat} {own : List (ToolResult × List (Update C))}
      (hcloses : tooling.closes work node = some (.ok own)) :
      Tells tooling work (.Deposit node (own.map Prod.fst))
  | writes (node : Nat) (stored : Except String Unit) : Tells tooling work (.Written node stored)
  | looks (node : Nat) (waker : Waker) : Tells tooling work (.Poll node waker)
  | leaves {node : Nat} {error : String}
      (hcloses : tooling.closes work node = some (.error error)) : Tells tooling work (.Leave node)

private theorem step_nodes (hstep : tooling.step work event = some next) :
    next.nodes = work.nodes ∨
      (∃ told, tooling.Tells work told ∧
        work.nodes.step tooling.tools.length tooling.superstep told = some next.nodes) ∨
      ∃ other told, other ≠ tooling.superstep ∧
        work.nodes.step tooling.tools.length other told = some next.nodes := by
  have hamong : ∀ {told}, tooling.Tells work told → tooling.among work told = some next →
      ∃ told, tooling.Tells work told ∧
        work.nodes.step tooling.tools.length tooling.superstep told = some next.nodes := by
    intro told htells hamong
    obtain ⟨nodes, hnodes, rfl⟩ := among_ok hamong
    exact ⟨told, htells, hnodes⟩
  cases event with
  | First node =>
    simp only [step, Option.ite_none_right_eq_some] at hstep
    obtain ⟨-, hstep⟩ := hstep
    split at hstep
    · obtain ⟨nodes, hnodes, rfl⟩ := among_ok hstep
      exact .inr (.inl ⟨_, .seats node, hnodes⟩)
    · cases hstep
      exact .inl rfl
  | Start node call =>
    unfold step at hstep
    dsimp only at hstep
    split at hstep
    · rw [Option.ite_none_right_eq_some] at hstep
      obtain ⟨-, hstep⟩ := hstep
      split at hstep
      · cases hstep
        exact .inl rfl
      · rw [Option.ite_none_right_eq_some] at hstep
        obtain ⟨-, hstep⟩ := hstep
        cases hstep
        exact .inl rfl
    · cases hstep
  | Finish node call hook outcome =>
    simp only [step, Option.ite_none_right_eq_some, Option.some.injEq] at hstep
    obtain ⟨-, rfl⟩ := hstep
    exact .inl rfl
  | Close node =>
    simp only [step, Option.ite_none_right_eq_some] at hstep
    obtain ⟨-, hstep⟩ := hstep
    split at hstep
    · cases hstep
    · rename_i error hcloses
      split at hstep
      · exact .inr (.inl (hamong (.leaves hcloses) hstep))
      · cases hstep
        exact .inl rfl
    · rename_i own hcloses
      split at hstep
      · exact .inr (.inl (hamong (.deposits hcloses) hstep))
      · cases hstep
        exact .inl rfl
  | Written node stored => exact .inr (.inl (hamong (.writes node stored) hstep))
  | Look node waker =>
    unfold step at hstep
    dsimp only at hstep
    split at hstep
    · obtain ⟨given, hgiven, rfl⟩ := Option.map_eq_some_iff.mp hstep
      obtain ⟨nodes, hnodes, rfl⟩ := among_ok hgiven
      refine .inr (.inl ⟨_, .looks node waker, ?_⟩)
      split <;> exact hnodes
    · exact .inr (.inl (hamong (.looks node waker) hstep))
  | Elsewhere superstep event =>
    simp only [step, Option.ite_none_left_eq_some] at hstep
    obtain ⟨hother, hstep⟩ := hstep
    obtain ⟨nodes, hnodes, rfl⟩ := Option.map_eq_some_iff.mp hstep
    exact .inr (.inr ⟨superstep, event, hother, hnodes⟩)

/-- A node gives back its updates once it has closed with results, and a node of a durable agent as
it stops waiting. -/
private theorem step_gave (hstep : tooling.step work event = some next) :
    next.gave = work.gave ∨ ∃ node own, tooling.closes work node = some (.ok own) ∧
      next.gave = Function.update work.gave node (some (tooling.updatesOf node own)) ∧
      (tooling.durable = true → (work.nodes.teams tooling.superstep).place node = .Waiting) := by
  have hamong : ∀ {told}, tooling.among work told = some next → next.gave = work.gave := by
    intro told hamong
    obtain ⟨nodes, hnodes, rfl⟩ := among_ok hamong
    rfl
  cases event with
  | First node =>
    simp only [step, Option.ite_none_right_eq_some] at hstep
    obtain ⟨-, hstep⟩ := hstep
    split at hstep
    · obtain ⟨nodes, hnodes, rfl⟩ := among_ok hstep
      exact .inl rfl
    · cases hstep
      exact .inl rfl
  | Start node call =>
    unfold step at hstep
    dsimp only at hstep
    split at hstep
    · rw [Option.ite_none_right_eq_some] at hstep
      obtain ⟨-, hstep⟩ := hstep
      split at hstep
      · cases hstep
        exact .inl rfl
      · rw [Option.ite_none_right_eq_some] at hstep
        obtain ⟨-, hstep⟩ := hstep
        cases hstep
        exact .inl rfl
    · cases hstep
  | Finish node call hook outcome =>
    simp only [step, Option.ite_none_right_eq_some, Option.some.injEq] at hstep
    obtain ⟨-, rfl⟩ := hstep
    exact .inl rfl
  | Close node =>
    simp only [step, Option.ite_none_right_eq_some] at hstep
    obtain ⟨-, hstep⟩ := hstep
    split at hstep
    · cases hstep
    · split at hstep
      · exact .inl (hamong hstep)
      · cases hstep
        exact .inl rfl
    · rename_i own hcloses
      split at hstep
      · exact .inl (hamong hstep)
      · rename_i hdurable
        cases hstep
        exact .inr ⟨node, own, hcloses, rfl, fun hholds => absurd hholds hdurable⟩
  | Written node stored => exact .inl (hamong hstep)
  | Look node waker =>
    unfold step at hstep
    dsimp only at hstep
    split at hstep
    · rename_i own outcome hcloses hready
      obtain ⟨given, hgiven, rfl⟩ := Option.map_eq_some_iff.mp hstep
      obtain ⟨nodes, hnodes, rfl⟩ := among_ok hgiven
      have hwaits : (work.nodes.teams tooling.superstep).place node = .Waiting := by
        simp only [Nodes.step, Option.ite_none_right_eq_some] at hnodes
        exact hnodes.1
      split
      · exact .inl rfl
      · exact .inr ⟨node, own, hcloses, rfl, fun _ => hwaits⟩
      · exact .inr ⟨node, own, hcloses, rfl, fun _ => hwaits⟩
    · exact .inl (hamong hstep)
  | Elsewhere superstep event =>
    simp only [step, Option.ite_none_left_eq_some] at hstep
    obtain ⟨hother, hstep⟩ := hstep
    obtain ⟨nodes, hnodes, rfl⟩ := Option.map_eq_some_iff.mp hstep
    exact .inl rfl

/-- How an event of the round writers moves the nodes of its superstep. -/
private inductive Turned (nodes : Nodes) (superstep : Nat) (team : Team) : Event → Prop
  | seats {node : Nat} (hearly : (nodes.teams superstep).place node = .Unpolled)
      (hplace : team.place = Function.update (nodes.teams superstep).place node .Seated)
      (hgiven : team.given = (nodes.teams superstep).given) : Turned nodes superstep team (.Seat node)
  | deposits {node : Nat} {results : List ToolResult} {place : Place}
      (hseated : (nodes.teams superstep).place node = .Seated)
      (hon : place = .Writing ∨ place = .Waiting)
      (hplace : team.place = Function.update (nodes.teams superstep).place node place)
      (hgiven : team.given = Function.update (nodes.teams superstep).given node (some results)) :
      Turned nodes superstep team (.Deposit node results)
  | writes {node : Nat} {stored : Except String Unit}
      (hwriting : (nodes.teams superstep).place node = .Writing)
      (hplace : team.place = Function.update (nodes.teams superstep).place node .Waiting)
      (hgiven : team.given = (nodes.teams superstep).given) :
      Turned nodes superstep team (.Written node stored)
  | looks {node : Nat} {waker : Waker} (hwaits : (nodes.teams superstep).place node = .Waiting)
      (hplace : team.place = (nodes.teams superstep).place ∨
        team.place = Function.update (nodes.teams superstep).place node .Left ∧
          ∃ outcome, (nodes.writers.pollEnd superstep waker).2 = .Ready outcome)
      (hgiven : team.given = (nodes.teams superstep).given) :
      Turned nodes superstep team (.Poll node waker)
  | leaves {node : Nat}
      (hplace : team.place = Function.update (nodes.teams superstep).place node .Left)
      (hgiven : team.given = (nodes.teams superstep).given) :
      Turned nodes superstep team (.Leave node)

private theorem turned {count : Nat} {nodes after : Nodes} {superstep : Nat} {told : Event}
    (hbegun : told ≠ .Begin) (hstep : nodes.step count superstep told = some after) :
    Turned nodes superstep (after.teams superstep) told := by
  have hteam : ∀ writers team, (nodes.set writers superstep team).teams superstep = team :=
    fun _ _ => Function.update_self ..
  cases told with
  | Begin => exact absurd rfl hbegun
  | Seat node =>
    simp only [Nodes.step, Option.ite_none_right_eq_some, Option.some.injEq] at hstep
    obtain ⟨⟨-, hearly⟩, rfl⟩ := hstep
    rw [hteam]
    exact .seats hearly rfl rfl
  | Deposit node results =>
    simp only [Nodes.step, Option.ite_none_right_eq_some] at hstep
    obtain ⟨hseated, hstep⟩ := hstep
    split at hstep <;> cases hstep <;> rw [hteam]
    · exact .deposits hseated (.inl rfl) rfl rfl
    · exact .deposits hseated (.inr rfl) rfl rfl
  | Written node stored =>
    simp only [Nodes.step, Option.ite_none_right_eq_some, Option.some.injEq] at hstep
    obtain ⟨hwriting, rfl⟩ := hstep
    rw [hteam]
    exact .writes hwriting rfl rfl
  | Poll node waker =>
    simp only [Nodes.step, Option.ite_none_right_eq_some] at hstep
    obtain ⟨hwaits, hstep⟩ := hstep
    split at hstep <;> rename_i heq <;> cases hstep <;> rw [hteam]
    · exact .looks hwaits (.inr ⟨rfl, _, congrArg Prod.snd heq⟩) rfl
    · exact .looks hwaits (.inl rfl) rfl
  | Leave node =>
    simp only [Nodes.step, Option.ite_none_right_eq_some, Option.some.injEq] at hstep
    obtain ⟨-, rfl⟩ := hstep
    rw [hteam]
    exact .leaves rfl rfl

/-- The nodes of a round that none has left for an error: none has left at all, or all have
deposited. -/
private def Gathered (count : Nat) (team : Team) : Prop :=
  (∀ node, team.place node ≠ .Left) ∨
    ∀ node < count, team.place node = .Waiting ∨ team.place node = .Left

/-- What holds of a round at every moment: what a node has given to the round, or given back, is what
it closed with, and the round is in order unless a node has closed with an error. -/
structure Told (tooling : Tooling C) (work : Work C) : Prop where
  steady : tooling.Steady work
  given : ∀ node results, (work.nodes.teams tooling.superstep).given node = some results →
    ∃ own, tooling.closes work node = some (.ok own) ∧ results = own.map Prod.fst
  deposited : ∀ node, (work.nodes.teams tooling.superstep).place node = .Writing ∨
      (work.nodes.teams tooling.superstep).place node = .Waiting →
    ((work.nodes.teams tooling.superstep).given node).isSome = true
  gave : ∀ node updates, work.gave node = some updates →
    ∃ own, tooling.closes work node = some (.ok own) ∧ updates = tooling.updatesOf node own ∧
      (tooling.durable = true →
        ((work.nodes.teams tooling.superstep).given node).isSome = true)
  written : (∃ node error, tooling.closes work node = some (.error error)) ∨
    Sound tooling.tools.length (work.nodes.writers.rounds tooling.superstep)
        (work.nodes.teams tooling.superstep) ∧
      Gathered tooling.tools.length (work.nodes.teams tooling.superstep)

theorem Told.opening {tooling : Tooling C} {nodes : Nodes}
    (hunseated : nodes.teams tooling.superstep = .opening)
    (hunwritten : nodes.writers.rounds tooling.superstep = none) :
    tooling.Told (Tooling.opening nodes) where
  steady := .opening tooling nodes
  given node results hgiven := by
    have hnone : (nodes.teams tooling.superstep).given node = some results := hgiven
    rw [hunseated] at hnone
    cases hnone
  deposited node hplace := by
    have hunpolled : (nodes.teams tooling.superstep).place node = .Writing ∨
        (nodes.teams tooling.superstep).place node = .Waiting := hplace
    rw [hunseated] at hunpolled
    rcases hunpolled with hat | hat <;> cases hat
  gave _ _ hgave := by cases hgave
  written := by
    right
    have hround : Sound tooling.tools.length (nodes.writers.rounds tooling.superstep)
        (nodes.teams tooling.superstep) := by
      rw [hunseated, hunwritten]
      exact .opening _
    refine ⟨hround, .inl fun node hleft => ?_⟩
    have hunpolled : (nodes.teams tooling.superstep).place node = .Left := hleft
    rw [hunseated] at hunpolled
    cases hunpolled

/-- An event that a node tells keeps the round in order, unless it is that of a node that leaves. -/
private theorem sound_told {nodes after : Nodes} {told : Event} {count superstep : Nat}
    (hstep : nodes.step count superstep told = some after)
    (hstays : ∀ node, told ≠ .Leave node)
    (hturned : Turned nodes superstep (after.teams superstep) told)
    (hsound : Sound count (nodes.writers.rounds superstep) (nodes.teams superstep))
    (hgathered : Gathered count (nodes.teams superstep)) :
    Sound count (after.writers.rounds superstep) (after.teams superstep) ∧
      Gathered count (after.teams superstep) := by
  -- A node that has not deposited yet has a place among the nodes.
  have hearly : ∀ node, (nodes.teams superstep).place node = .Unpolled ∨
      (nodes.teams superstep).place node = .Seated → node < count →
      ∀ other, (nodes.teams superstep).place other ≠ .Left := by
    intro node hplace hin
    rcases hgathered with hnone | hall
    · exact hnone
    · rcases hall node hin with hat | hat <;> rw [hat] at hplace <;> simp at hplace
  have hkept : nodes.Kept superstep told := by
    cases hturned with
    | deposits hseated hon hplace' hgiven =>
      intro other hleft
      have hin := (hsound.under (show Place.holds _ = true by rw [hseated]; rfl)).1
      exact absurd hleft (hearly _ (.inr hseated) hin other)
    | leaves => exact absurd rfl (hstays _)
    | seats => trivial
    | writes => trivial
    | looks => trivial
  refine ⟨Nodes.sound_step hsound hkept hstep, ?_⟩
  have hmoved : ∀ {node : Nat} {place : Place}, place ≠ .Left →
      (∀ other < count, other = node → place = .Waiting ∨
        ∀ free, (nodes.teams superstep).place free ≠ .Left) →
      (after.teams superstep).place =
        Function.update (nodes.teams superstep).place node place →
      Gathered count (after.teams superstep) := by
    intro node place hnot hwaits hplace
    rcases hgathered with hnone | hall
    · refine .inl fun other => ?_
      rw [hplace]
      by_cases hother : other = node
      · rw [hother, Function.update_self]
        exact hnot
      · rw [Function.update_of_ne hother]
        exact hnone other
    · by_cases hfree : ∀ free, (nodes.teams superstep).place free ≠ .Left
      · refine .inl fun other => ?_
        rw [hplace]
        by_cases hother : other = node
        · rw [hother, Function.update_self]
          exact hnot
        · rw [Function.update_of_ne hother]
          exact hfree other
      · refine .inr fun other hin => ?_
        rw [hplace]
        by_cases hother : other = node
        · rw [hother, Function.update_self]
          exact .inl ((hwaits other hin hother).resolve_right hfree)
        · rw [Function.update_of_ne hother]
          exact hall other hin
  cases hturned with
  | seats hearly' hplace' hgiven =>
    exact hmoved (by simp) (fun other hin heq =>
      .inr (hearly other (.inl (heq ▸ hearly')) hin)) hplace'
  | deposits hseated hon hplace' hgiven =>
    refine hmoved ?_ (fun other hin heq => .inr (hearly other (.inr (heq ▸ hseated)) hin)) hplace'
    rcases hon with rfl | rfl <;> simp
  | writes hwriting hplace' hgiven => exact hmoved (by simp) (fun _ _ _ => .inl rfl) hplace'
  | leaves => exact absurd rfl (hstays _)
  | @looks node waker hwaits' hplace' hgiven =>
    rcases hplace' with hplace | ⟨hplace, outcome, hready⟩
    · unfold Gathered
      rw [hplace]
      exact hgathered
    · -- A round that a node sees end is one in which every node has deposited.
      have hall : ∀ other < count, (nodes.teams superstep).place other = .Waiting ∨
          (nodes.teams superstep).place other = .Left := by
        obtain ⟨-, round, hround, -, -, hstage⟩ :=
          hsound.under (show Place.holds _ = true by rw [hwaits']; rfl)
        unfold RoundWriters.pollEnd at hready
        rw [hround] at hready
        dsimp only at hready
        cases hstage with
        | ended houtcome hwrites hdone hawake => exact hdone
        | gathering hunended =>
          rw [hunended] at hready
          dsimp only at hready
          split at hready <;> cases hready
        | writing hunended =>
          rw [hunended] at hready
          dsimp only at hready
          split at hready <;> cases hready
        | broken hunended =>
          rw [hunended] at hready
          dsimp only at hready
          split at hready <;> cases hready
      refine .inr fun other hin => ?_
      rw [hplace]
      by_cases hother : other = node
      · rw [hother, Function.update_self]
        exact .inr rfl
      · rw [Function.update_of_ne hother]
        exact hall other hin

theorem Told.step (htold : tooling.Told work) (hstep : tooling.step work event = some next) :
    tooling.Told next := by
  have hcloses : ∀ node result, tooling.closes work node = some result →
      tooling.closes next node = some result := fun _ _ => htold.steady.closes_stay hstep
  -- What the nodes have given is still there, and what is new is what a node closed with.
  have hgiven : (∀ node, ((work.nodes.teams tooling.superstep).given node).isSome = true →
        ((next.nodes.teams tooling.superstep).given node).isSome = true) ∧
      (∀ node results, (next.nodes.teams tooling.superstep).given node = some results →
        ∃ own, tooling.closes work node = some (.ok own) ∧ results = own.map Prod.fst) ∧
      (∀ node, (next.nodes.teams tooling.superstep).place node = .Writing ∨
          (next.nodes.teams tooling.superstep).place node = .Waiting →
        ((next.nodes.teams tooling.superstep).given node).isSome = true) ∧
      ((∃ node error, tooling.closes work node = some (.error error)) ∨
        Sound tooling.tools.length (next.nodes.writers.rounds tooling.superstep)
            (next.nodes.teams tooling.superstep) ∧
          Gathered tooling.tools.length (next.nodes.teams tooling.superstep)) := by
    rcases step_nodes hstep with hsame | ⟨told, htells, hnodes⟩ | ⟨other, told, hother, hnodes⟩
    · rw [hsame]
      exact ⟨fun _ => id, htold.given, htold.deposited, htold.written⟩
    · have hbegun : told ≠ .Begin := by
        rintro rfl
        cases htells
      have hturned := turned hbegun hnodes
      have hwritten : (∃ node error, tooling.closes work node = some (.error error)) ∨
          Sound tooling.tools.length (next.nodes.writers.rounds tooling.superstep)
              (next.nodes.teams tooling.superstep) ∧
            Gathered tooling.tools.length (next.nodes.teams tooling.superstep) := by
        rcases htold.written with hfailed | ⟨hsound, hgathered⟩
        · exact .inl hfailed
        · by_cases hleaves : ∃ node, told = .Leave node
          · obtain ⟨node, rfl⟩ := hleaves
            cases htells with
            | leaves hcloses' => exact .inl ⟨node, _, hcloses'⟩
          · exact .inr (sound_told hnodes (fun node heq => hleaves ⟨node, heq⟩) hturned hsound
              hgathered)
      refine ⟨?_, ?_, ?_, hwritten⟩
      · intro node hsome
        cases hturned with
        | @deposits node' results place hseated hon hmoved' hgiven' =>
          rw [hgiven']
          by_cases hnode : node = node'
          · rw [hnode, Function.update_self]
            rfl
          · rwa [Function.update_of_ne hnode]
        | seats hearly hplace' hgiven' => rwa [hgiven']
        | writes hwriting hplace' hgiven' => rwa [hgiven']
        | looks hwaits' hplace' hgiven' => rwa [hgiven']
        | leaves hplace' hgiven' => rwa [hgiven']
      · intro node results hresults
        cases hturned with
        | @deposits node' found place hseated hon hmoved' hgiven' =>
          rw [hgiven'] at hresults
          by_cases hnode : node = node'
          · rw [hnode, Function.update_self] at hresults
            cases hresults
            cases htells with
            | @deposits _ own hcloses' => exact ⟨own, hnode ▸ hcloses', rfl⟩
          · rw [Function.update_of_ne hnode] at hresults
            exact htold.given node results hresults
        | seats hearly hplace' hgiven' => exact htold.given node results (hgiven' ▸ hresults)
        | writes hwriting hplace' hgiven' => exact htold.given node results (hgiven' ▸ hresults)
        | looks hwaits' hplace' hgiven' => exact htold.given node results (hgiven' ▸ hresults)
        | leaves hplace' hgiven' => exact htold.given node results (hgiven' ▸ hresults)
      · intro node hplace
        cases hturned with
        | @seats node' hearly hplace' hgiven' =>
          rw [hgiven']
          rw [hplace'] at hplace
          by_cases hnode : node = node'
          · rw [hnode, Function.update_self] at hplace
            rcases hplace with hat | hat <;> cases hat
          · rw [Function.update_of_ne hnode] at hplace
            exact htold.deposited node hplace
        | @deposits node' results place hseated hon hmoved' hgiven' =>
          rw [hgiven']
          by_cases hnode : node = node'
          · rw [hnode, Function.update_self]
            rfl
          · rw [hmoved', Function.update_of_ne hnode] at hplace
            rw [Function.update_of_ne hnode]
            exact htold.deposited node hplace
        | @writes node' stored hwriting hplace' hgiven' =>
          rw [hgiven']
          by_cases hnode : node = node'
          · exact htold.deposited node (.inl (hnode ▸ hwriting))
          · rw [hplace', Function.update_of_ne hnode] at hplace
            exact htold.deposited node hplace
        | @looks node' waker hwaits' hplace' hgiven' =>
          rw [hgiven']
          by_cases hnode : node = node'
          · exact htold.deposited node (.inr (hnode ▸ hwaits'))
          · rcases hplace' with hsame | ⟨hmoved, -⟩
            · rw [hsame] at hplace
              exact htold.deposited node hplace
            · rw [hmoved, Function.update_of_ne hnode] at hplace
              exact htold.deposited node hplace
        | @leaves node' hplace' hgiven' =>
          rw [hgiven']
          rw [hplace'] at hplace
          by_cases hnode : node = node'
          · rw [hnode, Function.update_self] at hplace
            rcases hplace with hat | hat <;> cases hat
          · rw [Function.update_of_ne hnode] at hplace
            exact htold.deposited node hplace
    · obtain ⟨hround, hteam⟩ := Nodes.step_other hnodes (Ne.symm hother)
      rw [hround, hteam]
      exact ⟨fun _ => id, htold.given, htold.deposited, htold.written⟩
  obtain ⟨hstays, hresults, hdeposited, hwritten⟩ := hgiven
  refine ⟨htold.steady.step hstep, fun node results hsome => ?_, hdeposited,
    fun node updates hgave => ?_, ?_⟩
  · obtain ⟨own, hown, hsame⟩ := hresults node results hsome
    exact ⟨own, hcloses node _ hown, hsame⟩
  · have hbefore : ∀ node updates, work.gave node = some updates →
        ∃ own, tooling.closes next node = some (.ok own) ∧ updates = tooling.updatesOf node own ∧
          (tooling.durable = true →
            ((next.nodes.teams tooling.superstep).given node).isSome = true) := by
      intro node updates hgave
      obtain ⟨own, hown, hsame, hdurable⟩ := htold.gave node updates hgave
      exact ⟨own, hcloses node _ hown, hsame, fun hholds => hstays node (hdurable hholds)⟩
    rcases step_gave hstep with hsame | ⟨node', own, hown, hsame, hwaits⟩
    · exact hbefore node updates (hsame ▸ hgave)
    · rw [hsame] at hgave
      by_cases hnode : node = node'
      · rw [hnode, Function.update_self] at hgave
        cases hgave
        refine ⟨own, hnode ▸ hcloses node' _ hown, by rw [hnode], fun hholds => ?_⟩
        exact hstays node (htold.deposited node (.inr (hnode ▸ hwaits hholds)))
      · rw [Function.update_of_ne hnode] at hgave
        exact hbefore node updates hgave
  · rcases hwritten with ⟨node, error, hfailed⟩ | hsound
    · exact .inl ⟨node, error, hcloses node _ hfailed⟩
    · exact .inr hsound

theorem Told.run {events : List (WorkEvent C)} (htold : tooling.Told work)
    (hrun : tooling.run work events = some next) : tooling.Told next := by
  induction events generalizing work with
  | nil =>
    cases hrun
    exact htold
  | cons event later ih =>
    obtain ⟨middle, hstep, hlater⟩ := Option.bind_eq_some_iff.mp hrun
    exact ih (htold.step hstep) hlater

/-- The tools of a run ask for no change of the keys. -/
def Quiet (keys : List Key) (events : List (WorkEvent C)) : Prop :=
  ∀ node call hook output, WorkEvent.Finish node call hook (.ok output) ∈ events →
    Spares keys output.updates

theorem quiet_run {keys : List Key} {events : List (WorkEvent C)}
    (hquiet : Quiet keys events) (hbefore : ∀ node call output,
      work.answers node call = some (.Ran (.ok output)) → Spares keys output.updates)
    (hrun : tooling.run work events = some next) : ∀ node call output,
      next.answers node call = some (.Ran (.ok output)) → Spares keys output.updates := by
  induction events generalizing work with
  | nil =>
    cases hrun
    exact hbefore
  | cons event later ih =>
    obtain ⟨middle, hstep, hlater⟩ := Option.bind_eq_some_iff.mp hrun
    refine ih (fun node call hook output hmem =>
      hquiet node call hook output (List.mem_cons_of_mem _ hmem)) ?_ hlater
    intro node call output hheld
    cases step_answers hstep with
    | idle hanswers hrunning hfailed => exact hbefore node call output (hanswers ▸ hheld)
    | starts henabled hunheld hapart hanswers hrunning hfailed =>
      exact hbefore node call output (hanswers ▸ hheld)
    | @refuses node' call' hunheld hfails hapart hanswers hrunning hfailed =>
      rw [hanswers] at hheld
      by_cases hnode : node = node'
      · subst hnode
        rw [Function.update_self] at hheld
        by_cases hcall : call = call'
        · subst hcall
          rw [Function.update_self] at hheld
          cases hheld
        · rw [Function.update_of_ne hcall] at hheld
          exact hbefore node call output hheld
      · rw [Function.update_of_ne hnode] at hheld
        exact hbefore node call output hheld
    | @ends node' call' hook outcome hruns hanswers hrunning hfailed =>
      rw [hanswers] at hheld
      by_cases hnode : node = node'
      · subst hnode
        rw [Function.update_self] at hheld
        by_cases hcall : call = call'
        · subst hcall
          rw [Function.update_self] at hheld
          have hran : judgeAndRun hook outcome = .Ran (.ok output) := Option.some.inj hheld
          unfold judgeAndRun at hran
          split at hran <;> cases hran <;> exact hquiet node call _ output List.mem_cons_self
        · rw [Function.update_of_ne hcall] at hheld
          exact hbefore node call output hheld
      · rw [Function.update_of_ne hnode] at hheld
        exact hbefore node call output hheld

/-- A node that closes with results has one for each of its calls, in call order, and what its tools
ask for beside is what they returned. -/
theorem closes_ok (hsteady : tooling.Steady work) {tool : ToolNode} {turn : Turn}
    {calls : List (ToolCall × Bool)} {own : List (ToolResult × List (Update C))}
    (htool : tooling.tools[node]? = some tool)
    (hbegins : tool.begins tooling.state = .ok (some (turn, calls)))
    (hcloses : tooling.closes work node = some (.ok own)) :
    own.map (fun result => (result.1.toolCallId, result.1.name)) =
        calls.map (fun call => (call.1.id, call.1.name)) ∧
      ∀ result ∈ own, result.2 = [] ∨ ∃ call output,
        work.answers node call = some (.Ran (.ok output)) ∧ result.2 = output.updates := by
  have hcallsOf : tooling.callsOf node = calls := by
    rw [callsOf, htool]
    dsimp only
    rw [ToolNode.calls, hbegins]
  unfold closes at hcloses
  rw [htool] at hcloses
  dsimp only at hcloses
  rw [hbegins] at hcloses
  dsimp only at hcloses
  obtain ⟨pairs, hpairs, hanswered⟩ := Option.map_eq_some_iff.mp hcloses
  rw [pairs_eq, mapM_some, hcallsOf] at hpairs
  have hpair : ∀ index pair, pairs[index]? = some pair →
      ∃ owned enabled answer, calls[index]? = some (owned, enabled) ∧
        tooling.answerOf work node index = some answer ∧ pair = (owned, answer) := by
    intro index pair hat
    have hmapped : ((List.range calls.length).map (tooling.paired work node))[index]? =
        some (some pair) := by
      rw [hpairs, List.getElem?_map, hat]
      rfl
    rw [List.getElem?_map] at hmapped
    obtain ⟨same, hrange, hpaired⟩ := Option.map_eq_some_iff.mp hmapped
    obtain ⟨hin, rfl⟩ := List.getElem?_eq_some_iff.mp hrange
    rw [List.getElem_range] at hpaired
    rw [← hcallsOf]
    exact paired_some hpaired
  have hlength : pairs.length = calls.length := by
    have hcount := congrArg List.length hpairs
    simpa using hcount.symm
  obtain ⟨hhooks, hcalls, hextras⟩ := answered_ok hanswered
  -- An answer of a node that closes with results is not that of a call left out.
  have hstarted : ∀ call, (call, Answer.NotStarted) ∉ pairs := by
    intro call hmem
    obtain ⟨index, hat⟩ := List.mem_iff_getElem?.mp hmem
    obtain ⟨owned, enabled, answer, howned, hanswer, hsame⟩ := hpair index _ hat
    cases hsame
    unfold answerOf at hanswer
    rw [hcallsOf, howned] at hanswer
    cases enabled with
    | false => cases hanswer
    | true =>
      obtain ⟨failing, other, error, hother, hfailed⟩ :=
        hsteady.failed node (hsteady.unstarted node index hanswer)
      rw [hcallsOf] at hother
      have hplace : failing < pairs.length := by
        rw [hlength]
        exact (List.getElem?_eq_some_iff.mp hother).1
      obtain ⟨owned', enabled', answer', howned', hanswer', hpair'⟩ :=
        hpair failing _ (List.getElem?_eq_getElem hplace)
      unfold answerOf at hanswer'
      rw [hcallsOf, hother] at hanswer'
      dsimp only at hanswer'
      rw [hfailed] at hanswer'
      cases hanswer'
      exact hhooks owned' error (hpair' ▸ List.getElem_mem hplace)
  refine ⟨?_, fun result hresult => ?_⟩
  · rw [hcalls hstarted]
    refine List.ext_getElem? fun index => ?_
    rw [List.getElem?_map, List.getElem?_map]
    by_cases hin : index < pairs.length
    · obtain ⟨owned, enabled, answer, howned, -, hsame⟩ :=
        hpair index _ (List.getElem?_eq_getElem hin)
      rw [List.getElem?_eq_getElem hin, howned, hsame]
      rfl
    · rw [List.getElem?_eq_none (by omega), List.getElem?_eq_none (by omega)]
      rfl
  · rcases hextras result hresult with hnone | ⟨call, output, hran, hsame⟩
    · exact .inl hnone
    · obtain ⟨index, hat⟩ := List.mem_iff_getElem?.mp hran
      obtain ⟨owned, enabled, answer, howned, hanswer, hpaired⟩ := hpair index _ hat
      cases hpaired
      unfold answerOf at hanswer
      rw [hcallsOf, howned] at hanswer
      cases enabled with
      | false => cases hanswer
      | true => exact .inr ⟨index, output, hanswer, hsame⟩

end Tooling

end LlmGraph.React
