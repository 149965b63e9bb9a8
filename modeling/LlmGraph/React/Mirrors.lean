/- digest: What a durable run writes of a turn, told by its items: the events of a step fold to the step
   of the reply, and so the thread holds the turn that the run holds in memory, without the models. -/

import LlmGraph.React.CallWrites
import LlmGraph.React.PlainDrafts

set_option autoImplicit false
set_option relaxedAutoImplicit false

namespace LlmGraph.React

open Function (update)
open Lib (Act foldlM_append_ok foldlM_single_ok)
open Lib.Act (Holds Keeps)
open Superstep (State Config GraphError Key Update)

/-- A step as a thread gives it back: stream events carry no model. -/
def Step.bare (step : Step) : Step := { step with model := none }

def TurnItem.bare : TurnItem → TurnItem
  | Step step => .Step step.bare
  | ToolResults results => .ToolResults results

/-- What is documented of the turns that a store folds: a turn takes a step, or the results of a round, as
its last item, and the events of a text step fold to it. -/
structure StepDrafts.Lawful (D : Type) [StepDrafts D] : Prop where
  pushStep : ∀ turn step next, StepDrafts.pushStep D turn step = .ok next →
    next.items = turn.items ++ [.Step step]
  pushResults : ∀ turn results next, StepDrafts.pushResults D turn results = .ok next →
    next.items = turn.items ++ [.ToolResults results]
  text : ∀ text stopReason step, foldEvents D (textStepEvents text stopReason) = .ok step →
    step = ⟨[.Text text], stopReason, none, none⟩

theorem PlainDraft.lawful : StepDrafts.Lawful PlainDraft where
  pushStep := by
    intro turn step next hpushed
    have hsteps : PlainDraft.pushStep turn step = .ok next := hpushed
    unfold PlainDraft.pushStep at hsteps
    split at hsteps
    · cases hsteps
      rfl
    · cases hsteps
  pushResults := by
    intro turn results next hpushed
    have hresults : PlainDraft.pushResults turn results = .ok next := hpushed
    unfold PlainDraft.pushResults at hresults
    split at hresults
    · split at hresults
      · cases hresults
        rfl
      · cases hresults
    · cases hresults
  text := by
    intro text stopReason step hfolded
    have hstep : foldEvents PlainDraft (textStepEvents text stopReason) =
        .ok ⟨[.Text ("" ++ text)], stopReason, none, none⟩ := rfl
    rw [hstep] at hfolded
    cases hfolded
    rw [String.empty_append]

/-- The events of one step: the last one alone finishes it. -/
def OneStep (events : List StreamEvent) : Prop :=
  ∃ front last, events = front ++ [last] ∧ last.isFinish = true ∧ ∀ event ∈ front, event.isFinish = false

/-- A client streams the step that it replies with: its events fold to it, without its model. -/
def ModelCall.Streams (D : Type) [StepDrafts D] (call : ModelCall) : Prop :=
  ∀ step, call.reply = .ok step → OneStep call.events ∧
    ∀ folded, foldEvents D call.events = .ok folded → folded = step.bare

section Records

variable {D : Type} [StepDrafts D] {record : TurnRecord D} {items : List TurnItem}
  {events : List StreamEvent} {event : StreamEvent}

/-- A turn of some items, with the events of a step so far. -/
def Under (items : List TurnItem) (events : List StreamEvent) (record : TurnRecord D) : Prop :=
  record.items.map TurnItem.bare = items ∧
    events.foldlM StepDrafts.apply (StepDrafts.new : D) =
      .ok (record.draft.getD ⟨StepDrafts.new, []⟩).fold

/-- A turn of some items, with no step under way. -/
def Whole (items : List TurnItem) (record : TurnRecord D) : Prop :=
  record.items.map TurnItem.bare = items ∧ record.draft = none

theorem Whole.under (hwhole : Whole items record) : Under items [] record := by
  refine ⟨hwhole.1, ?_⟩
  rw [hwhole.2]
  rfl

theorem Under.fold (hunder : Under items events record) (hgoes : event.isFinish = false)
    (htaken : (record.fold event).1 = .ok ()) : Under items (events ++ [event]) (record.fold event).2 := by
  obtain ⟨hitems, hfolds⟩ := hunder
  unfold TurnRecord.fold at htaken ⊢
  dsimp only at htaken ⊢
  cases happlied : StepDrafts.apply (record.draft.getD ⟨StepDrafts.new, []⟩).fold event with
  | error error =>
    rw [happlied] at htaken
    cases htaken
  | ok folded =>
    rw [hgoes]
    refine ⟨hitems, ?_⟩
    exact foldlM_append_ok.mpr ⟨_, hfolds, foldlM_single_ok.mpr happlied⟩

theorem join_items (hlawful : StepDrafts.Lawful D) {step : Step} {next : TurnRecord D}
    (hjoin : record.join step = .ok next) : next.items = record.items ++ [.Step step] := by
  unfold TurnRecord.join TurnRecord.turn at hjoin
  by_cases hempty : record.items.isEmpty = true
  · rw [if_pos hempty] at hjoin
    cases hjoin
    rw [List.isEmpty_iff.mp hempty]
    rfl
  · rw [if_neg hempty] at hjoin
    dsimp only at hjoin
    split at hjoin
    · cases hjoin
    · rename_i pushed hpushed
      cases hjoin
      exact hlawful.pushStep _ _ _ hpushed

/-- The event that finishes a step adds it to the turn. -/
theorem Under.finish (hlawful : StepDrafts.Lawful D) (hunder : Under items events record)
    (hends : event.isFinish = true) (htaken : (record.fold event).1 = .ok ()) :
    ∃ step, foldEvents D (events ++ [event]) = .ok step ∧
      Whole (items ++ [.Step step.bare]) (record.fold event).2 := by
  obtain ⟨hitems, hfolds⟩ := hunder
  unfold TurnRecord.fold at htaken ⊢
  dsimp only at htaken ⊢
  cases happlied : StepDrafts.apply (record.draft.getD ⟨StepDrafts.new, []⟩).fold event with
  | error error =>
    rw [happlied] at htaken
    cases htaken
  | ok folded =>
    rw [happlied, hends] at htaken
    rw [hends]
    simp only [if_true] at htaken ⊢
    cases hfinish : StepDrafts.finish folded none with
    | error error =>
      rw [hfinish] at htaken
      cases htaken
    | ok step =>
      rw [hfinish] at htaken
      dsimp only at htaken ⊢
      cases hjoin : ({ record with draft := none } : TurnRecord D).join step with
      | error error =>
        rw [hjoin] at htaken
        cases htaken
      | ok joined =>
        refine ⟨step, ?_, ?_, ?_⟩
        · unfold foldEvents
          rw [foldlM_append_ok.mpr ⟨_, hfolds, foldlM_single_ok.mpr happlied⟩]
          exact hfinish
        · rw [join_items hlawful hjoin, List.map_append, hitems]
          rfl
        · exact (TurnRecord.join_kept hjoin).2.2.2

/-- A round of results adds them to a turn that has none at their index. -/
theorem Whole.results (hlawful : StepDrafts.Lawful D) (hwhole : Whole items record)
    {results : List ToolResult} {next : TurnRecord D}
    (hpushed : record.pushResults items.length results = .ok next) :
    Whole (items ++ [.ToolResults results]) next := by
  obtain ⟨hitems, hdraft⟩ := hwhole
  have hlength : items.length = record.items.length := by
    rw [← hitems, List.length_map]
  have hnone : record.items[items.length]? = none := by
    rw [hlength]
    exact List.getElem?_eq_none (Nat.le_refl _)
  unfold TurnRecord.pushResults at hpushed
  rw [hnone] at hpushed
  dsimp only at hpushed
  split at hpushed
  · cases hpushed
  · split at hpushed
    · cases hpushed
    · unfold TurnRecord.turn at hpushed
      split at hpushed
      · cases hpushed
      · rename_i turn hturn
        split at hpushed
        · cases hpushed
        · rename_i pushed hpush
          cases hpushed
          split at hturn
          · cases hturn
          · cases hturn
            refine ⟨?_, hdraft⟩
            rw [hlawful.pushResults _ _ _ hpush, List.map_append, hitems]
            rfl

end Records

/-- What is so of a turn of the thread that was neither failed nor cancelled. -/
def Holding {D : Type} (id : TurnId) (shape : TurnRecord D → Prop) (held : Held D) : Prop :=
  ∀ record, held id = some (.Turn record) → record.status = .Streaming ∨ record.status = .Completed →
    shape record

/-- A turn that the thread holds as completed. -/
def Finished {D : Type} (id : TurnId) (shape : TurnRecord D → Prop) (held : Held D) : Prop :=
  ∃ record, held id = some (.Turn record) ∧ record.status = .Completed ∧ shape record

theorem Finished.holding {D : Type} {id : TurnId} {shape : TurnRecord D → Prop} {held : Held D}
    (hfinished : Finished id shape held) : Holding id shape held := by
  obtain ⟨record, hheld, -, hshape⟩ := hfinished
  intro other hother _
  rw [hheld] at hother
  cases hother
  exact hshape

section Writes

variable {C D σ : Type} [Messages C] [StepDrafts D] {store : ThreadStore C σ} {threads : σ → Threads D}
  {thread : ThreadId} {elsewhere : Threads D} {id : TurnId} {items : List TurnItem}

/-- An event that is pushed into a turn. -/
theorem pushEvent_holding (hdocumented : store.Documented threads) {event : StreamEvent}
    {before after : TurnRecord D → Prop}
    (htakes : ∀ record, before record → (record.fold event).1 = .ok () → after (record.fold event).2) :
    Holds (Stands threads thread elsewhere (Holding id before))
      ((⟨store, thread, id⟩ : TurnWriter C σ).pushEvent event)
      (fun _ => Stands threads thread elsewhere (Holding id after)) fun _ _ => True := by
  refine hdocumented.write_done fun held next hholding hdone => ?_
  cases hdone with
  | folded hstored hstreams htaken =>
    intro record hheld _
    rw [Function.update_self] at hheld
    cases hheld
    exact htakes _ (hholding _ hstored (.inl hstreams)) htaken

/-- The events of a step that are pushed into a turn add the step that they fold to. -/
theorem pushEvents_holding (hlawful : StepDrafts.Lawful D) (hdocumented : store.Documented threads)
    {last : StreamEvent} (hlast : last.isFinish = true) (front rest : List StreamEvent)
    (hgoes : ∀ event ∈ rest, event.isFinish = false) :
    Holds (Stands threads thread elsewhere (Holding id (Under items front)))
      ((⟨store, thread, id⟩ : TurnWriter C σ).pushEvents (rest ++ [last]))
      (fun _ => Stands threads thread elsewhere (Holding id fun record =>
        ∃ step, foldEvents D (front ++ (rest ++ [last])) = .ok step ∧
          Whole (items ++ [.Step step.bare]) record)) fun _ _ => True := by
  induction rest generalizing front with
  | nil =>
    refine .bind _ (pushEvent_holding hdocumented fun record hunder htaken =>
      hunder.finish hlawful hlast htaken) fun _ => .pure fun desk hstands => hstands
  | cons event rest hind =>
    have hrest := hind (front ++ [event]) fun other hother => hgoes other (List.mem_cons_of_mem _ hother)
    rw [List.append_assoc, List.singleton_append] at hrest
    exact .bind _ (pushEvent_holding hdocumented fun record hunder htaken =>
      hunder.fold (hgoes event List.mem_cons_self) htaken) fun _ => hrest

theorem pushStep_holding (hlawful : StepDrafts.Lawful D) (hdocumented : store.Documented threads)
    {events : List StreamEvent} (hone : OneStep events) :
    Holds (Stands threads thread elsewhere (Holding id (Whole items)))
      ((⟨store, thread, id⟩ : TurnWriter C σ).pushEvents events)
      (fun _ => Stands threads thread elsewhere (Holding id fun record =>
        ∃ step, foldEvents D events = .ok step ∧ Whole (items ++ [.Step step.bare]) record))
      fun _ _ => True := by
  obtain ⟨front, last, rfl, hlast, hgoes⟩ := hone
  exact (pushEvents_holding hlawful hdocumented hlast [] front hgoes).weaken _ _
    fun desk hstands => ⟨fun record hheld hlive => (hstands.1 record hheld hlive).under, hstands.2⟩

/-- A turn that is completed holds its items still. -/
theorem complete_holding (hdocumented : store.Documented threads) :
    Holds (Stands threads thread elsewhere (Holding id (Whole items)))
      ((⟨store, thread, id⟩ : TurnWriter C σ).endTurn .Completed)
      (fun _ => Stands threads thread elsewhere (Finished id (Whole items))) fun _ _ => True := by
  refine hdocumented.write_done fun held next hholding hdone => ?_
  cases hdone with
  | @ended _ _ record next hstored htaken =>
    refine ⟨next, Function.update_self .., (TurnRecord.finish_ok htaken).2.2.1, ?_⟩
    unfold TurnRecord.finish at htaken
    split at htaken
    · rename_i hstreams
      have hwhole := hholding _ hstored (.inl hstreams)
      dsimp only at htaken
      split at htaken
      · cases htaken
      · cases htaken
        exact hwhole
    · split at htaken
      · rename_i hcompleted
        cases htaken
        exact hholding _ hstored (.inr hcompleted)
      · cases htaken

/-- The results of a round that are pushed whole. -/
theorem pushResults_holding (hlawful : StepDrafts.Lawful D) (hdocumented : store.Documented threads)
    {results : List ToolResult} :
    Holds (Stands threads thread elsewhere (Holding id (Whole items)))
      ((⟨store, thread, id⟩ : TurnWriter C σ).pushResults items.length results)
      (fun _ => Stands threads thread elsewhere (Holding id (Whole (items ++ [.ToolResults results]))))
      fun _ _ => True := by
  refine hdocumented.write_done fun held next hholding hdone => ?_
  cases hdone with
  | pushed hstored hstreams htaken =>
    intro record hheld _
    rw [Function.update_self] at hheld
    cases hheld
    exact (hholding _ hstored (.inl hstreams)).results hlawful htaken

end Writes

end LlmGraph.React
