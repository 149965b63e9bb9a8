/- digest: What applied updates leave of an agent's own keys: those they do not name stand as they were,
   and a turn takes its results in order, whatever the tools' own updates are between them. -/

import LlmGraph.Lib.Folds
import LlmGraph.React.LimitMarks
import LlmGraph.React.ToolNode

set_option autoImplicit false
set_option relaxedAutoImplicit false

namespace LlmGraph.React

open Lib (foldlM_cons_ok foldlM_append_ok)
open Superstep (State Value GraphError Key Update)

section Same

variable {C : Type} {state next last : State C} {key : Key}

/-- One state reads under a key as another does. -/
structure Same (key : Key) (state next : State C) : Prop where
  schema : next.schema = state.schema
  values : next.values key = state.values key

namespace Same

theorem refl (key : Key) (state : State C) : Same key state state := ⟨rfl, rfl⟩

theorem trans (hfirst : Same key state next) (hrest : Same key next last) : Same key state last :=
  ⟨hrest.schema.trans hfirst.schema, hrest.values.trans hfirst.values⟩

variable [Messages C]

theorem value (hsame : Same key state next) : next.value key = state.value key := by
  unfold State.value State.kindOf
  rw [hsame.schema, hsame.values]

theorem conversation (hsame : Same key state next) :
    next.conversation key = state.conversation key := by
  unfold State.conversation
  rw [hsame.value]

theorem list (hsame : Same key state next) : next.list key = state.list key := by
  unfold State.list State.kindOf
  rw [hsame.value, hsame.schema]

theorem int (hsame : Same key state next) : next.int key = state.int key := by
  unfold State.int
  rw [hsame.value]

end Same

end Same

variable {C : Type} [Messages C] {state next last : State C} {key : Key}

/-- No update names any of the keys. -/
def Spares (keys : List Key) (updates : List (Update C)) : Prop :=
  ∀ update ∈ updates, update.key ∉ keys

/-- An update that is applied changes the value of its key alone. -/
theorem applyOne_insert {update : Update C} (happlied : state.applyOne update = .ok next) :
    ∃ value, next = state.insert update.key value := by
  have hset : ∀ key value, state.derive key value = .ok next →
      ∃ value, next = state.insert key value := by
    intro key value hderived
    unfold State.derive at hderived
    split at hderived
    · cases hderived
    · split at hderived
      · cases hderived
        exact ⟨value, rfl⟩
      · cases hderived
  have happend : ∀ key value, state.applyAppend key value = .ok next →
      ∃ value, next = state.insert key value := by
    intro key value happended
    unfold State.applyAppend at happended
    split at happended
    · cases happended
    · split at happended
      · cases happended
        exact ⟨_, rfl⟩
      · cases happended
  have hchange : ∀ key push, state.changeConversation key push = .ok next →
      ∃ value, next = state.insert key value := by
    intro key push hchanged
    unfold State.changeConversation at hchanged
    split at hchanged
    · cases hchanged
    · split at hchanged
      · split at hchanged
        · cases hchanged
          exact ⟨_, rfl⟩
        · cases hchanged
      · cases hchanged
  cases update with
  | set key value => exact hset key value happlied
  | append key value => exact happend key value happlied
  | input key input => exact hchange key _ happlied
  | pushTurn key turn => exact hchange key _ happlied
  | pushStep key turn step => exact hchange key _ happlied
  | pushResult key turn result => exact hchange key _ happlied

theorem applyOne_same {update : Update C} (happlied : state.applyOne update = .ok next)
    (hother : update.key ≠ key) : Same key state next := by
  obtain ⟨value, rfl⟩ := applyOne_insert happlied
  exact ⟨rfl, Function.update_of_ne (Ne.symm hother) ..⟩

theorem applyAll_same {updates : List (Update C)} (hspared : ∀ update ∈ updates, update.key ≠ key)
    (happlied : updates.foldlM State.applyOne state = .ok next) : Same key state next := by
  induction updates generalizing state with
  | nil =>
      cases happlied
      exact .refl key _
  | cons update rest hind =>
      obtain ⟨middle, hfirst, hrest⟩ := foldlM_cons_ok.mp happlied
      have hlater := hind (fun other hother => hspared other (List.mem_cons_of_mem _ hother)) hrest
      exact (applyOne_same hfirst (hspared update List.mem_cons_self)).trans hlater

theorem applyBatch_all {updates : List (Update C)} (happlied : state.applyBatch updates = .ok next) :
    updates.foldlM State.applyOne state = .ok next := by
  unfold State.applyBatch at happlied
  split at happlied
  · cases happlied
  · exact happlied

/-- A turn that is pushed comes last. -/
theorem pushTurn_ok (hlawful : Messages.Lawful C) {c : C} {turn : Turn}
    (hconversation : state.conversation key = .ok c)
    (happlied : state.applyOne (.pushTurn key turn) = .ok next) :
    ∃ c', next.conversation key = .ok c' ∧ entries c' = entries c ++ [.Turn turn] := by
  obtain ⟨pushed, hpushed, hnext⟩ := changeConversation_ok hconversation happlied
  exact ⟨pushed, hnext, hlawful.pushTurn c pushed turn hpushed⟩

/-- A list whose key takes one more value. -/
theorem append_ok {items : List (Value C)} {value : Value C} (hlist : state.list key = .ok items)
    (happlied : state.applyOne (.append key value) = .ok next) :
    next.list key = .ok (items ++ [value]) := by
  have happended : state.applyAppend key value = .ok next := happlied
  unfold State.list State.value at hlist
  split at hlist
  · cases hlist
  · rename_i before hheld
    cases hlist
    split at hheld
    · cases hheld
    · rename_i kind hkind
      split at hheld
      · cases hheld
      · rename_i found hvalue
        cases hheld
        unfold State.applyAppend at happended
        split at happended
        · cases happended
        · rw [hvalue] at happended
          cases happended
          have hkind' : (state.insert key (.list (items ++ [value]))).kindOf key = some kind := hkind
          have hvalue' : (state.insert key (.list (items ++ [value]))).values key =
              some (.list (items ++ [value])) := Function.update_self ..
          unfold State.list State.value
          rw [hkind', hvalue']
  · split at hlist <;> cases hlist

/-- A value that is set. -/
theorem set_ok {value : Value C} (happlied : state.applyOne (.set key value) = .ok next) :
    next.value key = .ok value := by
  have hderived : state.derive key value = .ok next := happlied
  unfold State.derive at hderived
  split at hderived
  · cases hderived
  · rename_i kind hkind
    split at hderived
    · cases hderived
      have hkind' : (state.insert key value).kindOf key = some kind := hkind
      have hvalue : (state.insert key value).values key = some value := Function.update_self ..
      unfold State.value
      rw [hkind', hvalue]
    · cases hderived

theorem setInt_ok {value : Int} (happlied : state.applyOne (.set key (.int value)) = .ok next) :
    next.int key = .ok value := by
  unfold State.int
  rw [set_ok happlied]

section Results

variable {node : ToolNode}

/-- The results of a tool node go to the turn, in order, and the tools' own updates leave the
conversation alone. -/
theorem answers_ok (hlawful : Messages.Lawful C) {c : C} {front back : List Entry} {turn : Turn}
    {answered : List (ToolResult × List (Update C))}
    (hconversation : state.conversation node.key = .ok c)
    (hentries : entries c = front ++ .Turn turn :: back)
    (hspared : ∀ answer ∈ answered, Spares [node.key] answer.2)
    (happlied : (node.updates turn.id answered).foldlM State.applyOne state = .ok next) :
    ∃ c', next.conversation node.key = .ok c' ∧
      entries c' = front ++ .Turn (turn.withResults (answered.map Prod.fst)) :: back := by
  induction answered generalizing state c turn with
  | nil =>
      cases happlied
      exact ⟨c, hconversation, hentries⟩
  | cons answer rest hind =>
      obtain ⟨result, extra⟩ := answer
      have hsplit : node.updates turn.id ((result, extra) :: rest) =
          [result].map (Update.pushResult (C := C) node.key turn.id) ++
            (extra ++ node.updates turn.id rest) := by
        rw [ToolNode.updates, List.flatMap_cons]
        rfl
      rw [hsplit] at happlied
      obtain ⟨pushed, hfirst, hafter⟩ := foldlM_append_ok.mp happlied
      obtain ⟨spared, hextra, hlater⟩ := foldlM_append_ok.mp hafter
      obtain ⟨c₁, hpushed, hentries₁⟩ := pushResults_ok hlawful hconversation hentries hfirst
      have hsame : Same node.key pushed spared := applyAll_same (fun update hupdate hkey =>
        hspared _ List.mem_cons_self update hupdate (List.mem_singleton.mpr hkey)) hextra
      have hrest := @hind spared c₁ (turn.withResults [result])
        (hsame.conversation.trans hpushed) hentries₁
        (fun other hother => hspared other (List.mem_cons_of_mem _ hother))
      rw [Turn.withResults_id] at hrest
      exact hrest hlater

/-- What a tool node gives leaves the keys alone that its tools' updates spare. -/
theorem answers_same {turn : TurnId} {answered : List (ToolResult × List (Update C))}
    (hother : node.key ≠ key) (hspared : ∀ answer ∈ answered, Spares [key] answer.2)
    (happlied : (node.updates turn answered).foldlM State.applyOne state = .ok next) :
    Same key state next := by
  refine applyAll_same (fun update hupdate => ?_) happlied
  obtain ⟨answer, hanswer, hmem⟩ := List.mem_flatMap.mp hupdate
  rcases List.mem_cons.mp hmem with rfl | hextra
  · exact hother
  · exact fun hkey => hspared answer hanswer update hextra (List.mem_singleton.mpr hkey)

end Results

end LlmGraph.React
