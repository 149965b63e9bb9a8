/- digest: A call that passes its check never fails on its own mappings: its inputs, the start of the
   child, its outputs and its captures are read, and the caller takes every update it returns. -/

import LlmGraph.Superstep.Cursor
import LlmGraph.Superstep.SubGraph

set_option autoImplicit false
set_option relaxedAutoImplicit false

namespace LlmGraph.Superstep

open Lib (firstTwice collectEntries)

variable {C : Type} [Conversation C] {schema : Schema C}

/-- The key that an update sets. -/
def Update.set? : Update C → Option Key
  | .set key _ => some key
  | _ => none

def Update.isAppend : Update C → Bool
  | .append _ _ => true
  | _ => false

/-- Updates write into targets one by one, each a value of the kind its target receives. -/
def Fills (schema : Schema C) : List Output → List (Update C) → Prop :=
  List.Forall₂ fun target update => ∃ value kind, target.receives schema = some kind ∧
    value.matchesKind kind = true ∧ update = target.update value

section Updates

variable {state : State C} {target : Output} {targets : List Output} {updates : List (Update C)}

/-- Two updates of a batch set one key exactly where a key comes twice among those it sets. -/
theorem setConflict_eq (seen : List Key) (updates : List (Update C)) :
    State.setConflict seen updates = firstTwice seen (updates.filterMap Update.set?) := by
  induction updates generalizing seen with
  | nil => rfl
  | cons update rest hstep =>
      cases update with
      | set key value =>
          show State.setConflict seen (.set key value :: rest) =
            firstTwice seen (key :: rest.filterMap Update.set?)
          rw [State.setConflict, firstTwice]
          split
          · rfl
          · exact hstep _
      | _ => exact hstep seen

omit [Conversation C] in
private theorem receives_append {key : Key} {kind : Kind}
    (hreceives : (Output.Append key).receives schema = some kind) :
    schema.stateKind key = some (.list kind) := by
  unfold Output.receives at hreceives
  dsimp only at hreceives
  split at hreceives
  · rename_i element hdeclared
    cases hreceives
    exact hdeclared
  · cases hreceives

/-- A value of the kind a target receives may be appended to it. -/
private theorem checkAppend_ok {key : Key} {kind : Kind} {value : Value C}
    (hmade : state.MadeFrom schema) (hreceives : (Output.Append key).receives schema = some kind)
    (hfits : value.matchesKind kind = true) : state.checkAppend key value = .ok () := by
  rw [State.checkAppend, hmade.kindOf, receives_append hreceives]
  exact if_pos hfits

/-- A state takes a value of the kind a target receives. -/
private theorem applyOne_ok {kind : Kind} {value : Value C} (hmade : state.MadeFrom schema)
    (hreceives : target.receives schema = some kind) (hfits : value.matchesKind kind = true) :
    ∃ next, state.applyOne (target.update value) = .ok next := by
  cases target with
  | Set key =>
      have hdeclared : schema.stateKind key = some kind := hreceives
      refine ⟨state.insert key value, ?_⟩
      have htaken : state.derive key value = .ok (state.insert key value) := by
        rw [State.derive, hmade.kindOf, hdeclared]
        exact if_pos hfits
      exact htaken
  | Append key =>
      obtain ⟨held, hfound, htyped⟩ := hmade.complete.holds key _ (receives_append hreceives)
      cases held with
      | list items =>
          refine ⟨state.insert key (.list (items ++ [value])), ?_⟩
          have htaken : state.applyAppend key value =
              .ok (state.insert key (.list (items ++ [value]))) := by
            rw [State.applyAppend, checkAppend_ok hmade hreceives hfits, hfound]
          exact htaken
      | _ => exact absurd htyped (by simp [Value.matchesKind])

private theorem Fills.applyAll (hfills : Fills schema targets updates)
    (hmade : state.MadeFrom schema) : ∃ next, updates.foldlM State.applyOne state = .ok next := by
  induction hfills generalizing state with
  | nil => exact ⟨state, rfl⟩
  | cons hfill _ hstep =>
      obtain ⟨value, kind, hreceives, hfits, rfl⟩ := hfill
      obtain ⟨middle, happlied⟩ := applyOne_ok hmade hreceives hfits
      obtain ⟨next, hrest⟩ := hstep (hmade.applyOne happlied)
      refine ⟨next, ?_⟩
      rw [List.foldlM_cons, happlied]
      exact hrest

private theorem Fills.sets (hfills : Fills schema targets updates) :
    updates.filterMap Update.set? = targets.filterMap Output.set? := by
  induction hfills with
  | nil => rfl
  | @cons target update targets updates hfill _ hstep =>
      obtain ⟨value, kind, -, -, rfl⟩ := hfill
      cases target with
      | Set key => exact congrArg (key :: ·) hstep
      | Append key => exact hstep

/-- Updates that fill their targets, of which no two set one key, are taken as a batch. -/
theorem Fills.applyBatch (hfills : Fills schema targets updates)
    (honce : firstTwice [] (targets.filterMap Output.set?) = none) (hmade : state.MadeFrom schema) :
    ∃ next, state.applyBatch updates = .ok next := by
  obtain ⟨next, happlied⟩ := hfills.applyAll hmade
  refine ⟨next, ?_⟩
  rw [State.applyBatch, setConflict_eq, hfills.sets, honce]
  exact happlied

/-- Updates that fill lists are appends. -/
private theorem Fills.appends (hfills : Fills schema targets updates)
    (hlists : ∀ target ∈ targets, target.set? = none) : updates.all Update.isAppend = true := by
  induction hfills with
  | nil => rfl
  | @cons target update targets updates hfill _ hstep =>
      obtain ⟨value, kind, -, -, rfl⟩ := hfill
      have hrest := hstep fun other hmember => hlists other (List.mem_cons_of_mem _ hmember)
      cases target with
      | Set key => cases hlists (.Set key) List.mem_cons_self
      | Append key => exact hrest

/-- The lists take the updates that fill them. -/
private theorem Fills.checkAppends (hfills : Fills schema targets updates)
    (hlists : ∀ target ∈ targets, target.set? = none) (hmade : state.MadeFrom schema) :
    checkAppends state updates = .ok () := by
  induction hfills with
  | nil => rfl
  | @cons target update targets updates hfill _ hstep =>
      obtain ⟨value, kind, hreceives, hfits, rfl⟩ := hfill
      have hrest := hstep fun other hmember => hlists other (List.mem_cons_of_mem _ hmember)
      cases target with
      | Set key => cases hlists (.Set key) List.mem_cons_self
      | Append key =>
          rw [Output.update, Superstep.checkAppends, checkAppend_ok hmade hreceives hfits]
          exact hrest

end Updates

section Mappings

variable {state : State C} {config : Config C} {kinds : List (Key × Kind)}

/-- A source that fits is read as a value of the kind. -/
private theorem fits_read {source : Input C} {kind : Kind} (hmade : state.MadeFrom schema)
    (hconfigured : config.MadeFrom schema.config) (hfits : source.fits schema kind = true) :
    ∃ value, source.read state config = .ok value ∧ value.matchesKind kind = true := by
  cases source with
  | From key => exact hmade.value_ok (of_decide_eq_true hfits)
  | Config key =>
      obtain ⟨value, hheld, htyped⟩ :=
        hconfigured.complete.holds key kind (of_decide_eq_true hfits)
      refine ⟨value, ?_, htyped⟩
      have hdeclared : schema.config.lookup key = some kind := of_decide_eq_true hfits
      rw [Input.read, Config.value, hconfigured.same, hdeclared, hheld]
  | Const value => exact ⟨value, rfl, hfits⟩

/-- What checked mappings are: declared keys, each once and with a source that fits, and all of
them. -/
private theorem checkMappings_ok {refusals : MappingRefusals C} {mapped : List Key}
    {mappings : List (Key × Input C)}
    (hchecked : checkMappings refusals schema kinds mapped mappings = .ok ()) :
    (∀ mapping ∈ mappings, ∃ kind, kinds.lookup mapping.1 = some kind ∧
        mapping.2.fits schema kind = true) ∧
      firstTwice mapped (mappings.map Prod.fst) = none ∧
      ∀ entry ∈ kinds, entry.1 ∈ mapped ∨ entry.1 ∈ mappings.map Prod.fst := by
  induction mappings generalizing mapped with
  | nil =>
      unfold checkMappings at hchecked
      split at hchecked
      · cases hchecked
      · rename_i hall
        refine ⟨by simp, rfl, fun entry hmember => ?_⟩
        have hheld := List.find?_eq_none.mp hall entry hmember
        exact Or.inl (by simpa using hheld)
  | cons mapping rest hstep =>
      obtain ⟨childKey, source⟩ := mapping
      unfold checkMappings at hchecked
      split at hchecked
      · cases hchecked
      · rename_i kind hdeclared
        split at hchecked
        · cases hchecked
        · rename_i hnew
          split at hchecked
          · rename_i hfits
            obtain ⟨hfit, honce, hall⟩ := hstep hchecked
            refine ⟨?_, ?_, ?_⟩
            · intro other hmember
              rcases List.mem_cons.mp hmember with rfl | hlater
              · exact ⟨kind, hdeclared, hfits⟩
              · exact hfit other hlater
            · rw [List.map_cons, firstTwice, if_neg hnew]
              exact honce
            · intro entry hmember
              rcases hall entry hmember with hhere | hlater
              · rcases List.mem_cons.mp hhere with hsame | hbefore
                · exact Or.inr (by rw [hsame]; exact List.mem_cons_self)
                · exact Or.inl hbefore
              · exact Or.inr (List.mem_cons_of_mem _ hlater)
          · cases hchecked

/-- Mappings that fit are resolved, each to a value of the kind of its key. -/
private theorem resolve_ok {mappings : List (Key × Input C)} (hmade : state.MadeFrom schema)
    (hconfigured : config.MadeFrom schema.config)
    (hfit : ∀ mapping ∈ mappings, ∃ kind, kinds.lookup mapping.1 = some kind ∧
      mapping.2.fits schema kind = true) :
    ∃ values, SubGraph.resolve state config mappings = .ok values ∧
      values.map Prod.fst = mappings.map Prod.fst ∧
      ∀ entry ∈ values, ∃ kind, kinds.lookup entry.1 = some kind ∧
        entry.2.matchesKind kind = true := by
  induction mappings with
  | nil => exact ⟨[], rfl, rfl, by simp⟩
  | cons mapping rest hstep =>
      obtain ⟨childKey, source⟩ := mapping
      obtain ⟨kind, hdeclared, hfits⟩ := hfit _ List.mem_cons_self
      obtain ⟨value, hgiven, htyped⟩ := fits_read hmade hconfigured hfits
      obtain ⟨values, hresolved, hkeys, hall⟩ :=
        hstep fun other hmember => hfit other (List.mem_cons_of_mem _ hmember)
      refine ⟨(childKey, value) :: values, ?_, ?_, ?_⟩
      · rw [SubGraph.resolve, hgiven, hresolved]
      · rw [List.map_cons, List.map_cons, hkeys]
      · intro entry hmember
        rcases List.mem_cons.mp hmember with rfl | hlater
        · exact ⟨kind, hdeclared, htyped⟩
        · exact hall entry hlater

end Mappings

section Start

variable {child : Built C}

/-- Values for declared inputs, each of its kind and given once, are all taken. -/
private theorem takeInputs_ok {taken given : List (Key × Value C)}
    (htyped : ∀ entry ∈ given, ∃ kind, child.inputs.lookup entry.1 = some kind ∧
      entry.2.matchesKind kind = true)
    (honce : firstTwice (taken.map Prod.fst).reverse (given.map Prod.fst) = none) :
    child.takeInputs taken given = .ok (taken ++ given) := by
  induction given generalizing taken with
  | nil => rw [Built.takeInputs, List.append_nil]
  | cons entry rest hstep =>
      obtain ⟨key, value⟩ := entry
      obtain ⟨kind, hdeclared, hfits⟩ := htyped _ List.mem_cons_self
      have hknown : child.graph.schema.stateKind key = some kind :=
        child.kindsOf_stateKind (Lib.mem_of_lookup hdeclared)
      rw [List.map_cons, firstTwice] at honce
      split at honce
      · cases honce
      · rename_i hnew
        rw [List.mem_reverse, ← Lib.lookup_isSome_iff_mem] at hnew
        have hlater : child.takeInputs (taken ++ [(key, value)]) rest =
            .ok (taken ++ [(key, value)] ++ rest) := by
          refine hstep (fun other hmember => htyped other (List.mem_cons_of_mem _ hmember)) ?_
          rw [List.map_append, List.reverse_append]
          exact honce
        rw [Built.takeInputs, if_neg hnew, hknown]
        dsimp only
        rw [hdeclared, Option.isNone_some, if_neg Bool.false_ne_true, if_pos hfits, hlater,
          List.append_assoc]
        rfl

/-- Every key of the schema gets a value of its kind. -/
private theorem fillDefaults_ok {taken : List (Key × Value C)} {keys : List (Key × Kind)}
    (htyped : ∀ entry ∈ taken, ∃ kind, child.graph.schema.stateKind entry.1 = some kind ∧
      entry.2.matchesKind kind = true)
    (hknown : ∀ entry ∈ keys, (child.graph.schema.stateKind entry.1).isSome = true) :
    ∃ values, child.fillDefaults taken keys = .ok values ∧
      values.map Prod.fst = keys.map Prod.fst ∧
      ∀ entry ∈ values, ∃ kind, child.graph.schema.stateKind entry.1 = some kind ∧
        entry.2.matchesKind kind = true := by
  induction keys with
  | nil => exact ⟨[], rfl, rfl, by simp⟩
  | cons entry rest hstep =>
      obtain ⟨key, own⟩ := entry
      obtain ⟨kind, hdeclared⟩ := Option.isSome_iff_exists.mp (hknown _ List.mem_cons_self)
      obtain ⟨values, hfilled, hnames, hall⟩ :=
        hstep fun other hmember => hknown other (List.mem_cons_of_mem _ hmember)
      have hstart : ∃ value, (taken.lookup key).or (child.graph.schema.defaultValue key) =
          some value ∧ value.matchesKind kind = true := by
        rcases hgiven : taken.lookup key with _ | value
        · exact Schema.defaultValue_ok child.defaults hdeclared
        · obtain ⟨other, hfound, hfits⟩ := htyped _ (Lib.mem_of_lookup hgiven)
          rw [hdeclared] at hfound
          cases hfound
          exact ⟨value, rfl, hfits⟩
      obtain ⟨value, hgiven, hfits⟩ := hstart
      refine ⟨(key, value) :: values, ?_, ?_, ?_⟩
      · rw [Built.fillDefaults, hgiven, hfilled]
      · rw [List.map_cons, List.map_cons, hnames]
      · intro other hmember
        rcases List.mem_cons.mp hmember with rfl | hlater
        · exact ⟨kind, hdeclared, hfits⟩
        · exact hall other hlater

/-- Values for exactly the declared inputs make a start state. -/
private theorem startState_ok {given : List (Key × Value C)}
    (htyped : ∀ entry ∈ given, ∃ kind, child.inputs.lookup entry.1 = some kind ∧
      entry.2.matchesKind kind = true)
    (honce : firstTwice [] (given.map Prod.fst) = none)
    (hall : ∀ entry ∈ child.inputs, entry.1 ∈ given.map Prod.fst) :
    ∃ state, child.startState given = .ok state ∧ state.MadeFrom child.graph.schema := by
  have htaken : child.takeInputs [] given = .ok given := takeInputs_ok htyped honce
  have hnothing : (child.inputs.find? fun entry => (given.lookup entry.1).isNone) = none := by
    refine List.find?_eq_none.mpr fun entry hmember => ?_
    have hheld := Lib.lookup_isSome_iff_mem.mpr (hall entry hmember)
    simp [Option.isNone_iff_eq_none, Option.isSome_iff_ne_none.mp hheld]
  obtain ⟨values, hfilled, hnames, hfits⟩ := fillDefaults_ok
    (fun entry hmember => by
      obtain ⟨kind, hdeclared, hown⟩ := htyped entry hmember
      exact ⟨kind, child.kindsOf_stateKind (Lib.mem_of_lookup hdeclared), hown⟩)
    (fun entry hmember => Lib.lookup_isSome_iff_mem.mpr (List.mem_map_of_mem hmember))
  have hcomplete : checkComplete child.graph.schema.state values = .ok () := by
    refine checkComplete_ok hfits fun entry hmember => ?_
    rw [Lib.lookup_isSome_iff_mem, hnames]
    exact List.mem_map_of_mem hmember
  have hmade : State.new child.graph.schema values =
      .ok ⟨child.graph.schema, fun key => values.lookup key⟩ := by
    rw [State.new, hcomplete]
  refine ⟨_, ?_, State.new_made hmade⟩
  rw [Built.startState, htaken]
  dsimp only
  rw [hnothing, hfilled]
  exact hmade

end Start

/-- The caller takes the updates on every state of its schema; where the call is the body of a map,
they are appends that the lists take. -/
structure Accepted (schema : Schema C) (site : CheckSite) (updates : List (Update C)) : Prop where
  taken : ∀ state : State C, state.MadeFrom schema → ∃ next, state.applyBatch updates = .ok next
  appends : site = .mapBody → updates.all Update.isAppend = true ∧
    ∀ state : State C, state.MadeFrom schema → checkAppends state updates = .ok ()

section Targets

variable {target : Output} {appendsOnly : Bool} {set set' : List Key}

private theorem checkTarget_ok {kind : Kind}
    (hchecked : checkTarget schema kind target appendsOnly = .ok ()) :
    target.receives schema = some kind ∧ (appendsOnly = true → target.set? = none) := by
  unfold checkTarget at hchecked
  split at hchecked
  · cases hchecked
  · rename_i hother
    split at hchecked
    · rename_i hreceives
      refine ⟨hreceives, fun honly => ?_⟩
      subst honly
      cases target with
      | Set key => exact absurd rfl (hother key · rfl)
      | Append key => rfl
    · cases hchecked

private theorem setOnce_ok {twice : Key → GraphError C} (honce : setOnce twice set target = .ok set')
    (more : List Key) : firstTwice set (target.set?.toList ++ more) = firstTwice set' more := by
  cases target with
  | Append key =>
      cases honce
      rfl
  | Set key =>
      unfold setOnce at honce
      dsimp only at honce
      split at honce
      · cases honce
      · rename_i hnew
        cases honce
        show firstTwice set (key :: more) = _
        rw [firstTwice, if_neg hnew]

/-- Every checked output is one of the child, fits its target, and sets its key once. -/
private theorem checkOutputs_ok {call : SubGraph C} {outputs : List (Key × Output)}
    (hchecked : call.checkOutputs schema appendsOnly set outputs = .ok set') :
    (∀ output ∈ outputs, ∃ kind, call.graph.outputs.lookup output.1 = some kind ∧
        output.2.receives schema = some kind ∧ (appendsOnly = true → output.2.set? = none)) ∧
      ∀ more, firstTwice set ((outputs.map Prod.snd).filterMap Output.set? ++ more) =
        firstTwice set' more := by
  induction outputs generalizing set with
  | nil =>
      cases hchecked
      exact ⟨by simp, fun more => rfl⟩
  | cons output rest hstep =>
      obtain ⟨childKey, target⟩ := output
      unfold SubGraph.checkOutputs at hchecked
      split at hchecked
      · cases hchecked
      rename_i kind hdeclared
      split at hchecked
      · cases hchecked
      rename_i hfits
      split at hchecked
      · cases hchecked
      rename_i next honce
      obtain ⟨hreceives, hlists⟩ := checkTarget_ok hfits
      obtain ⟨hall, hlater⟩ := hstep hchecked
      refine ⟨?_, fun more => ?_⟩
      · intro other hmember
        rcases List.mem_cons.mp hmember with rfl | hafter
        · exact ⟨kind, hdeclared, hreceives, hlists⟩
        · exact hall other hafter
      · rw [← hlater more, ← setOnce_ok honce]
        cases target with
        | Set key => rfl
        | Append key => rfl

/-- Every checked capture fits its target, and sets its key once. -/
private theorem checkCaptures_ok {captures : List (CaptureUpdate C)}
    (hchecked : checkCaptures schema appendsOnly set captures = .ok ()) :
    (∀ capture ∈ captures, checkCapture schema capture appendsOnly = .ok ()) ∧
      firstTwice set ((captures.map CaptureUpdate.target).filterMap Output.set?) = none := by
  induction captures generalizing set with
  | nil => exact ⟨by simp, rfl⟩
  | cons capture rest hstep =>
      unfold checkCaptures at hchecked
      split at hchecked
      · cases hchecked
      rename_i hfits
      split at hchecked
      · cases hchecked
      rename_i next honce
      obtain ⟨hall, hlater⟩ := hstep hchecked
      refine ⟨?_, ?_⟩
      · intro other hmember
        rcases List.mem_cons.mp hmember with rfl | hafter
        · exact hfits
        · exact hall other hafter
      · rw [← hlater, ← setOnce_ok honce]
        cases capture with
        | set key source => rfl
        | append key source => rfl

/-- A capture of a map body appends. -/
private theorem checkCapture_lists {capture : CaptureUpdate C}
    (hchecked : checkCapture schema capture true = .ok ()) : capture.target.set? = none := by
  cases capture with
  | set key source => cases hchecked
  | append key source => rfl

/-- A checked capture reads a value of the kind that its target receives. -/
private theorem checkCapture_ok {state : State C} {capture : CaptureUpdate C}
    (hmade : state.MadeFrom schema)
    (hchecked : checkCapture schema capture appendsOnly = .ok ()) (reason : String) :
    ∃ value kind, captured state reason [capture] = .ok [capture.update value] ∧
      capture.target.receives schema = some kind ∧ value.matchesKind kind = true := by
  unfold checkCapture at hchecked
  split at hchecked
  · cases hchecked
  dsimp only at hchecked
  split at hchecked
  · cases hchecked
  · rename_i kind value hreceives hsource
    split at hchecked
    · rename_i hfits
      exact ⟨value, kind, by simp [captured, hsource], hreceives, hfits⟩
    · cases hchecked
  · rename_i kind key hreceives hsource
    split at hchecked
    · rename_i hfits
      obtain ⟨value, hheld, htyped⟩ := hmade.value_ok (eq_of_beq hfits)
      exact ⟨value, kind, by simp [captured, hsource, hheld], hreceives, htyped⟩
    · cases hchecked
  · rename_i kind hreceives hsource
    split at hchecked
    · rename_i hfits
      cases eq_of_beq hfits
      exact ⟨.str reason, .str, by simp [captured, hsource], hreceives, rfl⟩
    · cases hchecked

private theorem captured_cons (state : State C) (reason : String) (capture : CaptureUpdate C)
    (rest : List (CaptureUpdate C)) {own updates : List (Update C)}
    (hfirst : captured state reason [capture] = .ok own)
    (hlater : captured state reason rest = .ok updates) :
    captured state reason (capture :: rest) = .ok (own ++ updates) := by
  rw [captured] at hfirst ⊢
  split at hfirst
  · cases hfirst
  · rename_i hread
    cases hfirst
    rw [hlater]
    rfl

private theorem CaptureUpdate.update_eq (capture : CaptureUpdate C) (value : Value C) :
    capture.update value = capture.target.update value := by
  cases capture with
  | set => rfl
  | append => rfl

/-- Checked captures are read from every state of the schema, and fill their targets. -/
private theorem captured_fills {state : State C} {captures : List (CaptureUpdate C)}
    (hmade : state.MadeFrom schema)
    (hchecked : ∀ capture ∈ captures, checkCapture schema capture appendsOnly = .ok ())
    (reason : String) :
    ∃ updates, captured state reason captures = .ok updates ∧
      Fills schema (captures.map CaptureUpdate.target) updates := by
  induction captures with
  | nil => exact ⟨[], rfl, .nil⟩
  | cons capture rest hstep =>
      obtain ⟨updates, hread, hfills⟩ :=
        hstep fun other hmember => hchecked other (List.mem_cons_of_mem _ hmember)
      obtain ⟨value, kind, hfirst, hreceives, hfits⟩ :=
        checkCapture_ok hmade (hchecked capture List.mem_cons_self) reason
      exact ⟨capture.update value :: updates, captured_cons state reason capture rest hfirst hread,
        .cons ⟨value, kind, hreceives, hfits, capture.update_eq value⟩ hfills⟩

/-- Checked captures never fail, and the caller takes what they give. -/
theorem captured_accepted {site : CheckSite} {state : State C} {captures : List (CaptureUpdate C)}
    (hmade : state.MadeFrom schema)
    (hchecked : checkCaptures schema (decide (site = .mapBody)) [] captures = .ok ())
    (reason : String) :
    ∃ updates, captured state reason captures = .ok updates ∧ Accepted schema site updates := by
  obtain ⟨hall, honce⟩ := checkCaptures_ok hchecked
  obtain ⟨updates, hread, hfills⟩ := captured_fills hmade hall reason
  refine ⟨updates, hread, fun other hown => hfills.applyBatch honce hown, fun hbody => ?_⟩
  have hlists : ∀ target ∈ captures.map CaptureUpdate.target, target.set? = none := by
    intro target hmember
    obtain ⟨capture, hlisted, rfl⟩ := List.mem_map.mp hmember
    have honly := hall capture hlisted
    rw [decide_eq_true hbody] at honly
    exact checkCapture_lists honly
  exact ⟨hfills.appends hlists, fun other hown => hfills.checkAppends hlists hown⟩

/-- The captures of a checked map are checked as those of a call in a map body. -/
theorem Map.check_captures {fields : Map C} {captures : List (CaptureUpdate C)}
    (hchecked : fields.check schema = .ok ())
    (hcapturesEq : fields.onItemFailure = .capture captures) :
    checkCaptures schema true [] captures = .ok () := by
  have heach : captures.forM (CaptureUpdate.check schema) = .ok () := by
    unfold Map.check at hchecked
    rw [hcapturesEq] at hchecked
    extract_lets fits at hchecked
    split at hchecked
    · rcases hsized : fields.maxConcurrency with _ | limit
      · rw [hsized] at hchecked
        exact hchecked
      · rw [hsized] at hchecked
        dsimp only at hchecked
        rcases hpassed : limit.check schema with refused | ⟨⟩
        · rw [hpassed] at hchecked
          cases hchecked
        · rw [hpassed] at hchecked
          exact hchecked
    · cases hchecked
  clear hchecked hcapturesEq
  induction captures with
  | nil => rfl
  | cons capture rest hstep =>
      have hall := Lib.forM_ok heach
      have hown := hall capture List.mem_cons_self
      have hlater := hstep (Lib.forM_of fun other hmember => hall other
        (List.mem_cons_of_mem _ hmember))
      cases capture with
      | set key source => cases hown
      | append key source =>
          have hsame : checkCapture schema (.append key source) true = .ok () := hown
          rw [checkCaptures, hsame]
          exact hlater

end Targets

section Outputs

variable {call : SubGraph C} {site : CheckSite}

/-- The outputs of a child that ended on a state of its schema fill their targets. -/
private theorem outputUpdates_fills {final : State C} {outputs : List (Key × Output)}
    (hmade : final.MadeFrom call.graph.graph.schema)
    (hfit : ∀ output ∈ outputs, ∃ kind, call.graph.outputs.lookup output.1 = some kind ∧
      output.2.receives schema = some kind) :
    ∃ updates, SubGraph.outputUpdates final outputs = .ok updates ∧
      Fills schema (outputs.map Prod.snd) updates := by
  induction outputs with
  | nil => exact ⟨[], rfl, .nil⟩
  | cons output rest hstep =>
      obtain ⟨childKey, target⟩ := output
      obtain ⟨kind, hdeclared, hreceives⟩ := hfit _ List.mem_cons_self
      obtain ⟨updates, hread, hfills⟩ :=
        hstep fun other hmember => hfit other (List.mem_cons_of_mem _ hmember)
      have hknown := call.graph.kindsOf_stateKind (Lib.mem_of_lookup hdeclared)
      obtain ⟨value, hheld, hfits⟩ := hmade.value_ok hknown
      refine ⟨target.update value :: updates, ?_, .cons ⟨value, kind, hreceives, hfits, rfl⟩ hfills⟩
      rw [SubGraph.outputUpdates, hheld, hread]

/-- The end label of a checked call fills its target. -/
private theorem outputsOf_fills {final : State C} (label : EndLabel)
    (hmade : final.MadeFrom call.graph.graph.schema)
    (hfit : ∀ output ∈ call.outputs, ∃ kind, call.graph.outputs.lookup output.1 = some kind ∧
      output.2.receives schema = some kind)
    (hends : ∀ target, call.endLabel = some target → target.receives schema = some .str) :
    ∃ updates, call.outputsOf final label = .ok updates ∧
      Fills schema (call.outputs.map Prod.snd ++ call.endLabel.toList) updates := by
  obtain ⟨updates, hread, hfills⟩ := outputUpdates_fills hmade hfit
  unfold SubGraph.outputsOf
  rw [hread]
  rcases hgiven : call.endLabel with _ | target
  · exact ⟨updates, rfl, by rw [Option.toList_none, List.append_nil]; exact hfills⟩
  · refine ⟨updates ++ [target.update (.str label)], rfl, ?_⟩
    exact List.rel_append hfills (.cons ⟨.str label, .str, hends target hgiven, rfl, rfl⟩ .nil)

/-- What a check of a call establishes. -/
private theorem check_ok (hchecked : call.check schema site = .ok ()) :
    call.checkInputs schema = .ok () ∧ call.checkConfig schema = .ok () ∧
      (∃ set set', call.checkOutputs schema (decide (site = .mapBody)) [] call.outputs = .ok set ∧
        call.checkEndLabel schema (decide (site = .mapBody)) set = .ok set') ∧
      ∀ captures, call.onFailure = .Capture captures →
        checkCaptures schema (decide (site = .mapBody)) [] captures = .ok () := by
  unfold SubGraph.check at hchecked
  dsimp only at hchecked
  split at hchecked
  · cases hchecked
  rename_i hinputs
  split at hchecked
  · cases hchecked
  rename_i hconfig
  split at hchecked
  · cases hchecked
  rename_i set houtputs
  split at hchecked
  · cases hchecked
  rename_i set' hlabel
  refine ⟨hinputs, hconfig, ⟨set, set', houtputs, hlabel⟩, fun captures hcapturesEq => ?_⟩
  rw [hcapturesEq] at hchecked
  exact hchecked

private theorem checkEndLabel_ok {appendsOnly : Bool} {set set' : List Key}
    (hchecked : call.checkEndLabel schema appendsOnly set = .ok set') :
    (∀ target, call.endLabel = some target → target.receives schema = some .str ∧
        (appendsOnly = true → target.set? = none)) ∧
      firstTwice set (call.endLabel.toList.filterMap Output.set?) = none := by
  unfold SubGraph.checkEndLabel at hchecked
  split at hchecked
  · rename_i habsent
    rw [habsent]
    exact ⟨by simp, rfl⟩
  · rename_i target hgiven
    split at hchecked
    · cases hchecked
    · rename_i hfits
      rw [hgiven]
      refine ⟨?_, ?_⟩
      · intro other hsame
        cases hsame
        exact checkTarget_ok hfits
      · have honce := setOnce_ok hchecked []
        rw [List.append_nil] at honce
        cases target with
        | Set key => exact honce.trans rfl
        | Append key => rfl

/-- The outputs of a checked call are read from every state of the child's schema, and the caller
takes them. -/
private theorem outputsOf_accepted {final : State C} (hchecked : call.check schema site = .ok ())
    (hmade : final.MadeFrom call.graph.graph.schema) (label : EndLabel) :
    ∃ updates, call.outputsOf final label = .ok updates ∧ Accepted schema site updates := by
  obtain ⟨-, -, ⟨set, set', houtputs, hlabelOk⟩, -⟩ := check_ok hchecked
  obtain ⟨hfit, hsets⟩ := checkOutputs_ok houtputs
  obtain ⟨hends, hlast⟩ := checkEndLabel_ok hlabelOk
  have honce : firstTwice []
      ((call.outputs.map Prod.snd ++ call.endLabel.toList).filterMap Output.set?) = none := by
    rw [List.filterMap_append, hsets, hlast]
  obtain ⟨updates, hread, hfills⟩ := outputsOf_fills label hmade
    (fun output hmember => by
      obtain ⟨kind, hdeclared, hreceives, -⟩ := hfit output hmember
      exact ⟨kind, hdeclared, hreceives⟩)
    (fun target hgiven => (hends target hgiven).1)
  refine ⟨updates, hread, fun other hown => hfills.applyBatch honce hown, fun hbody => ?_⟩
  have hlists : ∀ target ∈ call.outputs.map Prod.snd ++ call.endLabel.toList,
      target.set? = none := by
    intro target hmember
    rcases List.mem_append.mp hmember with houtput | hgiven
    · obtain ⟨own, hlisted, rfl⟩ := List.mem_map.mp houtput
      obtain ⟨-, -, -, honly⟩ := hfit own hlisted
      exact honly (decide_eq_true hbody)
    · exact (hends target (Option.mem_toList.mp hgiven)).2 (decide_eq_true hbody)
  exact ⟨hfills.appends hlists, fun other hown => hfills.checkAppends hlists hown⟩

end Outputs

section Call

variable {call : SubGraph C} {site : CheckSite} {state : State C} {config : Config C}

/-- A checked call makes a start state of the child. -/
private theorem childState_ok (hchecked : call.check schema site = .ok ())
    (hmade : state.MadeFrom schema) (hconfigured : config.MadeFrom schema.config) :
    ∃ start, call.childState state config = .ok start ∧
      start.MadeFrom call.graph.graph.schema := by
  obtain ⟨hfit, honce, hall⟩ := checkMappings_ok (check_ok hchecked).1
  obtain ⟨given, hresolved, hkeys, htyped⟩ := resolve_ok hmade hconfigured hfit
  rw [← hkeys] at honce hall
  obtain ⟨start, hstarted, hown⟩ := startState_ok htyped honce fun entry hmember =>
    (hall entry hmember).resolve_left List.not_mem_nil
  refine ⟨start, ?_, hown⟩
  rw [SubGraph.childState, hresolved]
  exact hstarted

/-- A checked call makes a configuration of the child. -/
private theorem childConfig_ok (hchecked : call.check schema site = .ok ())
    (hmade : state.MadeFrom schema) (hconfigured : config.MadeFrom schema.config) :
    ∃ child, call.childConfig state config = .ok child ∧
      child.MadeFrom call.graph.graph.schema.config := by
  obtain ⟨hfit, -, hall⟩ := checkMappings_ok (check_ok hchecked).2.1
  obtain ⟨given, hresolved, hkeys, htyped⟩ := resolve_ok hmade hconfigured hfit
  have hcomplete : checkComplete call.graph.graph.schema.config (collectEntries given) = .ok () := by
    refine checkComplete_ok (fun entry hmember => htyped entry (Lib.mem_collectEntries hmember)) ?_
    intro entry hmember
    refine Lib.lookup_collectEntries ?_
    rw [hkeys]
    exact (hall entry hmember).resolve_left List.not_mem_nil
  have hnew : Config.new call.graph.graph.schema (collectEntries given) =
      .ok ⟨call.graph.graph.schema.config, fun key => (collectEntries given).lookup key⟩ := by
    rw [Config.new, hcomplete]
  refine ⟨_, ?_, Config.new_made hnew⟩
  rw [SubGraph.childConfig, hresolved]
  exact hnew

/-- A nested run gives back a state of the child's schema. -/
private theorem runNested_made [DecidableEq C] {start : State C} {child : Config C} {ctx : Context}
    {store : PendingWrites C} {plan : List (Schedule C)} {outcome : Outcome C}
    (hmade : start.MadeFrom call.graph.graph.schema)
    (hran : call.runNested child start ctx store plan = some outcome) :
    outcome.state.MadeFrom call.graph.graph.schema ∨ ∃ error given, outcome = .Failed error given := by
  unfold SubGraph.runNested at hran
  split at hran
  · rename_i hrefused
    split at hran
    · cases hran
      unfold enter at hrefused
      dsimp only at hrefused
      split at hrefused
      · cases hrefused
        exact Or.inr ⟨_, _, rfl⟩
      · split at hrefused
        · cases hrefused
          exact Or.inr ⟨_, _, rfl⟩
        · cases hrefused
    · cases hran
  · rename_i here hentered
    obtain ⟨-, hown, -, -⟩ := enter_ok hentered
    refine Or.inl (runLoop_made ?_ hran)
    rw [hown]
    exact Built.enterPrivate_made hmade

/-- What a call returns of its nested run: updates the caller takes, or the refusal of a run that
stopped before its end, or the failure of a run that is not captured. -/
def SubGraph.Returned (schema : Schema C) (site : CheckSite) (call : SubGraph C) (state : State C)
    (outcome : Outcome C) : Prop :=
  (∃ updates, call.returns state outcome = .ok updates ∧ Accepted schema site updates) ∨
  ((∃ given, outcome = .Paused given ∨ outcome = .Cancelled given) ∧
    call.returns state outcome = .error (.graph SubGraph.suspended)) ∨
  ∃ error given, outcome = .Failed error given ∧ call.onFailure = .Propagate ∧
    call.returns state outcome = .error (.graph (SubGraph.failed error))

/-- A call that its graph has checked makes the start state and the configuration of its child from
every state and configuration of the caller's schema, and whatever comes of the nested run, it reads
its outputs or its captures and the caller takes the updates. -/
theorem call_sound [DecidableEq C] (schema : Schema C) (call : SubGraph C) (site : CheckSite)
    (hchecked : call.check schema site = .ok ()) (state : State C) (config : Config C)
    (hmade : state.MadeFrom schema) (hconfigured : config.MadeFrom schema.config) :
    ∃ start child, call.childState state config = .ok start ∧
      call.childConfig state config = .ok child ∧
      start.MadeFrom call.graph.graph.schema ∧ child.MadeFrom call.graph.graph.schema.config ∧
      ∀ ctx store plan outcome, call.runNested child start ctx store plan = some outcome →
        call.Returned schema site state outcome := by
  obtain ⟨start, hstarted, hown⟩ := childState_ok hchecked hmade hconfigured
  obtain ⟨child, hgiven, hsettled⟩ := childConfig_ok hchecked hmade hconfigured
  refine ⟨start, child, hstarted, hgiven, hown, hsettled, ?_⟩
  intro ctx store plan outcome hran
  have hkept := runNested_made hown hran
  cases outcome with
  | Finished final label =>
      left
      have hfinalMade : final.MadeFrom call.graph.graph.schema := by
        rcases hkept with hkept | ⟨_, _, hfailed⟩
        · exact hkept
        · cases hfailed
      obtain ⟨updates, hread, haccepted⟩ := outputsOf_accepted hchecked hfinalMade label
      refine ⟨updates, ?_, haccepted⟩
      rw [SubGraph.returns, hread]
  | Paused given => exact Or.inr (Or.inl ⟨⟨given, Or.inl rfl⟩, rfl⟩)
  | Cancelled given => exact Or.inr (Or.inl ⟨⟨given, Or.inr rfl⟩, rfl⟩)
  | Failed error given =>
      rcases hfailure : call.onFailure with _ | captures
      · refine Or.inr (Or.inr ⟨error, given, rfl, hfailure, ?_⟩)
        rw [SubGraph.returns, hfailure]
      · left
        obtain ⟨updates, hread, haccepted⟩ :=
          captured_accepted hmade ((check_ok hchecked).2.2.2 captures hfailure) error.display
        refine ⟨updates, ?_, haccepted⟩
        rw [SubGraph.returns, hfailure]
        dsimp only
        rw [hread]

end Call

namespace Ask

/-- A graph that answers a question. -/
def builder : GraphBuilder Unit where
  schema := ⟨[("answer", .str), ("question", .str)], [("model", .str)], []⟩
  privateKeys := [("conversation", .conversation)]
  entry := some "reply"
  nodes := [("reply", ⟨Fork.host, false⟩)]
  edges := [("reply", Fork.always [.End "done"])]
  inputs := ["question"]
  outputs := ["answer"]

def child : Built Unit :=
  ⟨builder, builder.build.toOption.get (by decide +kernel), eq_ok_toOption_get _ _⟩

def caller : Schema Unit :=
  ⟨[("answers", .list .str), ("item", .str)], [("model", .str)], []⟩

/-- The body of a map that asks each item; a failure is an answer too. -/
def call : SubGraph Unit where
  graph := child
  inputs := [("question", .From "item")]
  config := [("model", .Config "model")]
  outputs := [("answer", .Append "answers")]
  endLabel := none
  onFailure := .Capture [.append "answers" .reason]

def state : State Unit :=
  (State.new caller [("answers", .list []), ("item", .str "why")]).toOption.get (by decide +kernel)

def config : Config Unit :=
  (Config.new caller [("model", .str "small")]).toOption.get (by decide +kernel)

end Ask

theorem call_sound_ask : ∃ start child, Ask.call.childState Ask.state Ask.config = .ok start ∧
    Ask.call.childConfig Ask.state Ask.config = .ok child ∧
    start.MadeFrom Ask.call.graph.graph.schema ∧
    child.MadeFrom Ask.call.graph.graph.schema.config ∧
    ∀ ctx store plan outcome, Ask.call.runNested child start ctx store plan = some outcome →
      Ask.call.Returned Ask.caller .mapBody Ask.state outcome :=
  call_sound Ask.caller Ask.call .mapBody (eq_ok_toOption_get _ (by decide +kernel)) Ask.state
    Ask.config
    (State.new_made (eq_ok_toOption_get _ _)) (Config.new_made (eq_ok_toOption_get _ _))

end LlmGraph.Superstep
