/- digest: States made from a schema hold a value of its kind for every key and nothing else; updates,
   private keys and whole runs of a built graph keep them so. -/

import LlmGraph.Lib.Entries
import LlmGraph.Superstep.Run

set_option autoImplicit false
set_option relaxedAutoImplicit false

namespace LlmGraph.Superstep

open Lib (forM_ok mem_of_lookup)

variable {C : Type} [Conversation C]

/-- Values for the keys of a schema: one of its kind for each, and none for another key. -/
structure Complete (kinds : List (Key × Kind)) (values : Key → Option (Value C)) : Prop where
  holds : ∀ key kind, kinds.lookup key = some kind →
    ∃ value, values key = some value ∧ value.matchesKind kind = true
  others : ∀ key, kinds.lookup key = none → values key = none

/-- Every value is that of a declared key, and of its kind. -/
def checkValues (kinds : List (Key × Kind)) : List (Key × Value C) → Except (GraphError C) Unit
  | [] => .ok ()
  | (key, value) :: rest =>
      match kinds.lookup key with
      | none => .error (.UnknownKey key)
      | some kind =>
          if value.matchesKind kind then checkValues kinds rest
          else .error (.KindMismatch key kind value.tag)

/-- The values are checked, and then that no key is left without one. -/
def checkComplete (kinds : List (Key × Kind)) (values : List (Key × Value C)) :
    Except (GraphError C) Unit :=
  match checkValues kinds values with
  | .error error => .error error
  | .ok () =>
      match kinds.find? fun entry => (values.lookup entry.1).isNone with
      | some (key, _) => .error (.MissingKey key)
      | none => .ok ()

def State.new (schema : Schema C) (values : List (Key × Value C)) :
    Except (GraphError C) (State C) :=
  match checkComplete schema.state values with
  | .error error => .error error
  | .ok () => .ok ⟨schema, fun key => values.lookup key⟩

def Config.new (schema : Schema C) (values : List (Key × Value C)) :
    Except (GraphError C) (Config C) :=
  match checkComplete schema.config values with
  | .error error => .error error
  | .ok () => .ok ⟨schema.config, fun key => values.lookup key⟩

/-- What `State::new` guarantees, and every update keeps. -/
structure State.MadeFrom (state : State C) (schema : Schema C) : Prop where
  same : state.schema = schema
  complete : Complete schema.state state.values

/-- What `Config::new` guarantees. -/
structure Config.MadeFrom (config : Config C) (kinds : List (Key × Kind)) : Prop where
  same : config.schema = kinds
  complete : Complete kinds config.values

section New

variable {kinds : List (Key × Kind)} {values : List (Key × Value C)}

theorem checkValues_ok : checkValues kinds values = .ok () ↔
    ∀ entry ∈ values, ∃ kind, kinds.lookup entry.1 = some kind ∧
      entry.2.matchesKind kind = true := by
  induction values with
  | nil => simp [checkValues]
  | cons entry rest hstep =>
      obtain ⟨key, value⟩ := entry
      rw [List.forall_mem_cons, ← hstep, checkValues]
      rcases hdeclared : kinds.lookup key with _ | kind
      · simp
      · by_cases hfits : value.matchesKind kind = true
        · simp [hfits]
        · simp [hfits]

/-- Checked values are complete. -/
theorem checkComplete_complete (hchecked : checkComplete kinds values = .ok ()) :
    Complete kinds fun key => values.lookup key := by
  unfold checkComplete at hchecked
  split at hchecked
  · cases hchecked
  rename_i htyped
  split at hchecked
  · cases hchecked
  rename_i hall
  rw [checkValues_ok] at htyped
  refine ⟨?_, ?_⟩
  · intro key kind hdeclared
    have hgiven := List.find?_eq_none.mp hall (key, kind) (mem_of_lookup hdeclared)
    rcases hheld : values.lookup key with _ | value
    · simp [hheld] at hgiven
    · obtain ⟨own, hfound, hfits⟩ := htyped _ (mem_of_lookup hheld)
      rw [hdeclared] at hfound
      cases hfound
      exact ⟨value, rfl, hfits⟩
  · intro key habsent
    rcases hheld : values.lookup key with _ | value
    · rfl
    · obtain ⟨own, hfound, -⟩ := htyped _ (mem_of_lookup hheld)
      rw [habsent] at hfound
      cases hfound

/-- Values of the declared kinds, one for each key, are accepted. -/
theorem checkComplete_ok
    (htyped : ∀ entry ∈ values, ∃ kind, kinds.lookup entry.1 = some kind ∧
      entry.2.matchesKind kind = true)
    (hall : ∀ entry ∈ kinds, (values.lookup entry.1).isSome = true) :
    checkComplete kinds values = .ok () := by
  have hnothing : (kinds.find? fun entry => (values.lookup entry.1).isNone) = none := by
    refine List.find?_eq_none.mpr fun entry hmember => ?_
    have hgiven := hall entry hmember
    simp [Option.isNone_iff_eq_none, Option.isSome_iff_ne_none.mp hgiven]
  rw [checkComplete, checkValues_ok.mpr htyped, hnothing]

theorem State.new_made {schema : Schema C} {state : State C}
    (hmade : State.new schema values = .ok state) : state.MadeFrom schema := by
  unfold State.new at hmade
  split at hmade
  · cases hmade
  · rename_i hchecked
    cases hmade
    exact ⟨rfl, checkComplete_complete hchecked⟩

theorem Config.new_made {schema : Schema C} {config : Config C}
    (hmade : Config.new schema values = .ok config) : config.MadeFrom schema.config := by
  unfold Config.new at hmade
  split at hmade
  · cases hmade
  · rename_i hchecked
    cases hmade
    exact ⟨rfl, checkComplete_complete hchecked⟩

end New

omit [Conversation C] in
/-- A value of the kind of its key may take the place of another. -/
theorem Complete.update {kinds : List (Key × Kind)} {values : Key → Option (Value C)} {key : Key}
    {kind : Kind} {value : Value C} (hcomplete : Complete kinds values)
    (hdeclared : kinds.lookup key = some kind) (hfits : value.matchesKind kind = true) :
    Complete kinds (Function.update values key (some value)) := by
  refine ⟨?_, ?_⟩
  · intro other own hfound
    by_cases hhere : other = key
    · subst hhere
      rw [hdeclared] at hfound
      cases hfound
      exact ⟨value, Function.update_self .., hfits⟩
    · rw [Function.update_of_ne hhere]
      exact hcomplete.holds other own hfound
  · intro other habsent
    have hapart : other ≠ key := by
      rintro rfl
      rw [hdeclared] at habsent
      cases habsent
    rw [Function.update_of_ne hapart]
    exact hcomplete.others other habsent

namespace State.MadeFrom

variable {state next : State C} {schema : Schema C} {key : Key} {value : Value C}

omit [Conversation C] in
theorem kindOf [Conversation C] (hmade : state.MadeFrom schema) (key : Key) :
    state.kindOf key = schema.stateKind key := by
  rw [State.kindOf, hmade.same]

/-- A declared key is read as a value of its kind. -/
theorem value_ok {kind : Kind} (hmade : state.MadeFrom schema)
    (hdeclared : schema.stateKind key = some kind) :
    ∃ value, state.value key = .ok value ∧ value.matchesKind kind = true := by
  obtain ⟨value, hheld, hfits⟩ := hmade.complete.holds key kind hdeclared
  refine ⟨value, ?_, hfits⟩
  rw [State.value, hmade.kindOf, hdeclared, hheld]

omit [Conversation C] in
theorem insert [Conversation C] {kind : Kind} (hmade : state.MadeFrom schema)
    (hdeclared : schema.stateKind key = some kind) (hfits : value.matchesKind kind = true) :
    (state.insert key value).MadeFrom schema :=
  ⟨hmade.same, hmade.complete.update hdeclared hfits⟩

theorem derive (hmade : state.MadeFrom schema) (hderived : state.derive key value = .ok next) :
    next.MadeFrom schema := by
  unfold State.derive at hderived
  rw [hmade.kindOf] at hderived
  split at hderived
  · cases hderived
  · rename_i kind hdeclared
    split at hderived
    · rename_i hfits
      cases hderived
      exact hmade.insert hdeclared hfits
    · cases hderived

/-- Appending an element of the kind of a list keeps the list one of its kind. -/
private theorem applyAppend (hmade : state.MadeFrom schema)
    (happended : state.applyAppend key value = .ok next) : next.MadeFrom schema := by
  unfold State.applyAppend at happended
  split at happended
  · cases happended
  · rename_i hchecked
    split at happended
    · rename_i items hheld
      cases happended
      unfold State.checkAppend at hchecked
      rw [hmade.kindOf] at hchecked
      split at hchecked
      · rename_i element hdeclared
        split at hchecked
        · rename_i hfits
          obtain ⟨own, hfound, htyped⟩ := hmade.complete.holds key _ hdeclared
          rw [hheld] at hfound
          cases hfound
          refine hmade.insert hdeclared ?_
          rw [Value.matchesKind] at htyped ⊢
          rw [List.all_append, htyped, Bool.true_and, List.all_cons, hfits, Bool.true_and]
          rfl
        · cases hchecked
      · cases hchecked
      · cases hchecked
    · cases happended

private theorem changeConversation {push : C → Except (Conversation.MessageError C) C}
    (hmade : state.MadeFrom schema) (hchanged : state.changeConversation key push = .ok next) :
    next.MadeFrom schema := by
  unfold State.changeConversation at hchanged
  split at hchanged
  · cases hchanged
  · rename_i kind hdeclared
    rw [hmade.kindOf] at hdeclared
    split at hchanged
    · rename_i conversation hheld
      split at hchanged
      · cases hchanged
        obtain ⟨own, hfound, htyped⟩ := hmade.complete.holds key kind hdeclared
        rw [hheld] at hfound
        cases hfound
        refine hmade.insert hdeclared ?_
        cases kind with
        | conversation => rfl
        | _ => exact absurd htyped (by simp [Value.matchesKind])
      · cases hchanged
    · cases hchanged

theorem applyOne {update : Update C} (hmade : state.MadeFrom schema)
    (happlied : state.applyOne update = .ok next) : next.MadeFrom schema := by
  cases update with
  | set => exact hmade.derive happlied
  | append => exact hmade.applyAppend happlied
  | input => exact hmade.changeConversation happlied
  | pushTurn => exact hmade.changeConversation happlied
  | pushStep => exact hmade.changeConversation happlied
  | pushResult => exact hmade.changeConversation happlied

theorem applyAll {updates : List (Update C)} (hmade : state.MadeFrom schema)
    (happlied : updates.foldlM State.applyOne state = .ok next) : next.MadeFrom schema := by
  induction updates generalizing state with
  | nil =>
      cases happlied
      exact hmade
  | cons update rest hstep =>
      rw [List.foldlM_cons] at happlied
      rcases hfirst : state.applyOne update with error | middle
      · rw [hfirst] at happlied
        cases happlied
      · rw [hfirst] at happlied
        exact hstep (hmade.applyOne hfirst) happlied

theorem applyBatch {updates : List (Update C)} (hmade : state.MadeFrom schema)
    (happlied : state.applyBatch updates = .ok next) : next.MadeFrom schema := by
  unfold State.applyBatch at happlied
  split at happlied
  · cases happlied
  · exact hmade.applyAll happlied

theorem applyBatches {batches : List (List (Update C))} (hmade : state.MadeFrom schema)
    (happlied : batches.foldlM State.applyBatch state = .ok next) : next.MadeFrom schema := by
  induction batches generalizing state with
  | nil =>
      cases happlied
      exact hmade
  | cons batch rest hstep =>
      rw [List.foldlM_cons] at happlied
      rcases hfirst : state.applyBatch batch with error | middle
      · rw [hfirst] at happlied
        cases happlied
      · rw [hfirst] at happlied
        exact hstep (hmade.applyBatch hfirst) happlied

end State.MadeFrom

/-- The neutral value of a kind is of that kind. -/
theorem Kind.neutral_matches (kind : Kind) : (kind.neutral : Value C).matchesKind kind = true := by
  cases kind with
  | list => simp [Kind.neutral, Value.matchesKind]
  | _ => rfl

namespace Schema

variable {schema : Schema C} {key : Key} {kind : Kind}

/-- Checked defaults are of the kind of their keys, as neutral values are. -/
theorem defaultValue_ok (hchecked : schema.checkDefaults = .ok ())
    (hdeclared : schema.stateKind key = some kind) :
    ∃ value, schema.defaultValue key = some value ∧ value.matchesKind kind = true := by
  unfold defaultValue
  rcases hgiven : schema.defaults.lookup key with _ | value
  · exact ⟨kind.neutral, by rw [hdeclared]; rfl, kind.neutral_matches⟩
  · refine ⟨value, rfl, ?_⟩
    have hpassed := forM_ok hchecked _ (mem_of_lookup hgiven)
    dsimp only at hpassed
    rw [hdeclared] at hpassed
    dsimp only at hpassed
    split at hpassed
    · rename_i hfits
      exact hfits
    · cases hpassed

/-- An undeclared key has no checked default. -/
theorem defaults_none (hchecked : schema.checkDefaults = .ok ())
    (habsent : schema.stateKind key = none) : schema.defaults.lookup key = none := by
  rcases hgiven : schema.defaults.lookup key with _ | value
  · rfl
  · have hpassed := forM_ok hchecked _ (mem_of_lookup hgiven)
    dsimp only at hpassed
    rw [habsent] at hpassed
    cases hpassed

end Schema

/-- What the build of a graph has checked of its keys. -/
structure GraphBuilder.Keyed (builder : GraphBuilder C) (graph : Graph C) : Prop where
  schema_eq : graph.schema = builder.schema
  private_eq : graph.privateKeys = builder.privateKeys
  run_eq : graph.runSchema = builder.runSchema
  defaults : builder.schema.checkDefaults = .ok ()
  inputs : builder.resolve .DuplicateInput [] builder.inputs = .ok ()
  outputs : builder.resolve .DuplicateOutput [] builder.outputs = .ok ()
  apart : builder.checkPrivate = .ok ()

theorem GraphBuilder.build_ok {builder : GraphBuilder C} {graph : Graph C}
    (hbuilt : builder.build = .ok graph) : builder.Keyed graph := by
  unfold GraphBuilder.build at hbuilt
  simp only [bind, Except.bind] at hbuilt
  split at hbuilt
  · cases hbuilt
  rename_i hdefaults
  split at hbuilt
  · cases hbuilt
  rename_i hinputs
  split at hbuilt
  · cases hbuilt
  rename_i houtputs
  split at hbuilt
  · cases hbuilt
  rename_i hapart
  split at hbuilt
  · cases hbuilt
  split at hbuilt
  · cases hbuilt
  split at hbuilt
  · split at hbuilt
    · cases hbuilt
    split at hbuilt
    · cases hbuilt
    split at hbuilt
    · cases hbuilt
    split at hbuilt
    · cases hbuilt
    · cases hbuilt
      exact ⟨rfl, rfl, rfl, hdefaults, hinputs, houtputs, hapart⟩
  · cases hbuilt

/-- A graph with what it was built from. -/
structure Built (C : Type) [Conversation C] where
  builder : GraphBuilder C
  graph : Graph C
  built : builder.build = .ok graph

namespace Built

variable (child : Built C)

/-- The kinds of declared keys, as `Signature::resolve` collects them. -/
def kindsOf (keys : List Key) : List (Key × Kind) :=
  Lib.collectEntries
    (keys.filterMap fun key => (child.graph.schema.stateKind key).map fun kind => (key, kind))

/-- The inputs of the signature, with their kinds. -/
def inputs : List (Key × Kind) := child.kindsOf child.builder.inputs

/-- The outputs of the signature, with their kinds. -/
def outputs : List (Key × Kind) := child.kindsOf child.builder.outputs

theorem keyed : child.builder.Keyed child.graph := GraphBuilder.build_ok child.built

theorem defaults : child.graph.schema.checkDefaults = .ok () := by
  rw [child.keyed.schema_eq]
  exact child.keyed.defaults

theorem runSchema_eq : child.graph.runSchema = { child.graph.schema with
    state := child.graph.schema.state ++ child.graph.privateKeys } := by
  rw [child.keyed.run_eq, child.keyed.schema_eq, child.keyed.private_eq]
  rfl

/-- An input or an output has the kind that the schema declares. -/
theorem kindsOf_stateKind {keys : List Key} {key : Key} {kind : Kind}
    (hmember : (key, kind) ∈ child.kindsOf keys) : child.graph.schema.stateKind key = some kind := by
  obtain ⟨other, -, hfound⟩ := List.mem_filterMap.mp (Lib.mem_collectEntries hmember)
  obtain ⟨own, hdeclared, hsame⟩ := Option.map_eq_some_iff.mp hfound
  cases hsame
  exact hdeclared

/-- The kind of a key in the schema of a run: the one of the schema, or that of a private key. -/
theorem runKind (key : Key) : child.graph.runSchema.stateKind key =
    (child.graph.schema.stateKind key).or (child.graph.privateKeys.lookup key) := by
  rw [child.runSchema_eq]
  exact List.lookup_append

/-- The schema of a run gives every key of its own a value of its kind to start from. -/
theorem runDefaults {key : Key} {kind : Kind}
    (hdeclared : child.graph.runSchema.stateKind key = some kind) :
    ∃ value, child.graph.runSchema.defaultValue key = some value ∧
      value.matchesKind kind = true := by
  have hsame : child.graph.runSchema.defaults = child.graph.schema.defaults := by
    rw [child.runSchema_eq]
  rw [Schema.defaultValue, hsame, hdeclared]
  rcases hown : child.graph.schema.stateKind key with _ | other
  · rw [Schema.defaults_none child.defaults hown]
    exact ⟨kind.neutral, rfl, kind.neutral_matches⟩
  · rw [child.runKind, hown, Option.some_or] at hdeclared
    cases hdeclared
    have hgiven := Schema.defaultValue_ok child.defaults hown
    rw [Schema.defaultValue, hown] at hgiven
    exact hgiven

variable [DecidableEq C] {child}

omit [DecidableEq C] in
theorem runSchema_of_none (hopen : child.graph.hasPrivate = false) :
    child.graph.runSchema = child.graph.schema := by
  have hnothing : child.graph.privateKeys = [] := by
    simpa [Graph.hasPrivate] using hopen
  rw [child.runSchema_eq, hnothing, List.append_nil]

/-- A run works on a state made from its own schema. -/
theorem enterPrivate_made {state : State C} (hmade : state.MadeFrom child.graph.schema) :
    (child.graph.enterPrivate state).MadeFrom child.graph.runSchema := by
  unfold Graph.enterPrivate
  split
  · rename_i hunchanged
    rw [Bool.or_eq_true, Bool.not_eq_true', decide_eq_true_eq] at hunchanged
    rcases hunchanged with hopen | hsame
    · rw [runSchema_of_none hopen]
      exact hmade
    · rw [← hsame, hmade.same]
      exact hmade
  · refine ⟨rfl, ?_, ?_⟩
    · intro key kind hdeclared
      dsimp only [State.extended]
      rcases hheld : state.values key with _ | value
      · obtain ⟨value, hgiven, hfits⟩ := child.runDefaults hdeclared
        refine ⟨value, ?_, hfits⟩
        rw [Schema.stateKind, hdeclared, Option.isSome_none, Option.isSome_some, hgiven]
        rfl
      · refine ⟨value, rfl, ?_⟩
        rcases hown : child.graph.schema.stateKind key with _ | other
        · rw [hmade.complete.others key hown] at hheld
          cases hheld
        · obtain ⟨value', hheld', hfits⟩ := hmade.complete.holds key other hown
          rw [hheld] at hheld'
          cases hheld'
          have hrun : child.graph.runSchema.stateKind key = some kind := hdeclared
          rw [child.runKind, hown, Option.some_or] at hrun
          cases hrun
          exact hfits
    · intro key habsent
      have hrun : child.graph.runSchema.stateKind key = none := habsent
      rw [child.runKind, Option.or_eq_none_iff] at hrun
      dsimp only [State.extended]
      rw [hmade.complete.others key hrun.1, Schema.stateKind, habsent]
      rfl

/-- A run gives back a state made from the schema of its graph. -/
theorem leavePrivate_made {state : State C} (hmade : state.MadeFrom child.graph.runSchema) :
    (child.graph.leavePrivate state).MadeFrom child.graph.schema := by
  unfold Graph.leavePrivate
  split
  · rename_i hunchanged
    rw [Bool.or_eq_true, Bool.not_eq_true', decide_eq_true_eq] at hunchanged
    rcases hunchanged with hopen | hsame
    · rw [← runSchema_of_none hopen]
      exact hmade
    · rw [← hsame, hmade.same]
      exact hmade
  · refine ⟨rfl, ?_, ?_⟩
    · intro key kind hdeclared
      have hown : child.graph.schema.stateKind key = some kind := hdeclared
      obtain ⟨value, hheld, hfits⟩ := hmade.complete.holds key kind (by
        have hrun := child.runKind key
        rw [hown, Option.some_or] at hrun
        exact hrun)
      refine ⟨value, ?_, hfits⟩
      dsimp only [State.restricted]
      rw [hown, hheld]
      rfl
    · intro key habsent
      have hown : child.graph.schema.stateKind key = none := habsent
      dsimp only [State.restricted]
      rw [hown]
      rfl

end Built

/-- The state that a run gives back. -/
def Outcome.state : Outcome C → State C
  | .Finished state _ => state
  | .Paused checkpoint | .Cancelled checkpoint | .Failed _ checkpoint => checkpoint.state

section Runs

variable [DecidableEq C] {child : Built C} {config : Config C} {ctx : Context}
  {store : PendingWrites C} {here next : Standing C} {state : State C}

private theorem cancelled_made {inputs : List (Update C)} {active deferred : List NodeId}
    (hmade : state.MadeFrom child.graph.runSchema) :
    (cancelled child.graph ctx store state inputs active deferred).state.MadeFrom
      child.graph.schema := by
  unfold cancelled
  split
  · exact Built.leavePrivate_made hmade
  · rename_i htaken
    exact Built.leavePrivate_made (hmade.applyBatch htaken)

omit [DecidableEq C] in
private theorem withInputs_made {inputs : List (Update C)} {schema : Schema C}
    (hmade : state.MadeFrom schema) : (withInputs state inputs).MadeFrom schema := by
  unfold withInputs
  split
  · exact hmade
  · split
    · rename_i htaken
      exact hmade.applyBatch htaken
    · exact hmade

/-- A superstep goes on with a state made from the schema of the run, and gives back one made from
the schema of the graph. -/
theorem superstep_made {schedule : Schedule C} {stepped : Stepped C}
    (hmade : here.state.MadeFrom child.graph.runSchema)
    (htaken : superstep child.graph config ctx here schedule = some stepped) :
    match stepped.ending with
    | .goes next => next.state.MadeFrom child.graph.runSchema
    | .ends outcome => outcome.state.MadeFrom child.graph.schema := by
  rcases superstep_cases htaken with ⟨-, -, hending⟩ | ⟨_, _, _, -, -, -, hending⟩ |
    ⟨results, settled, store, -, -, hsettling, hending⟩
  · rw [hending]
    exact cancelled_made hmade
  · rw [hending]
    exact Built.leavePrivate_made (withInputs_made hmade)
  · obtain ⟨middle, hfolded, hgiven⟩ := (settle_ok hsettling).applied
    have hsettledMade : settled.state.MadeFrom child.graph.runSchema :=
      (hmade.applyBatches hfolded).applyBatch hgiven
    rw [hending, proceed]
    split
    · rename_i hgoes
      split at hgoes
      · cases hgoes
      · split at hgoes
        · cases hgoes
        · cases hgoes
          exact hsettledMade
    · rename_i hends
      split at hends
      · cases hends
        exact Built.leavePrivate_made hsettledMade
      · split at hends
        · cases hends
          exact Built.leavePrivate_made hsettledMade
        · cases hends

theorem runLoop_made {plan : List (Schedule C)} {outcome : Outcome C}
    (hmade : here.state.MadeFrom child.graph.runSchema)
    (hran : runLoop child.graph config ctx here plan = some outcome) :
    outcome.state.MadeFrom child.graph.schema := by
  induction plan generalizing here with
  | nil => cases hran
  | cons schedule rest hstep =>
      unfold runLoop at hran
      split at hran
      · cases hran
      · rename_i stepped htaken
        have hkept := superstep_made hmade htaken
        split at hran
        · rename_i given hends
          rw [hends] at hkept
          split at hran
          · cases hran
            exact hkept
          · cases hran
        · rename_i next hgoes
          rw [hgoes] at hkept
          exact hstep hkept hran

end Runs

end LlmGraph.Superstep
