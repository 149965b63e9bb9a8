/- digest: A node that calls another graph: the mappings of its inputs, configuration, outputs and
   captures, the check of these against the caller's schema, and the call itself. -/

import LlmGraph.Superstep.Typing

set_option autoImplicit false
set_option relaxedAutoImplicit false

namespace LlmGraph.Superstep

open Lib (collectEntries)

variable {C : Type} [Conversation C]

/-- Where the value of a child input, or of a child configuration key, comes from. -/
inductive Input (C : Type) where
  | From (key : Key)
  | Config (key : Key)
  | Const (value : Value C)

/-- Where a value that a node gives goes in the state of the graph it runs in. -/
inductive Output where
  | Set (key : Key)
  | Append (key : Key)
  deriving DecidableEq, Repr

namespace Output

def key : Output → Key
  | .Set key | .Append key => key

def update (target : Output) (value : Value C) : Update C :=
  match target with
  | .Set key => .set key value
  | .Append key => .append key value

/-- The kind a target takes: the kind of a set key, the element kind of an appended list. -/
def receives (schema : Schema C) : Output → Option Kind
  | .Set key => schema.stateKind key
  | .Append key =>
      match schema.stateKind key with
      | some (.list element) => some element
      | _ => none

/-- The key that a target sets. -/
def set? : Output → Option Key
  | .Set key => some key
  | .Append _ => none

end Output

def CaptureUpdate.target : CaptureUpdate C → Output
  | .set key _ => .Set key
  | .append key _ => .Append key

/-- What a call does when the nested run fails. -/
inductive OnFailure (C : Type) where
  | Propagate
  | Capture (captures : List (CaptureUpdate C))

/-- The fields of a call. -/
structure SubGraph (C : Type) [Conversation C] where
  graph : Built C
  inputs : List (Key × Input C)
  config : List (Key × Input C)
  outputs : List (Key × Output)
  endLabel : Option Output
  onFailure : OnFailure C

/-- `source_fits`: the source holds a value of the kind. -/
def Input.fits (schema : Schema C) (kind : Kind) : Input C → Bool
  | .From key => decide (schema.stateKind key = some kind)
  | .Config key => decide (schema.configKind key = some kind)
  | .Const value => value.matchesKind kind

/-- The value of a source. -/
def Input.read (state : State C) (config : Superstep.Config C) :
    Input C → Except (GraphError C) (Value C)
  | .From key => state.value key
  | .Config key => config.value key
  | .Const value => .ok value

/-- How a family of mappings refuses: a key that is not declared, one mapped twice, one whose source
does not fit, and a declared key that is not mapped. -/
structure MappingRefusals (C : Type) [Conversation C] where
  undeclared : Key → GraphError C
  twice : Key → GraphError C
  mismatch : Key → GraphError C
  unmapped : Key → GraphError C

/-- Each mapping names a declared key, once, with a source of its kind, and none is left out. -/
def checkMappings (refusals : MappingRefusals C) (schema : Schema C) (declared : List (Key × Kind))
    (mapped : List Key) : List (Key × Input C) → Except (GraphError C) Unit
  | [] =>
      match declared.find? fun entry => decide (entry.1 ∉ mapped) with
      | some (key, _) => .error (refusals.unmapped key)
      | none => .ok ()
  | (childKey, source) :: rest =>
      match declared.lookup childKey with
      | none => .error (refusals.undeclared childKey)
      | some kind =>
          if childKey ∈ mapped then .error (refusals.twice childKey)
          else if source.fits schema kind then
            checkMappings refusals schema declared (childKey :: mapped) rest
          else .error (refusals.mismatch childKey)

/-- A target receives a value of a kind; a map body may only append. -/
def checkTarget (schema : Schema C) (kind : Kind) (target : Output) (appendsOnly : Bool) :
    Except (GraphError C) Unit :=
  match target, appendsOnly with
  | .Set key, true => .error (.MapBodySet key)
  | target, _ =>
      if target.receives schema = some kind then .ok ()
      else .error (.Other
        s!"the call writes into {target.key}, which is missing or cannot take the value")

/-- Two outputs of one call never set the same key. -/
def setOnce (twice : Key → GraphError C) (set : List Key) (target : Output) :
    Except (GraphError C) (List Key) :=
  match target with
  | .Set key => if key ∈ set then .error (twice key) else .ok (key :: set)
  | .Append _ => .ok set

/-- `check_capture`: a capture update fits its target. -/
def checkCapture (schema : Schema C) (capture : CaptureUpdate C) (appendsOnly : Bool) :
    Except (GraphError C) Unit :=
  match capture.target, appendsOnly with
  | .Set key, true => .error (.MapBodySet key)
  | target, _ =>
      let fits : Bool := match target.receives schema, capture.source with
        | none, _ => false
        | some kind, .const value => value.matchesKind kind
        | some kind, .fromKey key => schema.stateKind key == some kind
        | some kind, .reason => kind == .str
      if fits then .ok () else .error (.CaptureMismatch target.key)

/-- Each capture update fits its target, and no key is set twice. -/
def checkCaptures (schema : Schema C) (appendsOnly : Bool) (set : List Key) :
    List (CaptureUpdate C) → Except (GraphError C) Unit
  | [] => .ok ()
  | capture :: rest =>
      match checkCapture schema capture appendsOnly with
      | .error error => .error error
      | .ok () =>
          match setOnce (fun key => .Other s!"a failure is captured by setting {key} twice") set
              capture.target with
          | .error error => .error error
          | .ok set => checkCaptures schema appendsOnly set rest

namespace SubGraph

variable (call : SubGraph C)

def checkInputs (schema : Schema C) : Except (GraphError C) Unit :=
  checkMappings {
    undeclared := fun key => .Other
      s!"the call maps {key}, which is not a declared input of the called graph"
    twice := fun key => .Other s!"the call maps input {key} of the called graph twice"
    mismatch := fun key => .Other
      s!"the call maps input {key} from a source that is missing or of another kind"
    unmapped := fun key => .Other s!"the call does not map input {key} of the called graph" }
    schema call.graph.inputs [] call.inputs

def checkConfig (schema : Schema C) : Except (GraphError C) Unit :=
  checkMappings {
    undeclared := fun key => .Other
      s!"the call maps {key}, which is not a configuration key of the called graph"
    twice := fun key => .Other s!"the call maps configuration key {key} of the called graph twice"
    mismatch := fun key => .Other
      s!"the call maps configuration key {key} from a source that is missing or of another kind"
    unmapped := fun key => .Other
      s!"the call does not map configuration key {key} of the called graph" }
    schema call.graph.graph.schema.config [] call.config

def setTwice (key : Key) : GraphError C := .Other s!"the call sets {key} from two outputs"

/-- The outputs are outputs of the child, each fits its target, and no key is set twice. -/
def checkOutputs (schema : Schema C) (appendsOnly : Bool) (set : List Key) :
    List (Key × Output) → Except (GraphError C) (List Key)
  | [] => .ok set
  | (childKey, target) :: rest =>
      match call.graph.outputs.lookup childKey with
      | none => .error (.Other
          s!"the call maps {childKey}, which is not a declared output of the called graph")
      | some kind =>
          match checkTarget schema kind target appendsOnly with
          | .error error => .error error
          | .ok () =>
              match setOnce setTwice set target with
              | .error error => .error error
              | .ok set => checkOutputs schema appendsOnly set rest

/-- The end label is a string, written like an output. -/
def checkEndLabel (schema : Schema C) (appendsOnly : Bool) (set : List Key) :
    Except (GraphError C) (List Key) :=
  match call.endLabel with
  | none => .ok set
  | some target =>
      match checkTarget schema .str target appendsOnly with
      | .error error => .error error
      | .ok () => setOnce setTwice set target

/-- `check_call`: a map body may only append. -/
def check (schema : Schema C) (site : CheckSite) : Except (GraphError C) Unit :=
  let appendsOnly := decide (site = .mapBody)
  match call.checkInputs schema with
  | .error error => .error error
  | .ok () =>
      match call.checkConfig schema with
      | .error error => .error error
      | .ok () =>
          match call.checkOutputs schema appendsOnly [] call.outputs with
          | .error error => .error error
          | .ok set =>
              match call.checkEndLabel schema appendsOnly set with
              | .error error => .error error
              | .ok _ =>
                  match call.onFailure with
                  | .Propagate => .ok ()
                  | .Capture captures => checkCaptures schema appendsOnly [] captures

/-- The values of the mapped keys, in the order of the mappings. -/
def resolve (state : State C) (config : Config C) :
    List (Key × Input C) → Except (GraphError C) (List (Key × Value C))
  | [] => .ok []
  | (childKey, source) :: rest =>
      match source.read state config with
      | .error error => .error error
      | .ok value =>
          match resolve state config rest with
          | .error error => .error error
          | .ok values => .ok ((childKey, value) :: values)

end SubGraph

namespace Built

variable (child : Built C)

/-- The given values of a start state: each that of a declared input, of its kind, and given
once. -/
def takeInputs (taken : List (Key × Value C)) :
    List (Key × Value C) → Except (GraphError C) (List (Key × Value C))
  | [] => .ok taken
  | (key, value) :: rest =>
      if (taken.lookup key).isSome then .error (.Other s!"input {key} is given twice")
      else
        match child.graph.schema.stateKind key with
        | none => .error (.UnknownKey key)
        | some kind =>
            if (child.inputs.lookup key).isNone then
              .error (.Other s!"key {key} is not a declared input of the graph")
            else if value.matchesKind kind then takeInputs (taken ++ [(key, value)]) rest
            else .error (.KindMismatch key kind value.tag)

/-- Every key of the schema with the value taken for it, or its default. -/
def fillDefaults (taken : List (Key × Value C)) :
    List (Key × Kind) → Except (GraphError C) (List (Key × Value C))
  | [] => .ok []
  | (key, _) :: rest =>
      match (taken.lookup key).or (child.graph.schema.defaultValue key) with
      | none => .error (.UnknownKey key)
      | some value =>
          match fillDefaults taken rest with
          | .error error => .error error
          | .ok values => .ok ((key, value) :: values)

/-- `start_state`: the declared inputs take the given values, every other key its default. -/
def startState (given : List (Key × Value C)) : Except (GraphError C) (State C) :=
  match child.takeInputs [] given with
  | .error error => .error error
  | .ok taken =>
      match child.inputs.find? fun entry => (taken.lookup entry.1).isNone with
      | some (key, _) => .error (.Other s!"input {key} of the graph is not given")
      | none =>
          match child.fillDefaults taken child.graph.schema.state with
          | .error error => .error error
          | .ok values => State.new child.graph.schema values

end Built

namespace SubGraph

variable (call : SubGraph C)

def childState (state : State C) (config : Config C) : Except (GraphError C) (State C) :=
  match resolve state config call.inputs with
  | .error error => .error error
  | .ok given => call.graph.startState given

def childConfig (state : State C) (config : Config C) : Except (GraphError C) (Config C) :=
  match resolve state config call.config with
  | .error error => .error error
  | .ok values => Config.new call.graph.graph.schema (collectEntries values)

/-- What a call settles before its nested run. -/
def start (state : State C) (config : Config C) : Except (GraphError C) Unit :=
  match call.childState state config with
  | .error error => .error error
  | .ok _ =>
      match call.childConfig state config with
      | .error error => .error error
      | .ok _ => .ok ()

/-- The call as a node of a graph. -/
def node : Node C := .call call.check call.start

/-- `run_nested` of the child, from its entry. -/
def runNested [DecidableEq C] (config : Config C) (state : State C) (ctx : Context)
    (store : PendingWrites C) (plan : List (Schedule C)) : Option (Outcome C) :=
  match enter call.graph.graph ctx store state none with
  | .error outcome => if plan.isEmpty then some outcome else none
  | .ok here => runLoop call.graph.graph config ctx here plan

/-- The updates that the mapped outputs make. -/
def outputUpdates (state : State C) : List (Key × Output) → Except (GraphError C) (List (Update C))
  | [] => .ok []
  | (childKey, target) :: rest =>
      match state.value childKey with
      | .error error => .error error
      | .ok value =>
          match outputUpdates state rest with
          | .error error => .error error
          | .ok updates => .ok (target.update value :: updates)

/-- `outputs_of`: the mapped outputs, and then the end label. -/
def outputsOf (state : State C) (label : EndLabel) : Except (GraphError C) (List (Update C)) :=
  match outputUpdates state call.outputs with
  | .error error => .error error
  | .ok updates =>
      match call.endLabel with
      | none => .ok updates
      | some target => .ok (updates ++ [target.update (.str label)])

def suspended : GraphError C :=
  .Other "the called graph stopped before its end (paused or cancelled)"

def failed (source : GraphError C) : GraphError C :=
  .Other s!"the called graph failed: {source.display}"

/-- What a call returns of its nested run. -/
def returns (state : State C) : Outcome C → RawOutcome C
  | .Finished final label =>
      match call.outputsOf final label with
      | .error error => .error (.graph error)
      | .ok updates => .ok updates
  | .Paused _ | .Cancelled _ => .error (.graph suspended)
  | .Failed error _ =>
      match call.onFailure with
      | .Propagate => .error (.graph (failed error))
      | .Capture captures =>
          match captured state error.display captures with
          | .error refused => .error (.graph refused)
          | .ok updates => .ok updates

end SubGraph

end LlmGraph.Superstep
