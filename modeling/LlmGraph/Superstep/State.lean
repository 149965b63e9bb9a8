/- digest: Typed states, configurations and updates of the superstep engine, and the batch of updates
   that is applied all or nothing. -/

import Mathlib.Data.Rat.Defs
import Mathlib.Logic.Function.Basic

set_option autoImplicit false
set_option relaxedAutoImplicit false

namespace LlmGraph.Superstep

abbrev Key := String
abbrev NodeId := String
abbrev EndLabel := String

/-- The conversation library: what a conversation takes, and how it refuses. -/
class Conversation (C : Type) where
  UserInput : Type
  Turn : Type
  TurnId : Type
  Step : Type
  ToolResult : Type
  MessageError : Type
  new : C
  pushInput : C → UserInput → Except MessageError C
  pushTurn : C → Turn → Except MessageError C
  pushStep : C → TurnId → Step → Except MessageError C
  pushResult : C → TurnId → ToolResult → Except MessageError C
  displayTurnId : TurnId → String
  displayError : MessageError → String

inductive Kind where
  | int
  | float
  | str
  | bool
  | list (element : Kind)
  | conversation
  deriving DecidableEq, Repr

def Kind.display : Kind → String
  | .int => "int"
  | .float => "float"
  | .str => "str"
  | .bool => "bool"
  | .list element => "list<" ++ element.display ++ ">"
  | .conversation => "conversation"

/-- A value of a state or a configuration.  A finite float is the number it stands for. -/
inductive Value (C : Type) where
  | int (value : Int)
  | float (value : Rat)
  | str (value : String)
  | bool (value : Bool)
  | list (items : List (Value C))
  | conversation (value : C)

variable {C : Type}

mutual

/-- Two values are compared part by part. -/
def Value.decEq [DecidableEq C] : (a b : Value C) → Decidable (a = b)
  | .int a, .int b => decidable_of_iff (a = b) (by simp)
  | .float a, .float b => decidable_of_iff (a = b) (by simp)
  | .str a, .str b => decidable_of_iff (a = b) (by simp)
  | .bool a, .bool b => decidable_of_iff (a = b) (by simp)
  | .conversation a, .conversation b => decidable_of_iff (a = b) (by simp)
  | .list a, .list b =>
      match Value.decEqAll a b with
      | .isTrue hsame => .isTrue (by rw [hsame])
      | .isFalse hdiffer => .isFalse (by simpa using hdiffer)
  | .int _, .float _ | .int _, .str _ | .int _, .bool _ | .int _, .list _ | .int _, .conversation _
  | .float _, .int _ | .float _, .str _ | .float _, .bool _ | .float _, .list _
  | .float _, .conversation _ | .str _, .int _ | .str _, .float _ | .str _, .bool _
  | .str _, .list _ | .str _, .conversation _ | .bool _, .int _ | .bool _, .float _
  | .bool _, .str _ | .bool _, .list _ | .bool _, .conversation _ | .list _, .int _
  | .list _, .float _ | .list _, .str _ | .list _, .bool _ | .list _, .conversation _
  | .conversation _, .int _ | .conversation _, .float _ | .conversation _, .str _
  | .conversation _, .bool _ | .conversation _, .list _ => .isFalse (by simp)

def Value.decEqAll [DecidableEq C] : (a b : List (Value C)) → Decidable (a = b)
  | [], [] => .isTrue rfl
  | [], _ :: _ => .isFalse (by simp)
  | _ :: _, [] => .isFalse (by simp)
  | a :: as, b :: bs =>
      match Value.decEq a b, Value.decEqAll as bs with
      | .isTrue hfirst, .isTrue hothers => .isTrue (by rw [hfirst, hothers])
      | .isFalse hdiffer, _ => .isFalse (by simp [hdiffer])
      | _, .isFalse hdiffer => .isFalse (by simp [hdiffer])

end

instance [DecidableEq C] : DecidableEq (Value C) := Value.decEq

def Value.tag : Value C → String
  | .int _ => "int"
  | .float _ => "float"
  | .str _ => "str"
  | .bool _ => "bool"
  | .list _ => "list"
  | .conversation _ => "conversation"

/-- `matches`: the value is of this kind, every item of a list too. -/
def Value.matchesKind : Value C → Kind → Bool
  | .int _, .int => true
  | .float _, .float => true
  | .str _, .str => true
  | .bool _, .bool => true
  | .conversation _, .conversation => true
  | .list items, .list element => items.all fun item => item.matchesKind element
  | _, _ => false

/-- What an edge names: a node to run next, or an end label. -/
inductive Target where
  | Node (id : NodeId)
  | End (label : EndLabel)
  deriving DecidableEq, Repr

def Target.display : Target → String
  | .Node id => "node " ++ id
  | .End label => "end " ++ label

section Errors

variable (C) [Conversation C]

mutual

/-- The refusals of the modelled functions, under the source's names; any other is known by its
text. -/
inductive GraphError where
  | MissingKey (key : Key)
  | UnknownKey (key : Key)
  | KindMismatch (key : Key) (expected : Kind) (found : String)
  | SetConflict (key : Key)
  | AppendNotList (key : Key)
  | NotConversation (key : Key)
  | Message (error : Conversation.MessageError C)
  | DuplicateNode (id : NodeId)
  | MissingEntry
  | UnknownEntry (id : NodeId)
  | NodeWithoutEdge (id : NodeId)
  | EdgeFromUnknownNode (id : NodeId)
  | DuplicateEdge (id : NodeId)
  | EdgeToUnknownNode (node target : NodeId)
  | UnknownNode (id : NodeId)
  | EmptyEdge (node : NodeId)
  | UndeclaredTarget (node : NodeId) (target : Target)
  | MapKeyMismatch (list item : Key)
  | NodeFailed (node : NodeId) (source : NodeFault)
  | AmbiguousEnd (labels : List EndLabel)
  | EmptyCursor
  | StateSchemaMismatch
  | ConfigSchemaMismatch
  | LimitKeyMismatch (key : Key)
  | LimitNotPositive (key : Key) (value : Int)
  | KeyCollision (key : Key)
  | DuplicateInput (key : Key)
  | DuplicateOutput (key : Key)
  | MapBodyNotAppend (key : Key)
  | MapBodySet (key : Key)
  | MapWithoutOccurrence
  | CaptureMismatch (key : Key)
  | InvalidNode (node : NodeId) (source : GraphError)
  | Other (text : String)

/-- What failed a node: the error it returned, the refusal of its updates, or its panic. -/
inductive NodeFault where
  | Returned (error : NodeError)
  | Refused (error : GraphError)
  | Panic (message : String)

/-- The error of a node: one of the engine, or the host's own with the text it displays. -/
inductive NodeError where
  | graph (error : GraphError)
  | host (text : String)

end

end Errors

section Display

variable [Conversation C]

mutual

def GraphError.display : GraphError C → String
  | .MissingKey key => s!"key {key} is declared but missing"
  | .UnknownKey key => s!"key {key} is not declared in the schema"
  | .KindMismatch key expected found =>
      s!"key {key} expects kind {expected.display} but found a {found} value"
  | .SetConflict key => s!"key {key} is set twice in one batch"
  | .AppendNotList key => s!"append requires key {key} to be a list"
  | .NotConversation key => s!"key {key} is not a conversation"
  | .Message error => s!"message error: {Conversation.displayError error}"
  | .DuplicateNode id => s!"node id {id} is registered twice"
  | .MissingEntry => "the graph has no entry node"
  | .UnknownEntry id => s!"entry {id} is not a registered node"
  | .NodeWithoutEdge id => s!"node {id} has no edge"
  | .EdgeFromUnknownNode id => s!"an edge starts from unknown node {id}"
  | .DuplicateEdge id => s!"node {id} has more than one edge"
  | .EdgeToUnknownNode node target =>
      s!"the edge of node {node} declares node {target}, which is not in the graph"
  | .UnknownNode id => s!"node {id} is not in the graph"
  | .EmptyEdge node => s!"the edge of node {node} returned no target"
  | .UndeclaredTarget node target =>
      s!"the edge of node {node} returned {target.display}, which it does not declare"
  | .MapKeyMismatch list item =>
      s!"map list {list} must be a list whose element kind is the kind of item {item}"
  | .NodeFailed node source => s!"node {node} failed: {source.display}"
  | .AmbiguousEnd labels => "the run ended with several labels [" ++ ", ".intercalate labels ++ "]"
  | .EmptyCursor => "the run was given an empty cursor: no node to run"
  | .StateSchemaMismatch => "the state was not made from the schema of the graph"
  | .ConfigSchemaMismatch => "the configuration was not made from the schema of the graph"
  | .LimitKeyMismatch key => s!"limit key {key} is not an int configuration key"
  | .LimitNotPositive key value => s!"limit key {key} holds {value}, not a positive integer"
  | .KeyCollision key => s!"key {key} is already a key of the graph"
  | .DuplicateInput key => s!"key {key} is declared twice as an input of the graph"
  | .DuplicateOutput key => s!"key {key} is declared twice as an output of the graph"
  | .MapBodyNotAppend key =>
      s!"a map body may only append to a list; it returned another update of {key}"
  | .MapBodySet key => s!"a map only appends to lists; {key} would be set"
  | .MapWithoutOccurrence => "a map runs as a node of a graph: its context names no node occurrence"
  | .CaptureMismatch key => "a failure is captured into " ++ key ++
      " from a source that is missing or of a kind " ++ key ++ " cannot take"
  | .InvalidNode node source => s!"node {node} is refused: {source.display}"
  | .Other text => text

def NodeFault.display : NodeFault C → String
  | .Returned error => s!"returned an error: {error.display}"
  | .Refused error => s!"its updates were refused: {error.display}"
  | .Panic message => s!"panicked: {message}"

def NodeError.display : NodeError C → String
  | .graph error => error.display
  | .host text => text

end

end Display

/-- `Schema`: the kinds of the state keys and of the configuration keys, and the defaults. -/
structure Schema (C : Type) where
  state : List (Key × Kind)
  config : List (Key × Kind)
  defaults : List (Key × Value C)
  deriving DecidableEq

/-- The value of a state key, its default or nothing of its kind. -/
def Kind.neutral [Conversation C] : Kind → Value C
  | .int => .int 0
  | .float => .float 0
  | .str => .str ""
  | .bool => .bool false
  | .list _ => .list []
  | .conversation => .conversation Conversation.new

namespace Schema

variable (schema : Schema C)

def stateKind (key : Key) : Option Kind := schema.state.lookup key

def configKind (key : Key) : Option Kind := schema.config.lookup key

def defaultValue [Conversation C] (key : Key) : Option (Value C) :=
  match schema.defaults.lookup key with
  | some value => some value
  | none => (schema.stateKind key).map Kind.neutral

/-- The first default whose key is not declared, or that is not of the kind of its key. -/
def checkDefaults [Conversation C] : Except (GraphError C) Unit :=
  schema.defaults.forM fun (key, value) =>
    match schema.stateKind key with
    | none => .error (.UnknownKey key)
    | some kind =>
        if value.matchesKind kind then .ok () else .error (.KindMismatch key kind value.tag)

end Schema

/-- One change to the state. -/
inductive Update (C : Type) [Conversation C] where
  | set (key : Key) (value : Value C)
  | append (key : Key) (value : Value C)
  | input (key : Key) (input : Conversation.UserInput C)
  | pushTurn (key : Key) (turn : Conversation.Turn C)
  | pushStep (key : Key) (turn : Conversation.TurnId C) (step : Conversation.Step C)
  | pushResult (key : Key) (turn : Conversation.TurnId C) (result : Conversation.ToolResult C)

def Update.key [Conversation C] : Update C → Key
  | .set key _ | .append key _ | .input key _ | .pushTurn key _ | .pushStep key _ _
  | .pushResult key _ _ => key

/-- The state of one run: its schema and the value of each key. -/
@[ext]
structure State (C : Type) where
  schema : Schema C
  values : Key → Option (Value C)

namespace State

variable [Conversation C] (state : State C)

def kindOf (key : Key) : Option Kind := state.schema.stateKind key

def value (key : Key) : Except (GraphError C) (Value C) :=
  match state.kindOf key with
  | none => .error (.UnknownKey key)
  | some _ =>
      match state.values key with
      | none => .error (.MissingKey key)
      | some value => .ok value

/-- The items of a list key, read by name. -/
def list (key : Key) : Except (GraphError C) (List (Value C)) :=
  match state.value key with
  | .error error => .error error
  | .ok (.list items) => .ok items
  | .ok other =>
      match state.kindOf key with
      | some declared => .error (.KindMismatch key (.list declared) other.tag)
      | none => .error (.UnknownKey key)

/-- The integer of a key, read by name. -/
def int (key : Key) : Except (GraphError C) Int :=
  match state.value key with
  | .error error => .error error
  | .ok (.int value) => .ok value
  | .ok other => .error (.KindMismatch key .int other.tag)

/-- The text of a key, read by name. -/
def str (key : Key) : Except (GraphError C) String :=
  match state.value key with
  | .error error => .error error
  | .ok (.str value) => .ok value
  | .ok other => .error (.KindMismatch key .str other.tag)

/-- The bool of a key, read by name. -/
def bool (key : Key) : Except (GraphError C) Bool :=
  match state.value key with
  | .error error => .error error
  | .ok (.bool value) => .ok value
  | .ok other => .error (.KindMismatch key .bool other.tag)

/-- The conversation of a key, read by name. -/
def conversation (key : Key) : Except (GraphError C) C :=
  match state.value key with
  | .error error => .error error
  | .ok (.conversation conversation) => .ok conversation
  | .ok other => .error (.KindMismatch key .conversation other.tag)

/-- The state with one key holding another value. -/
def insert (key : Key) (value : Value C) : State C :=
  { state with values := Function.update state.values key (some value) }

/-- `derive` and `apply_set`, which are the same: a declared key takes a value of its kind. -/
def derive (key : Key) (value : Value C) : Except (GraphError C) (State C) :=
  match state.kindOf key with
  | none => .error (.UnknownKey key)
  | some kind =>
      if value.matchesKind kind then .ok (state.insert key value)
      else .error (.KindMismatch key kind value.tag)

def applySet (key : Key) (value : Value C) : Except (GraphError C) (State C) :=
  state.derive key value

/-- Whether a value may be appended to a key: a declared list of the value's kind. -/
def checkAppend (key : Key) (value : Value C) : Except (GraphError C) Unit :=
  match state.kindOf key with
  | some (.list element) =>
      if value.matchesKind element then .ok () else .error (.KindMismatch key element value.tag)
  | some _ => .error (.AppendNotList key)
  | none => .error (.UnknownKey key)

def applyAppend (key : Key) (value : Value C) : Except (GraphError C) (State C) :=
  match state.checkAppend key value with
  | .error error => .error error
  | .ok () =>
      match state.values key with
      | some (.list items) => .ok (state.insert key (.list (items ++ [value])))
      | _ => .error (.AppendNotList key)

/-- `conversation_mut` and the push that follows it. -/
def changeConversation (key : Key) (push : C → Except (Conversation.MessageError C) C) :
    Except (GraphError C) (State C) :=
  match state.kindOf key with
  | none => .error (.UnknownKey key)
  | some _ =>
      match state.values key with
      | some (.conversation conversation) =>
          match push conversation with
          | .ok pushed => .ok (state.insert key (.conversation pushed))
          | .error error => .error (.Message error)
      | _ => .error (.NotConversation key)

def applyOne : Update C → Except (GraphError C) (State C)
  | .set key value => state.applySet key value
  | .append key value => state.applyAppend key value
  | .input key input => state.changeConversation key (Conversation.pushInput · input)
  | .pushTurn key turn => state.changeConversation key (Conversation.pushTurn · turn)
  | .pushStep key turn step => state.changeConversation key (Conversation.pushStep · turn step)
  | .pushResult key turn result =>
      state.changeConversation key (Conversation.pushResult · turn result)

/-- The first key that two updates of a batch set, the keys of `seen` being set before. -/
def setConflict (seen : List Key) : List (Update C) → Option Key
  | [] => none
  | .set key _ :: rest => if key ∈ seen then some key else setConflict (key :: seen) rest
  | _ :: rest => setConflict seen rest

/-- Applies updates in the order given, all or nothing. -/
def applyBatch (updates : List (Update C)) : Except (GraphError C) (State C) :=
  match setConflict [] updates with
  | some key => .error (.SetConflict key)
  | none => updates.foldlM applyOne state

/-- A key the state's schema did not declare takes the start value of the given schema. -/
def extended (schema : Schema C) : State C where
  schema := schema
  values key :=
    if (state.values key).isSome then state.values key
    else if (schema.stateKind key).isSome then schema.defaultValue key else none

/-- The keys the given schema does not declare are dropped. -/
def restricted (schema : Schema C) : State C where
  schema := schema
  values key := if (schema.stateKind key).isSome then state.values key else none

@[simp] theorem applyBatch_nil : state.applyBatch [] = .ok state := rfl

end State

/-- The configuration of a run: the kinds of its keys and their values. -/
structure Config (C : Type) where
  schema : List (Key × Kind)
  values : Key → Option (Value C)

namespace Config

variable [Conversation C] (config : Config C)

def value (key : Key) : Except (GraphError C) (Value C) :=
  match config.schema.lookup key with
  | none => .error (.UnknownKey key)
  | some _ =>
      match config.values key with
      | none => .error (.MissingKey key)
      | some value => .ok value

def int (key : Key) : Except (GraphError C) Int :=
  match config.value key with
  | .error error => .error error
  | .ok (.int value) => .ok value
  | .ok other => .error (.KindMismatch key .int other.tag)

end Config

end LlmGraph.Superstep
