/- digest: JSON trees, readers of their records that refuse unknown, repeated and missing fields,
   and the text layer below them as an interface. -/

set_option autoImplicit false
set_option relaxedAutoImplicit false

namespace LlmGraph.Lib

inductive Json where
  | null
  | bool (value : Bool)
  | num (text : String)
  | str (text : String)
  | arr (items : List Json)
  | obj (fields : List (String × Json))

/-- Why a tree is not the value it should be. -/
inductive ReadError where
  | invalidType (expected : String)
  | unknownField (name : String) (expected : List String)
  | duplicateField (name : String)
  | missingField (name : String)
  | invalidLength (length : Nat) (expected : String)
  | custom (text : String)
  deriving DecidableEq, Repr

/-- Text to tree and back, and how an error is told with its place in the text. -/
structure JsonText where
  print : Json → String
  parse : String → Except String Json
  explain : String → ReadError → String

/-- The text of the tree is read back as the tree. -/
def JsonText.Reads (text : JsonText) (tree : Json) : Prop := text.parse (text.print tree) = .ok tree

namespace Json

/-! The compact text of a tree. -/

/-- A character of a string as it stands between quotes. -/
def escape (c : Char) : String :=
  if c = '"' then "\\\""
  else if c = '\\' then "\\\\"
  else if c = '\n' then "\\n"
  else if c = '\r' then "\\r"
  else if c = '\t' then "\\t"
  else if c = Char.ofNat 8 then "\\b"
  else if c = Char.ofNat 12 then "\\f"
  else if c.toNat < 32 then
    "\\u00" ++ String.ofList [Nat.digitChar (c.toNat / 16), Nat.digitChar (c.toNat % 16)]
  else c.toString

def quote (text : String) : String := "\"" ++ String.join (text.toList.map escape) ++ "\""

mutual

def write : Json → String
  | .null => "null"
  | .bool value => toString value
  | .num text => text
  | .str text => quote text
  | .arr items => "[" ++ writeItems items ++ "]"
  | .obj fields => "\x7b" ++ writeFields fields ++ "\x7d"

def writeItems : List Json → String
  | [] => ""
  | [item] => write item
  | item :: rest => write item ++ "," ++ writeItems rest

def writeFields : List (String × Json) → String
  | [] => ""
  | [(name, value)] => quote name ++ ":" ++ write value
  | (name, value) :: rest => quote name ++ ":" ++ write value ++ "," ++ writeFields rest

end

variable {α β : Type}

def readString : Json → Except ReadError String
  | .str text => .ok text
  | _ => .error (.invalidType "a string")

def readItems (read : Json → Except ReadError β) : List Json → Except ReadError (List β)
  | [] => .ok []
  | item :: rest => do
      let value ← read item
      let values ← readItems read rest
      return value :: values

def readArray (read : Json → Except ReadError β) : Json → Except ReadError (List β)
  | .arr items => readItems read items
  | _ => .error (.invalidType "a sequence")

/-- Read the fields of a record in the order they come.  A field is read by the update it makes
to the slots of the record. -/
def readFields (expected : List String) (read : String → Json → Except ReadError (α → α)) :
    (seen : List String) → α → List (String × Json) → Except ReadError α
  | _, slots, [] => .ok slots
  | seen, slots, (name, value) :: rest =>
      if name ∉ expected then .error (.unknownField name expected)
      else if name ∈ seen then .error (.duplicateField name)
      else match read name value with
        | .error error => .error error
        | .ok fill => readFields expected read (name :: seen) (fill slots) rest

def required (slot : Option β) (name : String) : Except ReadError β :=
  match slot with
  | some value => .ok value
  | none => .error (.missingField name)

theorem readItems_map {read : Json → Except ReadError β} {write : β → Json} {values : List β}
    (heach : ∀ value ∈ values, read (write value) = .ok value) :
    readItems read (values.map write) = .ok values := by
  induction values with
  | nil => rfl
  | cons value rest hstep =>
      have hfirst := heach value List.mem_cons_self
      have hlater := hstep fun other hmember => heach other (List.mem_cons_of_mem _ hmember)
      simp [readItems, hfirst, hlater, bind, Except.bind, pure, Except.pure]

/-- A list written item by item is read back. -/
theorem readArray_map {read : Json → Except ReadError β} {write : β → Json} {values : List β}
    (heach : ∀ value ∈ values, read (write value) = .ok value) :
    readArray read (.arr (values.map write)) = .ok values :=
  readItems_map heach

end Json

end LlmGraph.Lib
