/- digest: The state of a run: the fields of the host with their size limit, and how an update
   replaces them. -/

import Mathlib.Data.PNat.Notation
import LlmGraph.Lib.Attempt

set_option autoImplicit false
set_option relaxedAutoImplicit false

namespace LlmGraph.Contract

open Lib (Attempt)

/-- The text of a refusal. -/
abbrev Reason := String

/-- What a host supplies as the content of a state.  Serialising is a call into host code at
the moment `now`, and may fail at one moment and succeed at another. -/
class Fields (F : Type) where
  Update : Type
  emptyUpdate : Update
  validate : F → Attempt Reason Unit
  apply : F → Update → Attempt Reason F
  toJson : (now : Nat) → F → Attempt String String
  fromJson : String → Attempt String F

/-- Why fields cannot be a state. -/
structure InvalidState where
  reason : Reason
  deriving DecidableEq, Repr

namespace InvalidState

def display (error : InvalidState) : String := "invalid state: " ++ error.reason

def oversize (size limit : Nat) : InvalidState :=
  ⟨"serialized fields take " ++ toString size ++ " bytes, over the limit of " ++
    toString limit ++ " bytes"⟩

def unserializable (error : String) : InvalidState :=
  ⟨"fields cannot be serialized: " ++ error⟩

end InvalidState

/-- Why an update does not give a new state. -/
inductive ApplyError where
  | Refused (reason : Reason)
  | InvalidState (error : InvalidState)
  deriving DecidableEq, Repr

def ApplyError.display : ApplyError → String
  | .Refused reason => "update refused by the fields: " ++ reason
  | .InvalidState error => error.display

variable {F : Type} [Fields F]

/-- The measure of the fields, refused when it is over the limit. -/
def serializedSize (now : Nat) (fields : F) (limit : Nat) : Attempt InvalidState Nat := do
  let text ← (Fields.toJson now fields).mapError InvalidState.unserializable
  if limit < text.utf8ByteSize then .error (.oversize text.utf8ByteSize limit)
  else .ok text.utf8ByteSize

/-- A valid state: fields that pass their own check, with the size they were measured to have,
which is within the limit. -/
@[ext] structure State (F : Type) [Fields F] where
  fields : F
  limit : ℕ+
  size : Nat
  valid : Fields.validate fields = .ok ()
  measured : ∃ now text, Fields.toJson now fields = .ok text ∧ text.utf8ByteSize = size
  size_le : size ≤ limit

theorem serializedSize_ok {now : Nat} {fields : F} {limit size : Nat} :
    serializedSize now fields limit = .ok size ↔
      (∃ text, Fields.toJson now fields = .ok text ∧ text.utf8ByteSize = size) ∧ size ≤ limit := by
  rw [serializedSize, Attempt.bind_eq_ok]
  constructor
  · rintro ⟨text, hwritten, hrest⟩
    rw [Attempt.mapError_eq_ok] at hwritten
    split at hrest
    · cases hrest
    · cases hrest
      exact ⟨⟨text, hwritten, rfl⟩, by omega⟩
  · rintro ⟨⟨text, hwritten, rfl⟩, hwithin⟩
    refine ⟨text, (Attempt.mapError_eq_ok _ _ _).mpr hwritten, ?_⟩
    rw [if_neg (by omega)]

namespace State

/-- `State::create_with_limit`: check the fields, measure them, and keep both facts. -/
def createWithLimit (now : Nat) (fields : F) (limit : ℕ+) : Attempt InvalidState (State F) :=
  match hchecked : Fields.validate fields with
  | .error reason => .error ⟨reason⟩
  | .panicked text => .panicked text
  | .ok () =>
      match hmeasured : serializedSize now fields limit with
      | .error error => .error error
      | .panicked text => .panicked text
      | .ok size =>
          .ok ⟨fields, limit, size, hchecked,
            ⟨now, (serializedSize_ok.mp hmeasured).1⟩, (serializedSize_ok.mp hmeasured).2⟩

/-- `State::rebuild_with_limit`: read the fields back from their text. -/
def rebuildWithLimit (now : Nat) (json : String) (limit : ℕ+) :
    Attempt InvalidState (State F) := do
  let fields ← (Fields.fromJson json).mapError
    fun error => (⟨"malformed state: " ++ error⟩ : InvalidState)
  createWithLimit now fields limit

/-- `State::apply`: the fields take the update and the result is checked as a new state. -/
def apply (now : Nat) (state : State F) (update : Fields.Update F) :
    Attempt ApplyError (State F) := do
  let fields ← (Fields.apply state.fields update).mapError ApplyError.Refused
  (createWithLimit now fields state.limit).mapError ApplyError.InvalidState

/-- `State::to_json`: the text of the fields alone. -/
def toJson (now : Nat) (state : State F) : Attempt InvalidState String :=
  (Fields.toJson now state.fields).mapError InvalidState.unserializable

/-- A created state holds the fields and the limit it was created from. -/
theorem createWithLimit_ok {now : Nat} {fields : F} {limit : ℕ+} {state : State F}
    (hcreated : createWithLimit now fields limit = .ok state) :
    state.fields = fields ∧ state.limit = limit := by
  unfold createWithLimit at hcreated
  split at hcreated <;> try cases hcreated
  split at hcreated <;> cases hcreated
  exact ⟨rfl, rfl⟩

/-- A state is created from its own fields and limit, wherever they can be measured. -/
theorem createWithLimit_eq_ok {now : Nat} {state : State F} {text : String}
    (hwritten : Fields.toJson now state.fields = .ok text)
    (hsize : text.utf8ByteSize = state.size) :
    createWithLimit now state.fields state.limit = .ok state := by
  have hmeasured : serializedSize now state.fields state.limit = .ok state.size :=
    serializedSize_ok.mpr ⟨⟨text, hwritten, hsize⟩, state.size_le⟩
  unfold createWithLimit
  split
  · rename_i hrefused
    rw [state.valid] at hrefused
    cases hrefused
  · rename_i hrefused
    rw [state.valid] at hrefused
    cases hrefused
  · split
    · rename_i hrefused
      rw [hmeasured] at hrefused
      cases hrefused
    · rename_i hrefused
      rw [hmeasured] at hrefused
      cases hrefused
    · rename_i other hsame
      rw [hmeasured] at hsame
      cases hsame
      rfl

/-- An applied update keeps the limit and gives the fields the host computed. -/
theorem apply_ok {now : Nat} {state next : State F} {update : Fields.Update F}
    (happlied : state.apply now update = .ok next) :
    Fields.apply state.fields update = .ok next.fields ∧ next.limit = state.limit := by
  obtain ⟨fields, hgiven, hcreated⟩ := (Attempt.bind_eq_ok _ _ _).mp happlied
  rw [Attempt.mapError_eq_ok] at hgiven hcreated
  obtain ⟨hsame, hlimit⟩ := createWithLimit_ok hcreated
  exact ⟨hsame ▸ hgiven, hlimit⟩

end State

/-- Small fields for concrete runs: a count, written in strokes, that updates add to. -/
structure Tally where
  count : Nat
  deriving DecidableEq, Repr

instance : Fields Tally where
  Update := Nat
  emptyUpdate := 0
  validate _ := .ok ()
  apply fields update := .ok ⟨fields.count + update⟩
  toJson _ fields := .ok (String.ofList (List.replicate fields.count '|'))
  fromJson text := .ok ⟨text.toList.length⟩

/-- The state of a fresh count. -/
def Tally.zero : State Tally := ⟨⟨0⟩, ⟨64, by decide⟩, 0, rfl, ⟨0, "", rfl, rfl⟩, by decide⟩

end LlmGraph.Contract
