/- digest: Calls into foreign code, which end with a value, with an error, or by unwinding
   with a panic text. -/

set_option autoImplicit false
set_option relaxedAutoImplicit false

namespace LlmGraph.Lib

universe u

/-- How a call into foreign code ends once its panics are caught. -/
inductive Attempt (ε : Type u) (α : Type u) where
  | ok (value : α)
  | error (fault : ε)
  | panicked (text : String)
  deriving DecidableEq, Repr

namespace Attempt

variable {ε ε' α β : Type u}

/-- Continue with the value; an error or a panic ends the whole call. -/
def bind (attempt : Attempt ε α) (next : α → Attempt ε β) : Attempt ε β :=
  match attempt with
  | .ok value => next value
  | .error fault => .error fault
  | .panicked text => .panicked text

instance : Monad (Attempt ε) where
  pure := .ok
  bind := bind

/-- Rewrite the error, as `Result::map_err` does; a panic passes through. -/
def mapError (attempt : Attempt ε α) (rewrite : ε → ε') : Attempt ε' α :=
  match attempt with
  | .ok value => .ok value
  | .error fault => .error (rewrite fault)
  | .panicked text => .panicked text

@[simp] theorem pure_eq (value : α) : (pure value : Attempt ε α) = .ok value := rfl

@[simp] theorem ok_bind (value : α) (next : α → Attempt ε β) :
    (Attempt.ok value >>= next) = next value := rfl

@[simp] theorem error_bind (fault : ε) (next : α → Attempt ε β) :
    (Attempt.error fault >>= next) = .error fault := rfl

@[simp] theorem panicked_bind (text : String) (next : α → Attempt ε β) :
    (Attempt.panicked text >>= next) = .panicked text := rfl

theorem mapError_eq_ok (attempt : Attempt ε α) (rewrite : ε → ε') (value : α) :
    attempt.mapError rewrite = .ok value ↔ attempt = .ok value := by
  cases attempt <;> simp [mapError]

/-- A sequence succeeds exactly when both of its calls do. -/
theorem bind_eq_ok (attempt : Attempt ε α) (next : α → Attempt ε β) (result : β) :
    (attempt >>= next) = .ok result ↔
      ∃ value, attempt = .ok value ∧ next value = .ok result := by
  cases attempt <;> simp

end Attempt

end LlmGraph.Lib
