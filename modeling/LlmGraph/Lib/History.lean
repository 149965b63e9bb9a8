/- digest: Newest-first histories and properties that every entry has in view of its past. -/

set_option autoImplicit false
set_option relaxedAutoImplicit false

namespace LlmGraph.Lib

universe u

variable {α : Type u}

/-- Every entry of a newest-first history satisfies `P` in view of the entries before it. -/
def Throughout (P : α → List α → Prop) : List α → Prop
  | [] => True
  | entry :: past => P entry past ∧ Throughout P past

@[simp] theorem throughout_nil (P : α → List α → Prop) : Throughout P [] := trivial

@[simp] theorem throughout_cons (P : α → List α → Prop) (entry : α) (past : List α) :
    Throughout P (entry :: past) ↔ P entry past ∧ Throughout P past := Iff.rfl

theorem throughout_of_append {P : α → List α → Prop} {later past : List α}
    (hall : Throughout P (later ++ past)) : Throughout P past := by
  induction later with
  | nil => exact hall
  | cons entry later hstep => exact hstep hall.2

/-- The recursive reading agrees with cutting the history at each of its entries. -/
theorem throughout_iff (P : α → List α → Prop) (history : List α) :
    Throughout P history ↔
      ∀ later entry past, history = later ++ entry :: past → P entry past := by
  constructor
  · rintro hall later entry past rfl
    exact (throughout_of_append hall).1
  · intro hcut
    induction history with
    | nil => trivial
    | cons entry past hstep =>
        refine ⟨hcut [] entry past rfl, hstep ?_⟩
        rintro later old before rfl
        exact hcut (entry :: later) old before rfl

/-- A newer part that satisfies `P` over the past it sits on extends the history. -/
theorem throughout_append {P : α → List α → Prop} {later past : List α}
    (hold : Throughout P past)
    (hnew : ∀ front entry back, later = front ++ entry :: back → P entry (back ++ past)) :
    Throughout P (later ++ past) := by
  induction later with
  | nil => exact hold
  | cons entry later hstep =>
      refine ⟨hnew [] entry later rfl, hstep ?_⟩
      rintro front e back rfl
      exact hnew (entry :: front) e back rfl

end LlmGraph.Lib
