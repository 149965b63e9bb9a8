/- digest: Traces of a relation with labelled steps: what every step keeps holds at the end of a
   trace. -/

import Mathlib.Logic.Basic

set_option autoImplicit false
set_option relaxedAutoImplicit false

namespace LlmGraph.Lib

universe u v

variable {σ : Type u} {α : Type v}

/-- The labels of some steps in a row, from a start to where they lead. -/
inductive Trace (step : σ → α → σ → Prop) (start : σ) : List α → σ → Prop
  | nothing : Trace step start [] start
  | snoc {labels : List α} {middle last : σ} {label : α} (hpast : Trace step start labels middle)
      (htaken : step middle label last) : Trace step start (labels ++ [label]) last

namespace Trace

variable {step : σ → α → σ → Prop} {start last : σ} {labels : List α}

theorem single {label : α} (htaken : step start label last) : Trace step start [label] last :=
  nothing.snoc htaken

/-- What holds at the start and is kept by every step, in view of the labels so far. -/
theorem invariant {holds : List α → σ → Prop} (hbegins : holds [] start)
    (hkeeps : ∀ labels middle label last, holds labels middle → step middle label last →
      holds (labels ++ [label]) last)
    (htrace : Trace step start labels last) : holds labels last := by
  induction htrace with
  | nothing => exact hbegins
  | snoc _ htaken hearlier => exact hkeeps _ _ _ _ hearlier htaken

end Trace

end LlmGraph.Lib
