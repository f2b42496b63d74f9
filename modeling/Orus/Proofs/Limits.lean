import Orus.Limits

/-! # The order of limits

Settings can only lower limits.
-/

namespace Orus.Limits

/-- Limits that allow something, or nothing at all. -/
structure Nonnegative (l : Limits) : Prop where
  steps : 0 ≤ l.maxSteps
  iterations : 0 ≤ l.maxIterations
  callDepth : 0 ≤ l.maxCallDepth
  outputLines : 0 ≤ l.maxOutputLines

structure AtMost (l m : Limits) : Prop where
  steps : l.maxSteps ≤ m.maxSteps
  iterations : l.maxIterations ≤ m.maxIterations
  callDepth : l.maxCallDepth ≤ m.maxCallDepth
  outputLines : l.maxOutputLines ≤ m.maxOutputLines

instance : LE Limits := ⟨AtMost⟩

theorem bind_eq_ok {ε α β : Type} {r : Except ε α} {k : α → Except ε β} {b : β}
    (h : r >>= k = .ok b) : ∃ a, r = .ok a ∧ k a = .ok b := by
  cases r with
  | ok a => exact ⟨a, rfl, h⟩
  | error e => cases h

end Orus.Limits
