import Orus.Json.Basic

/-! # Limits of a run

Every run has a budget of steps, loop iterations, nested calls and printed lines.
A client may ask for tighter limits but never for looser ones.
-/

namespace Orus

structure Limits where
  maxSteps : Int := 100000
  maxIterations : Int := 10000
  maxCallDepth : Int := 64
  maxOutputLines : Int := 5000
  deriving DecidableEq, Repr, Inhabited

namespace Limits

/-- One limit after a request: no looser than it was, and not below zero. -/
def capOne (current requested : Int) : Int :=
  max 0 (min requested current)

/-- The limit that a setting asks for; without the setting it stays. -/
def capField (settings : List (String × Json)) (key : String) (current : Int) :
    Except Fault Int :=
  match Json.field? key settings with
  | none => .ok current
  | some value => return capOne current (← value.toWhole)

/-- The limits after a client's settings; unknown settings are ignored. -/
def capped (l : Limits) (settings : List (String × Json)) : Except Fault Limits := do
  let maxSteps ← capField settings "max_steps" l.maxSteps
  let maxIterations ← capField settings "max_iterations" l.maxIterations
  let maxCallDepth ← capField settings "max_call_depth" l.maxCallDepth
  let maxOutputLines ← capField settings "max_output_lines" l.maxOutputLines
  return { maxSteps, maxIterations, maxCallDepth, maxOutputLines }

end Limits

end Orus
