import Orus.Number.Remainder
import Orus.Value.Builtin

/-! # Binary operators

What the operators compute, apart from `&&` and `||`, which do not always evaluate
both sides and so belong to the evaluator.
-/

namespace Orus.Run

/-- The sum of two Numbers, or two texts joined; a Number is joined as it is shown. -/
def plus (a b : Value) : Except Failure Value :=
  match a, b with
  | .number x, .number y => .ok (.number (x + y))
  | .text s, .text t => .ok (.text (s ++ t))
  | .text s, .number y => .ok (.text (s ++ Number.display y))
  | .number x, .text t => .ok (.text (Number.display x ++ t))
  | _, _ => Builtin.reject (.unsupportedOperands "+" a.type b.type)

def arithmetic (op : String) (f : Float → Float → Except Failure Float) (a b : Value) :
    Except Failure Value :=
  match a, b with
  | .number x, .number y => (f x y).map .number
  | _, _ => Builtin.reject (.unsupportedOperands op a.type b.type)

/-- The quotient; the divisor must not be zero. -/
def quotient (x y : Float) : Except Failure Float :=
  if y == 0.0 then Builtin.reject .divisionByZero else .ok (x / y)

/-- The remainder; the divisor must not be zero. -/
def modulo (x y : Float) : Except Failure Float :=
  if y == 0.0 then Builtin.reject .moduloByZero
  else match Number.remainder? x y with
    | some r => .ok r
    | none => .error (.fault .infiniteDividend)

def equality (depth : Nat) (wanted : Bool) (a b : Value) : Except Failure Value :=
  match a.equalWithin depth b with
  | some verdict => .ok (.ofBool (verdict == wanted))
  | none => Builtin.reject .nestingTooDeep

def comparison (numbers : Float → Float → Bool) (texts : String → String → Bool) (a b : Value) :
    Except Failure Value :=
  match a, b with
  | .number x, .number y => .ok (.ofBool (numbers x y))
  | .text s, .text t => .ok (.ofBool (texts s t))
  | _, _ => Builtin.reject (.incomparable a.type b.type)

/-- The result of an operator on two values nested no deeper than the depth. -/
def applyOperator (depth : Nat) (op : Name) (a b : Value) : Except Failure Value :=
  match op with
  | .str "+" => plus a b
  | .str "-" => arithmetic "-" (fun x y => .ok (x - y)) a b
  | .str "*" => arithmetic "*" (fun x y => .ok (x * y)) a b
  | .str "/" => arithmetic "/" quotient a b
  | .str "%" => arithmetic "%" modulo a b
  | .str "==" => equality depth true a b
  | .str "!=" => equality depth false a b
  | .str "<" => comparison (fun x y => x < y) (fun s t => s < t) a b
  | .str ">" => comparison (fun x y => y < x) (fun s t => t < s) a b
  | .str "<=" => comparison (fun x y => x ≤ y) (fun s t => !(decide (t < s))) a b
  | .str ">=" => comparison (fun x y => y ≤ x) (fun s t => !(decide (s < t))) a b
  | _ => Builtin.reject (.unknownOperator op)

end Orus.Run
