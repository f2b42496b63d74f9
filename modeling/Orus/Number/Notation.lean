import Orus.Number.Shortest

/-! # The text of a Number

Two ways to write a Number. Plain notation always shows that the Number is not a
whole number type: it keeps a fraction or an exponent. Display drops the
fraction of whole Numbers below `10 ^ 16` and the sign of zero.
-/

namespace Orus.Number

def dropZeros : (fuel : Nat) → Decimal → Decimal
  | 0, d => d
  | n + 1, d =>
    if d.digits ≠ 0 ∧ d.digits % 10 = 0 then dropZeros n ⟨d.digits / 10, d.exponent + 1⟩ else d

/-- A signed exponent of at least two digits. -/
def exponentText (e : Int) : List Char :=
  let digits := Nat.toDigits 10 e.natAbs
  (if e < 0 then '-' else '+') :: (if digits.length < 2 then '0' :: digits else digits)

/-- A positive magnitude: positional when its first digit stands for a power from
`10 ^ -4` to `10 ^ 15`, with an exponent otherwise. -/
def magnitudeText (d : Decimal) : List Char :=
  let digits := Nat.toDigits 10 d.digits
  let e : Int := d.exponent + digits.length - 1
  if -4 ≤ e ∧ e < 0 then
    '0' :: '.' :: (List.replicate (-e - 1).toNat '0' ++ digits)
  else if 0 ≤ e ∧ e < 16 then
    if (digits.length : Int) ≤ e + 1 then
      digits ++ List.replicate (e + 1 - digits.length).toNat '0' ++ ['.', '0']
    else
      digits.take (e + 1).toNat ++ '.' :: digits.drop (e + 1).toNat
  else
    let tail := digits.drop 1
    digits.take 1 ++ (if tail.isEmpty then [] else '.' :: tail) ++ 'e' :: exponentText e

/-- Plain notation: the shortest digits that read back, the sign of zero kept. -/
def plainText (x : Float) : String :=
  if x.isNaN then "nan"
  else
    let sign := if isNegative x then ['-'] else []
    let body :=
      if x.isInf then ['i', 'n', 'f'] else magnitudeText (dropZeros 400 (shortest x))
    String.ofList (sign ++ body)

def toInt? (x : Float) : Option Int :=
  if x.isFinite then
    let (num, den) := ratio x
    if num % den = 0 then
      some (if isNegative x then -((num / den : Nat) : Int) else (num / den : Nat))
    else none
  else none

def truncate (x : Float) : Int :=
  let (num, den) := ratio x
  if isNegative x then -((num / den : Nat) : Int) else (num / den : Nat)

def ofInt (n : Int) : Float :=
  ofRatio (n < 0) n.natAbs 1

/-- Whole Numbers from here on are displayed like fractions. -/
def wholeDisplayBound : Nat :=
  Nat.pow 10 16

/-- The whole number that display shows for a Number, if it shows one. -/
def displayedInt? (x : Float) : Option Int :=
  (toInt? x).filter fun n => n.natAbs < wholeDisplayBound

def display (x : Float) : String :=
  if x.isNaN then "NaN"
  else if x.isInf then (if isNegative x then "-inf" else "inf")
  else match displayedInt? x with
    | some n => toString n
    | none => plainText x

end Orus.Number
