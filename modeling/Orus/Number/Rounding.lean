import Orus.Number.Binary

/-! # Rounding a fraction to a Number

The nearest Number to a fraction of whole numbers; halfway cases go to the even
mantissa and what lies beyond the largest Number becomes infinite.
-/

namespace Orus.Number

/-- The nearest whole number to a fraction, the even one when two are as near. -/
def halfEven (num den : Nat) : Nat :=
  let q := num / den
  let r := num % den
  if 2 * r < den then q else if den < 2 * r then q + 1 else q + q % 2

/-- The greatest `k` with `2 ^ k ≤ num / den`. -/
def leadingPower (num den : Nat) : Int :=
  let k : Int := (num.log2 : Int) - den.log2
  if den * Nat.pow 2 k.toNat ≤ num * Nat.pow 2 (-k).toNat then k else k - 1

/-- The magnitude pattern of the Number nearest to a fraction. -/
def roundedBits (num den : Nat) : Nat :=
  if num = 0 then 0
  else
    let e := max (-1074) (leadingPower num den - 52)
    let m := halfEven (num * Nat.pow 2 (-e).toNat) (den * Nat.pow 2 e.toNat)
    min infinityBits ((e + 1074).toNat * Nat.pow 2 52 + m)

def ofRatio (negative : Bool) (num den : Nat) : Float :=
  assemble negative (roundedBits num den)

end Orus.Number
