import Orus.Number.Rounding

/-! # Decimal magnitudes

A decimal is a whole number times a power of ten. Reading one gives the nearest
Number; exponents far out of range are settled before any power is computed.
-/

namespace Orus.Number

/-- The magnitude `digits * 10 ^ exponent`. -/
structure Decimal where
  digits : Nat
  exponent : Int
  deriving DecidableEq, Repr

namespace Decimal

def ratio (d : Decimal) : Nat × Nat :=
  (d.digits * Nat.pow 10 d.exponent.toNat, Nat.pow 10 (-d.exponent).toNat)

/-- The magnitude pattern of the nearest Number. -/
def toBits (d : Decimal) : Nat :=
  if d.digits = 0 then 0
  else if 400 < d.exponent then infinityBits
  else if d.exponent < -(401 + (d.digits.log2 : Int)) then 0
  else roundedBits d.ratio.1 d.ratio.2

def toFloat (negative : Bool) (d : Decimal) : Float :=
  assemble negative d.toBits

end Decimal

end Orus.Number
