/-! # The parts of a Number

A Number is a 64-bit binary floating-point number. Its finite magnitudes are
`m * 2 ^ e` with `m` below `2 ^ 53`, and in the order of their bit patterns.
-/

namespace Orus.Number

/-- The bit pattern without the sign. -/
def magnitudeBits (x : Float) : Nat :=
  x.toBits.toNat % Nat.pow 2 63

/-- The sign bit, which zeros carry too. -/
def isNegative (x : Float) : Bool :=
  Nat.pow 2 63 ≤ x.toBits.toNat

/-- The bit pattern of infinity: every smaller pattern is a finite magnitude. -/
def infinityBits : Nat :=
  0x7FF * Nat.pow 2 52

def assemble (negative : Bool) (bits : Nat) : Float :=
  Float.ofBits (UInt64.ofNat (if negative then bits + Nat.pow 2 63 else bits))

def infinity : Float :=
  assemble false infinityBits

def notANumber : Float :=
  assemble false (infinityBits + Nat.pow 2 51)

/-- Mantissa and exponent of a finite magnitude. -/
def decode (x : Float) : Nat × Int :=
  let bits := magnitudeBits x
  let field : Nat := bits / Nat.pow 2 52
  let fraction : Nat := bits % Nat.pow 2 52
  if field = 0 then (fraction, -1074) else (fraction + Nat.pow 2 52, Int.ofNat field - 1075)

def ratio (x : Float) : Nat × Nat :=
  let (m, e) := decode x
  (m * Nat.pow 2 e.toNat, Nat.pow 2 (-e).toNat)

end Orus.Number
