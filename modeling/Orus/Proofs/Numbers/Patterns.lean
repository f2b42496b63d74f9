import Mathlib
import Orus.Number.Binary

/-! # Bit patterns of Numbers

The sign and the magnitude of a Number make it up again. The pattern of the magnitude says
whether the Number is finite, and two Numbers are equal when they are the same one, unless it is
no number, or when both are zeros.
-/

namespace Orus.Number

open Float.Model Float.Model.UnpackedFloat

theorem assemble_parts (x : Float) : assemble (isNegative x) (magnitudeBits x) = x := by
  have hlt : x.toBits.toNat < 2 ^ 64 := x.toBits.toNat_lt
  have hbits : (if isNegative x then magnitudeBits x + Nat.pow 2 63 else magnitudeBits x) =
      x.toBits.toNat := by
    simp only [isNegative, magnitudeBits, Nat.pow_eq, decide_eq_true_eq]
    split <;> omega
  rw [assemble, hbits, UInt64.ofNat_toNat, Float.ofBits_toBits]

/-! ## Finite patterns -/

theorem isFinite_unpack_iff (b : BitVec Format.binary64.numBits) :
    (UnpackedFloat.unpack .binary64 b).isFinite = true ↔ unpackExponent b ≠ -1#11 := by
  rw [UnpackedFloat.unpack]
  split
  next hones => split <;> simp [UnpackedFloat.isFinite, hones]
  next hones =>
    refine iff_of_true ?_ hones
    split
    · split <;> rfl
    · rfl

theorem toNat_unpackExponent (b : BitVec Format.binary64.numBits) :
    (unpackExponent b).toNat = b.toNat / 2 ^ 52 % 2 ^ 11 := by
  simp [unpackExponent, Nat.shiftRight_eq_div_pow]

theorem isFinite_iff (x : Float) : x.isFinite = true ↔ magnitudeBits x < infinityBits := by
  have hexponent := toNat_unpackExponent x.toBits.toBitVec
  have hones : @unpackExponent .binary64 x.toBits.toBitVec = -1#11 ↔
      (@unpackExponent .binary64 x.toBits.toBitVec).toNat = 2047 := by
    rw [← BitVec.toNat_inj]
    rfl
  have hbits : x.toBits.toBitVec.toNat = x.toBits.toNat := rfl
  refine (isFinite_unpack_iff x.toBits.toBitVec).trans ?_
  rw [Ne, hones, hexponent, hbits, magnitudeBits, infinityBits]
  simp only [Nat.pow_eq]
  omega

/-! ## Equality -/

theorem magnitudeBits_eq_zero_iff (x : Float) : magnitudeBits x = 0 ↔ x = 0 ∨ x = -0 := by
  refine ⟨fun h => ?_, ?_⟩
  · have hparts := assemble_parts x
    rw [h] at hparts
    rw [← hparts, ← Float.toBits_inj, ← Float.toBits_inj]
    cases isNegative x
    · exact .inl (by decide +kernel)
    · exact .inr (by decide +kernel)
  · rintro (rfl | rfl) <;> decide +kernel

theorem beq_iff (x y : Float) : (x == y) = true ↔
    (x = y ∧ x.isNaN = false) ∨ (magnitudeBits x = 0 ∧ magnitudeBits y = 0) := by
  have hzero : (0 : Float) ≠ Float.nan ∧ (-0 : Float) ≠ Float.nan := by
    rw [Ne, Ne, ← Float.toBits_inj, ← Float.toBits_inj]
    decide +kernel
  rw [Float.beq_iff_ne_nan_and_eq, Float.isNaN_eq_decide_eq_nan, decide_eq_false_iff_not,
    magnitudeBits_eq_zero_iff, magnitudeBits_eq_zero_iff]
  grind

end Orus.Number
