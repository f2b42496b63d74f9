import Orus.Number.Rounding
import Orus.Proofs.Numbers.Patterns

/-! # What rounding gives

Rounding a fraction depends on its value alone. It gives infinity far above the largest Number
and zero far below the smallest one, and it gives a finite Number back.
-/

namespace Orus.Number

/-! ## Powers -/

theorem pow_toNat_div (b : ℚ) (k : ℤ) : b ^ k.toNat / b ^ (-k).toNat = b ^ k := by
  obtain ⟨n, rfl | rfl⟩ := k.eq_nat_or_neg <;> simp

theorem pow_le_iff_zpow_le (num : ℕ) {den : ℕ} (hden : 0 < den) (k : ℤ) :
    den * 2 ^ k.toNat ≤ num * 2 ^ (-k).toNat ↔ (2 : ℚ) ^ k ≤ num / den := by
  rw [← pow_toNat_div, div_le_div_iff₀ (by positivity) (Nat.cast_pos.2 hden), mul_comm den]
  exact_mod_cast Iff.rfl

section Log

variable {num den : ℕ}

theorem log_bounds (hnum : 0 < num) (hden : 0 < den) :
    (2 : ℚ) ^ ((num.log2 : ℤ) - den.log2 - 1) ≤ num / den ∧
      (num / den : ℚ) < 2 ^ ((num.log2 : ℤ) - den.log2 + 1) := by
  have hnumLow : (2 : ℚ) ^ num.log2 ≤ num := by exact_mod_cast Nat.log2_self_le hnum.ne'
  have hnumHigh : (num : ℚ) < 2 ^ (num.log2 + 1) := by exact_mod_cast Nat.lt_log2_self
  have hdenLow : (2 : ℚ) ^ den.log2 ≤ den := by exact_mod_cast Nat.log2_self_le hden.ne'
  have hdenHigh : (den : ℚ) < 2 ^ (den.log2 + 1) := by exact_mod_cast Nat.lt_log2_self
  have hlow : (2 : ℚ) ^ ((num.log2 : ℤ) - den.log2 - 1) = 2 ^ num.log2 / 2 ^ (den.log2 + 1) := by
    rw [← zpow_natCast, ← zpow_natCast, ← zpow_sub₀ two_ne_zero]
    congr 1
    omega
  have hhigh : (2 : ℚ) ^ ((num.log2 : ℤ) - den.log2 + 1) = 2 ^ (num.log2 + 1) / 2 ^ den.log2 := by
    rw [← zpow_natCast, ← zpow_natCast, ← zpow_sub₀ two_ne_zero]
    congr 1
    omega
  have hpos : (0 : ℚ) < den := Nat.cast_pos.2 hden
  rw [hlow, hhigh]
  exact ⟨div_le_div₀ (Nat.cast_nonneg num) hnumLow hpos hdenHigh.le,
    div_lt_div₀ hnumHigh hdenLow (by positivity) (by positivity)⟩

/-- The leading power is the logarithm of the fraction. -/
theorem leadingPower_eq_log (hnum : 0 < num) (hden : 0 < den) :
    leadingPower num den = Int.log 2 (num / den : ℚ) := by
  have hpos : (0 : ℚ) < num / den := div_pos (Nat.cast_pos.2 hnum) (Nat.cast_pos.2 hden)
  obtain ⟨hlow, hhigh⟩ := log_bounds hnum hden
  replace hlow := (Int.zpow_le_iff_le_log (b := 2) one_lt_two hpos).1 hlow
  replace hhigh := (Int.lt_zpow_iff_log_lt (b := 2) one_lt_two hpos).1 hhigh
  have hmiddle := (pow_le_iff_zpow_le num hden (num.log2 - den.log2)).trans
    (Int.zpow_le_iff_le_log (b := 2) one_lt_two hpos)
  simp only [leadingPower, Nat.pow_eq]
  split
  next h =>
    have := hmiddle.1 h
    omega
  next h =>
    have := mt hmiddle.2 h
    omega

end Log

/-! ## Nearest whole numbers -/

theorem halfEven_mul_right (num den : ℕ) {c : ℕ} (hc : 0 < c) :
    halfEven (num * c) (den * c) = halfEven num den := by
  have hlt (a b : ℕ) : 2 * (a * c) < b * c ↔ 2 * a < b := by
    rw [← Nat.mul_assoc, Nat.mul_lt_mul_right hc]
  have hgt (a b : ℕ) : b * c < 2 * (a * c) ↔ b < 2 * a := by
    rw [← Nat.mul_assoc, Nat.mul_lt_mul_right hc]
  simp only [halfEven, Nat.mul_div_mul_right _ _ hc, Nat.mul_mod_mul_right, hlt, hgt]

/-- The nearest whole number depends on the value of the fraction alone. -/
theorem halfEven_congr {num den num' den' : ℕ} (hden : 0 < den) (hden' : 0 < den')
    (h : num * den' = num' * den) : halfEven num den = halfEven num' den' := by
  rw [← halfEven_mul_right num den hden', h, Nat.mul_comm den, halfEven_mul_right _ _ hden]

theorem halfEven_mul_self (m : ℕ) {c : ℕ} (hc : 0 < c) : halfEven (m * c) c = m := by
  simp [halfEven, Nat.mul_div_cancel m hc, hc]

theorem halfEven_eq_zero {num den : ℕ} (h : 2 * num < den) : halfEven num den = 0 := by
  have hlt : num < den := by omega
  simp [halfEven, Nat.div_eq_of_lt hlt, Nat.mod_eq_of_lt hlt, h]

/-! ## Rounding -/

theorem cross_eq {num den num' den' : ℕ} (hden : 0 < den) (hden' : 0 < den')
    (h : (num / den : ℚ) = num' / den') : num * den' = num' * den := by
  rw [div_eq_div_iff (Nat.cast_ne_zero.2 hden.ne') (Nat.cast_ne_zero.2 hden'.ne')] at h
  exact_mod_cast h

/-- Rounding depends on the value of the fraction alone. -/
theorem roundedBits_congr {num den num' den' : ℕ} (hden : 0 < den) (hden' : 0 < den')
    (h : (num / den : ℚ) = num' / den') : roundedBits num den = roundedBits num' den' := by
  have hcross := cross_eq hden hden' h
  rcases Nat.eq_zero_or_pos num with rfl | hnum
  · have hnum' : num' = 0 := by
      rw [Nat.zero_mul, eq_comm, Nat.mul_eq_zero] at hcross
      exact hcross.resolve_right hden.ne'
    rw [hnum', roundedBits, roundedBits, if_pos rfl, if_pos rfl]
  · have hnum' : 0 < num' := by
      refine Nat.pos_of_ne_zero ?_
      rintro rfl
      rw [Nat.zero_mul, Nat.mul_eq_zero] at hcross
      omega
    simp only [roundedBits, hnum.ne', hnum'.ne', if_false, Nat.pow_eq,
      leadingPower_eq_log hnum hden, leadingPower_eq_log hnum' hden', h]
    generalize max (-1074) (Int.log 2 (num' / den' : ℚ) - 52) = e
    have hscaled : num * 2 ^ (-e).toNat * (den' * 2 ^ e.toNat) =
        num' * 2 ^ (-e).toNat * (den * 2 ^ e.toNat) := by
      rw [Nat.mul_mul_mul_comm, hcross, Nat.mul_mul_mul_comm]
    rw [halfEven_congr (by positivity) (by positivity) hscaled]

theorem roundedBits_eq_infinityBits {num den : ℕ} (hden : 0 < den)
    (h : (2 : ℚ) ^ (1025 : ℤ) ≤ num / den) : roundedBits num den = infinityBits := by
  have hpos : (0 : ℚ) < num / den := lt_of_lt_of_le (zpow_pos two_pos _) h
  have hnum : 0 < num := by
    refine Nat.pos_of_ne_zero ?_
    rintro rfl
    simp at hpos
  have hlog : 1025 ≤ Int.log 2 (num / den : ℚ) :=
    (Int.zpow_le_iff_le_log (b := 2) one_lt_two hpos).1 h
  simp only [roundedBits, hnum.ne', if_false, leadingPower_eq_log hnum hden, Nat.pow_eq]
  refine Nat.min_eq_left ((Nat.mul_le_mul_right (2 ^ 52) ?_).trans (Nat.le_add_right _ _))
  omega

theorem two_mul_lt_of_lt_zpow {num den : ℕ} {k : ℤ} (hden : 0 < den)
    (h : (num / den : ℚ) < 2 ^ (k - 1)) : 2 * (num * 2 ^ (-k).toNat) < den * 2 ^ k.toNat := by
  have hdouble : ((2 * num : ℕ) / den : ℚ) < 2 ^ k := by
    rw [zpow_sub_one₀ two_ne_zero, ← div_eq_mul_inv, lt_div_iff₀' two_pos] at h
    rwa [Nat.cast_mul, mul_div_assoc]
  rw [← Nat.mul_assoc]
  exact not_le.1 (mt (pow_le_iff_zpow_le (2 * num) hden k).1 (not_le.2 hdouble))

theorem roundedBits_eq_zero {num den : ℕ} (hden : 0 < den)
    (h : (num / den : ℚ) < 2 ^ (-1075 : ℤ)) : roundedBits num den = 0 := by
  rcases Nat.eq_zero_or_pos num with rfl | hnum
  · rfl
  have hpos : (0 : ℚ) < num / den := div_pos (Nat.cast_pos.2 hnum) (Nat.cast_pos.2 hden)
  have hlog : Int.log 2 (num / den : ℚ) < -1075 :=
    (Int.lt_zpow_iff_log_lt (b := 2) one_lt_two hpos).1 h
  have hexponent : max (-1074) (Int.log 2 (num / den : ℚ) - 52) = -1074 := by omega
  simp only [roundedBits, hnum.ne', if_false, leadingPower_eq_log hnum hden, Nat.pow_eq, hexponent]
  rw [halfEven_eq_zero (two_mul_lt_of_lt_zpow hden h)]
  rfl

/-- A mantissa and an exponent that make up a finite magnitude are rounded to its pattern. -/
theorem roundedBits_mantissa {m : ℕ} {e : ℤ} (hpos : 0 < m) (hlt : m < 2 ^ 53) (he : -1074 ≤ e)
    (hleading : 2 ^ 52 ≤ m ∨ e = -1074) :
    roundedBits (m * 2 ^ e.toNat) (2 ^ (-e).toNat) =
      min infinityBits ((e + 1074).toNat * 2 ^ 52 + m) := by
  have hnum : 0 < m * 2 ^ e.toNat := by positivity
  have hden : 0 < 2 ^ (-e).toNat := by positivity
  have hvalue : ((m * 2 ^ e.toNat : ℕ) / (2 ^ (-e).toNat : ℕ) : ℚ) = m * 2 ^ e := by
    push_cast
    rw [mul_div_assoc, pow_toNat_div]
  have hvaluePos : (0 : ℚ) < m * 2 ^ e := mul_pos (Nat.cast_pos.2 hpos) (zpow_pos two_pos e)
  have hupper : Int.log 2 (m * 2 ^ e : ℚ) < 53 + e := by
    refine (Int.lt_zpow_iff_log_lt (b := 2) one_lt_two hvaluePos).1 ?_
    rw [Nat.cast_ofNat, zpow_add₀ two_ne_zero]
    exact mul_lt_mul_of_pos_right (by exact_mod_cast hlt) (zpow_pos two_pos e)
  -- A mantissa of full width fixes the exponent; a shorter one comes with the least exponent.
  have hexponent : max (-1074) (Int.log 2 (m * 2 ^ e : ℚ) - 52) = e := by
    rcases hleading with hle | rfl
    · have hlower : 52 + e ≤ Int.log 2 (m * 2 ^ e : ℚ) := by
        refine (Int.zpow_le_iff_le_log (b := 2) one_lt_two hvaluePos).1 ?_
        rw [Nat.cast_ofNat, zpow_add₀ two_ne_zero]
        exact mul_le_mul_of_nonneg_right (by exact_mod_cast hle) (zpow_pos two_pos e).le
      omega
    · omega
  simp only [roundedBits, hnum.ne', if_false, leadingPower_eq_log hnum hden, hvalue, hexponent,
    Nat.pow_eq]
  rw [Nat.mul_assoc, Nat.mul_comm (2 ^ (-e).toNat), halfEven_mul_self m (by positivity)]

/-- Rounding gives a finite Number back. -/
theorem roundedBits_ratio {x : Float} (hx : x.isFinite = true) :
    roundedBits (ratio x).1 (ratio x).2 = magnitudeBits x := by
  have hbits := (isFinite_iff x).1 hx
  have hinfinity : infinityBits = 2047 * 2 ^ 52 := rfl
  simp only [ratio, decode, Nat.pow_eq]
  split
  next hfield =>
    rcases Nat.eq_zero_or_pos (magnitudeBits x) with hzero | hpos
    · simp [hzero, roundedBits]
    · have hmod : magnitudeBits x % 2 ^ 52 = magnitudeBits x := Nat.mod_eq_of_lt (by omega)
      rw [hmod, roundedBits_mantissa hpos (by omega) le_rfl (.inr rfl), neg_add_cancel]
      omega
  next hfield =>
    dsimp only
    rw [roundedBits_mantissa (by omega) (by omega) (by simp only [Int.ofNat_eq_natCast]; omega)
      (.inl (by omega))]
    simp only [Int.ofNat_eq_natCast]
    omega

end Orus.Number
