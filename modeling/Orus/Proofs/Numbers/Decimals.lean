import Orus.Number.Notation
import Orus.Proofs.Numbers.Rounding

/-! # Decimals that read back

Reading a decimal rounds its value, also where the exponent settles the Number before any power
is computed. The shortest decimal of a Number reads back as its magnitude, and so does every
decimal of the same value as the Number.
-/

namespace Orus.Number

/-! ## Values -/

def magnitude (x : Float) : ℚ :=
  (ratio x).1 / (ratio x).2

theorem ratio_den_pos (x : Float) : 0 < (ratio x).2 := by
  simp only [ratio, Nat.pow_eq]
  positivity

namespace Decimal

def value (d : Decimal) : ℚ :=
  d.digits * 10 ^ d.exponent

theorem ratio_den_pos (d : Decimal) : 0 < d.ratio.2 := by
  simp only [ratio, Nat.pow_eq]
  positivity

theorem ratio_eq_value (d : Decimal) : (d.ratio.1 / d.ratio.2 : ℚ) = d.value := by
  simp only [ratio, Nat.pow_eq, Nat.cast_mul, Nat.cast_pow, Nat.cast_ofNat]
  rw [mul_div_assoc, pow_toNat_div, value]

/-! ## Reading -/

/-- Three powers of two are less than a power of ten. -/
theorem two_zpow_le_ten_zpow {k : ℤ} (hk : 0 ≤ k) : (2 : ℚ) ^ (3 * k) ≤ 10 ^ k := by
  rw [zpow_mul]
  exact zpow_le_zpow_left₀ hk (by positivity) (by norm_num)

theorem ten_zpow_le_two_zpow {k : ℤ} (hk : k ≤ 0) : (10 : ℚ) ^ k ≤ 2 ^ (3 * k) := by
  have h := two_zpow_le_ten_zpow (Int.neg_nonneg_of_nonpos hk)
  rw [Int.mul_neg, zpow_neg, zpow_neg] at h
  exact (inv_le_inv₀ (zpow_pos two_pos _) (zpow_pos (by norm_num) _)).1 h

theorem le_value {d : Decimal} (hdigits : d.digits ≠ 0) (hlarge : 400 < d.exponent) :
    (2 : ℚ) ^ (1025 : ℤ) ≤ d.value := calc
  (2 : ℚ) ^ (1025 : ℤ) ≤ 2 ^ (3 * d.exponent) := zpow_le_zpow_right₀ one_le_two (by omega)
  _ ≤ 10 ^ d.exponent := two_zpow_le_ten_zpow (by omega)
  _ ≤ d.value := le_mul_of_one_le_left (zpow_pos (by norm_num) _).le
    (Nat.one_le_cast.2 (Nat.pos_of_ne_zero hdigits))

theorem value_lt {d : Decimal} (hsmall : d.exponent < -(401 + (d.digits.log2 : Int))) :
    d.value < 2 ^ (-1075 : ℤ) := by
  have hdigits : (d.digits : ℚ) < 2 ^ ((d.digits.log2 : ℤ) + 1) := by
    exact_mod_cast Nat.lt_log2_self
  calc d.value
    _ < 2 ^ ((d.digits.log2 : ℤ) + 1) * 10 ^ d.exponent :=
      mul_lt_mul_of_pos_right hdigits (zpow_pos (by norm_num) _)
    _ ≤ 2 ^ ((d.digits.log2 : ℤ) + 1) * 2 ^ (3 * d.exponent) :=
      mul_le_mul_of_nonneg_left (ten_zpow_le_two_zpow (by omega)) (zpow_pos two_pos _).le
    _ = 2 ^ ((d.digits.log2 : ℤ) + 1 + 3 * d.exponent) := (zpow_add₀ two_ne_zero _ _).symm
    _ ≤ 2 ^ (-1075 : ℤ) := zpow_le_zpow_right₀ one_le_two (by omega)

/-- Reading a decimal rounds it, whatever its exponent. -/
theorem toBits_eq_roundedBits (d : Decimal) : d.toBits = roundedBits d.ratio.1 d.ratio.2 := by
  unfold toBits
  split
  next hdigits => simp [ratio, hdigits, roundedBits]
  next hdigits =>
    split
    next hlarge =>
      refine (roundedBits_eq_infinityBits d.ratio_den_pos ?_).symm
      rw [ratio_eq_value]
      exact le_value hdigits hlarge
    · split
      next hsmall =>
        refine (roundedBits_eq_zero d.ratio_den_pos ?_).symm
        rw [ratio_eq_value]
        exact value_lt hsmall
      · rfl

/-- Decimals of the same value are read as the same Number. -/
theorem toBits_congr {d d' : Decimal} (h : d.value = d'.value) : d.toBits = d'.toBits := by
  rw [← ratio_eq_value, ← ratio_eq_value] at h
  rw [toBits_eq_roundedBits, toBits_eq_roundedBits,
    roundedBits_congr d.ratio_den_pos d'.ratio_den_pos h]

theorem toBits_of_value_eq {d : Decimal} {x : Float} (hx : x.isFinite = true)
    (h : d.value = magnitude x) : d.toBits = magnitudeBits x := by
  rw [← ratio_eq_value] at h
  rw [toBits_eq_roundedBits, roundedBits_congr d.ratio_den_pos (Number.ratio_den_pos x) h,
    roundedBits_ratio hx]

end Decimal

/-! ## The shortest decimal -/

theorem toBits_of_neighbour? {bits num den : ℕ} {k : ℤ} {d : Decimal}
    (h : neighbour? bits num den k = some d) : d.toBits = bits := by
  simp only [neighbour?] at h
  have hfound := List.find?_some h
  exact beq_iff_eq.1 hfound

theorem toBits_of_searchGrids {bits num den : ℕ} {p : ℤ} {tries digits : ℕ} {d : Decimal}
    (h : searchGrids bits num den p tries digits = some d) : d.toBits = bits := by
  induction tries generalizing digits with
  | zero => cases h
  | succ tries ih =>
    rw [searchGrids] at h
    split at h
    next hfound =>
      cases h
      exact toBits_of_neighbour? hfound
    next => exact ih h

theorem value_exactDecimal (x : Float) : (exactDecimal x).value = magnitude x := by
  simp only [exactDecimal, magnitude, ratio, Nat.pow_eq, Decimal.value]
  generalize (decode x).1 = m
  generalize (decode x).2 = e
  split
  next he => simp [Int.toNat_eq_zero.2 (Int.neg_nonpos_of_nonneg he)]
  next he =>
    have hpower : (10 : ℚ) ^ e = 5 ^ e * 2 ^ e := by
      rw [← mul_zpow]
      norm_num
    have hfive : (5 : ℚ) ^ (-e).toNat * 5 ^ e = 1 := by
      have hnonpos : e.toNat = 0 := by omega
      rw [← pow_toNat_div 5 e, hnonpos, pow_zero]
      exact mul_one_div_cancel (by positivity)
    push_cast
    rw [mul_div_assoc, pow_toNat_div, hpower, mul_assoc, ← mul_assoc (5 ^ (-e).toNat : ℚ), hfive,
      one_mul]

theorem toBits_shortest {x : Float} (hx : x.isFinite = true) :
    (shortest x).toBits = magnitudeBits x := by
  simp only [shortest]
  split
  next hzero =>
    refine Decimal.toBits_of_value_eq hx ?_
    simp [magnitude, hzero, Decimal.value]
  next hpos =>
    cases hsearch : searchGrids (magnitudeBits x) (ratio x).1 (ratio x).2
        (pointPlace (ratio x).1 (ratio x).2) 17 1 with
    | some d => exact toBits_of_searchGrids hsearch
    | none => exact Decimal.toBits_of_value_eq hx (value_exactDecimal x)

/-! ## Zeros at the end -/

theorem value_dropZeros (fuel : ℕ) (d : Decimal) : (dropZeros fuel d).value = d.value := by
  fun_induction dropZeros fuel d with
  | case1 => rfl
  | case2 fuel d hzero ih =>
    have hdigits : (d.digits : ℚ) = (d.digits / 10 : ℕ) * 10 := by
      exact_mod_cast (Nat.div_mul_cancel (Nat.dvd_of_mod_eq_zero hzero.2)).symm
    rw [ih, Decimal.value, Decimal.value, hdigits, zpow_add_one₀ (by norm_num)]
    ring
  | case3 => rfl

end Orus.Number
