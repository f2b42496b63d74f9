import Orus.Proofs.Numbers.Notation
import Orus.Syntax.Grammar
import Orus.Value.Builtin

/-! # Displayed Numbers read back

What a finite Number is displayed as has the shape of a Number, conversion gives the Number back
and, unless there is a minus sign in front, so does a literal with the same text. The sign of
zero is lost, but the two zeros are equal.
-/

namespace Orus.Number

/-! ## Finite Numbers -/

theorem not_special_of_isFinite {x : Float} (hx : x.isFinite = true) :
    x.isNaN = false ∧ x.isInf = false := by
  change x.toModel.unpack.isFinite = true at hx
  change x.toModel.unpack.isNaN = false ∧ x.toModel.unpack.isInf = false
  generalize x.toModel.unpack = u at *
  cases u
  case notANumber => exact absurd hx nofun
  case infinity => exact absurd hx nofun
  all_goals exact ⟨rfl, rfl⟩

theorem assemble_beq {x : Float} (hx : x.isFinite = true) {negative : Bool}
    (h : negative = isNegative x ∨ magnitudeBits x = 0) :
    (assemble negative (magnitudeBits x) == x) = true := by
  rcases h with rfl | hzero
  · rw [assemble_parts]
    exact (beq_iff x x).2 (.inl ⟨rfl, (not_special_of_isFinite hx).1⟩)
  · refine (beq_iff _ x).2 (.inr ⟨?_, hzero⟩)
    rw [hzero]
    cases negative <;> decide +kernel

/-! ## Texts -/

theorem toString_int (n : ℤ) :
    toString n = String.ofList ((if n < 0 then ['-'] else []) ++ Nat.toDigits 10 n.natAbs) := by
  cases n with
  | ofNat n =>
    refine String.toList_injective ?_
    have hnonneg : ¬ Int.ofNat n < 0 := Int.not_lt.2 (Int.natCast_nonneg n)
    rw [String.toList_ofList, if_neg hnonneg]
    exact Nat.toList_repr
  | negSucc n =>
    refine String.toList_injective ?_
    rw [String.toList_ofList, if_pos (Int.negSucc_lt_zero n)]
    change ("-" ++ (n + 1).repr).toList = _
    rw [String.toList_append, Nat.toList_repr]
    rfl

/-- A text of a Number: an optional minus sign and a text that writes its magnitude. Zeros have
one with either sign. -/
def IsTextOf (text : String) (x : Float) : Prop :=
  ∃ (negative : Bool) (cs : List Char) (d : Decimal),
    text = String.ofList ((if negative then ['-'] else []) ++ cs) ∧ Writes cs d ∧
      d.toBits = magnitudeBits x ∧ (negative = isNegative x ∨ magnitudeBits x = 0)

theorem isTextOf_plainText {x : Float} (hx : x.isFinite = true) : IsTextOf (plainText x) x := by
  obtain ⟨hnumber, hinf⟩ := not_special_of_isFinite hx
  obtain ⟨d, hwrites, hvalue⟩ := writes_magnitudeText (dropZeros 400 (shortest x))
  rw [value_dropZeros] at hvalue
  refine ⟨isNegative x, _, d, ?_, hwrites, ?_, .inl rfl⟩
  · simp only [plainText, hnumber, hinf, Bool.false_eq_true, if_false]
  · rw [Decimal.toBits_congr hvalue, toBits_shortest hx]

theorem isTextOf_toString {x : Float} (hx : x.isFinite = true) {n : ℤ} (hn : toInt? x = some n) :
    IsTextOf (toString n) x := by
  obtain ⟨q, hvalue, hq⟩ : ∃ q : ℕ, magnitude x = q ∧ n = if isNegative x then -(q : ℤ) else q := by
    simp only [toInt?, hx, if_true] at hn
    split at hn
    next hmod =>
      refine ⟨(ratio x).1 / (ratio x).2, ?_, (Option.some.inj hn).symm⟩
      exact (Nat.cast_div_charZero (Nat.dvd_of_mod_eq_zero hmod)).symm
    next => cases hn
  have habs : n.natAbs = q := by
    rw [hq]
    split <;> omega
  have hbits : Decimal.toBits ⟨n.natAbs, 0⟩ = magnitudeBits x := by
    refine Decimal.toBits_of_value_eq hx ?_
    rw [habs, hvalue, Decimal.value, zpow_zero, mul_one]
  refine ⟨decide (n < 0), _, _, ?_, writes_toDigits n.natAbs, hbits, ?_⟩
  · rw [toString_int]
    simp
  · -- The text of zero has no sign, whatever the sign of the zero.
    rcases Nat.eq_zero_or_pos q with rfl | hpos
    · rw [habs] at hbits
      exact .inr hbits.symm
    · left
      rw [hq]
      cases isNegative x
      · exact decide_eq_false (by simp)
      · exact decide_eq_true (by simpa using hpos)

theorem isTextOf_display {x : Float} (hx : x.isFinite = true) : IsTextOf (display x) x := by
  obtain ⟨hnumber, hinf⟩ := not_special_of_isFinite hx
  simp only [display, hnumber, hinf, Bool.false_eq_true, if_false]
  split
  next n hn =>
    obtain ⟨hn, -⟩ := Option.filter_eq_some_iff.1 hn
    exact isTextOf_toString hx hn
  next => exact isTextOf_plainText hx

/-! ## Reading -/

/-- A finite Number is displayed as a text that has the shape of a Number. It is the text that
`str` gives, and `float` of it is an equal Number. Without a minus sign in front, the text is a
single number token, and the literal stands for that Number too. -/
theorem display_reads_back {x : Float} (hx : x.isFinite = true) :
    isNumberText (display x) = true ∧
    (∀ context : Builtin.Context, 0 < context.depth →
      Builtin.apply .str context [.number x] = .ok (.text (display x))) ∧
    ∃ y : Float, (y == x) = true ∧
      (∀ context : Builtin.Context,
        Builtin.apply .float context [.text (display x)] = .ok (.number y)) ∧
      ((display x).toList.head? ≠ some '-' →
        let token : Token := ⟨.number, display x, .start, none⟩
        Token.scan (display x) = [token, .eofAt (Position.start.after (display x).toList)] ∧
          Syntax.Grammar.numberLiteral token = pure (.number y token.mark)) := by
  obtain ⟨negative, cs, d, htext, hwrites, hbits, hsign⟩ := isTextOf_display hx
  have hshape := hwrites.isNumberText_eq_true negative
  have hread := hwrites.readNumber?_eq negative
  rw [← htext] at hshape hread
  rw [Decimal.toFloat, hbits] at hread
  refine ⟨hshape, fun context hdepth => ?_, _, assemble_beq hx hsign, fun context => ?_,
    fun hhead => ⟨?_, ?_⟩⟩
  · have hshown : Builtin.shown context.depth (.number x) = .ok (display x) := by
      simp [Builtin.shown, Value.displayWithin, Value.height, Value.display, hdepth]
    change (Builtin.shown context.depth (.number x) >>= _) = _
    rw [hshown]
    rfl
  · have hfloat : Builtin.toFloat context.depth (.text (display x)) =
        .ok (assemble negative (magnitudeBits x)) := by
      simp only [Builtin.toFloat, hshape, if_true, hread]
      rfl
    change (Builtin.toFloat context.depth (.text (display x)) >>= _) = _
    rw [hfloat]
    rfl
  · cases negative with
    | true => exact absurd (by rw [htext, String.toList_ofList]; rfl) hhead
    | false =>
      have hplain : display x = String.ofList cs := htext
      rw [hplain, String.toList_ofList]
      exact hwrites.scan_eq
  · simp only [Syntax.Grammar.numberLiteral, hread]

/-- The least positive Number is displayed with an exponent, and its text is one token. -/
theorem display_reads_back_least :
    let token : Token := ⟨.number, "5e-324", .start, none⟩
    display (assemble false 1) = "5e-324" ∧ isNumberText "5e-324" = true ∧
      ∃ y : Float, (y == assemble false 1) = true ∧
        Builtin.apply .float ⟨0, 1⟩ [.text "5e-324"] = .ok (.number y) ∧
        Token.scan "5e-324" = [token, .eofAt (Position.start.after "5e-324".toList)] ∧
        Syntax.Grammar.numberLiteral token = pure (.number y token.mark) := by
  have hdisplay : display (assemble false 1) = "5e-324" := by decide +kernel
  obtain ⟨hshape, -, y, hequal, hfloat, htoken⟩ :=
    @display_reads_back (assemble false 1) (by decide +kernel)
  simp only [hdisplay] at hshape hfloat htoken
  obtain ⟨hscan, hliteral⟩ := htoken (by decide)
  exact ⟨hdisplay, hshape, y, hequal, hfloat _, hscan, hliteral⟩

end Orus.Number
