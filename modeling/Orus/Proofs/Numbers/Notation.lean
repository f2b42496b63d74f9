import Orus.Proofs.Lines
import Orus.Proofs.Numbers.Decimals
import Orus.Proofs.Scanning.Lexemes

/-! # Texts that write magnitudes

Digits, perhaps a fraction and perhaps an exponent. The scanner, the shape that conversion asks
for and the reader agree on such texts, and every decimal and every whole number is written as
one of them.
-/

namespace Orus.Number

open Text

/-! ## Digits -/

theorem isAsciiDigit_toDigits (n : ℕ) : ∀ c ∈ Nat.toDigits 10 n, isAsciiDigit c = true := by
  intro c hc
  have hdigit := Nat.isDigit_of_mem_toDigits (by decide) le_rfl hc
  simpa [Char.isDigit, isAsciiDigit, Char.le_def] using hdigit

theorem digitsValue_toDigits (n : ℕ) : digitsValue (Nat.toDigits 10 n) = n :=
  Nat.ofDigitChars_ten_toDigits

theorem digitsValue_append (cs ds : List Char) :
    digitsValue (cs ++ ds) = 10 ^ ds.length * digitsValue cs + digitsValue ds := by
  change Nat.ofDigitChars 10 (cs ++ ds) 0 = _
  rw [Nat.ofDigitChars_append, Nat.ofDigitChars_eq_ofDigitChars_zero]
  rfl

theorem digitsValue_zeros (n : ℕ) : digitsValue (List.replicate n '0') = 0 :=
  Nat.ofDigitChars_replicate_zero

theorem isAsciiDigit_zeros (n : ℕ) : ∀ c ∈ List.replicate n '0', isAsciiDigit c = true := by
  intro c hc
  rw [List.eq_of_mem_replicate hc]
  rfl

/-! ## Exponents -/

theorem exponentText_eq (e : ℤ) : ∃ digits,
    exponentText e = (if e < 0 then '-' else '+') :: digits ∧
    digits ≠ [] ∧ (∀ d ∈ digits, isAsciiDigit d = true) ∧ digitsValue digits = e.natAbs := by
  refine ⟨_, rfl, ?_, ?_, ?_⟩ <;> split
  · exact List.cons_ne_nil _ _
  · exact Nat.toDigits_ne_nil
  · exact List.forall_mem_cons.2 ⟨rfl, isAsciiDigit_toDigits _⟩
  · exact isAsciiDigit_toDigits _
  · exact digitsValue_toDigits _
  · exact digitsValue_toDigits _

theorem isExponent_exponentText (e : ℤ) : IsExponent ('e' :: exponentText e) := by
  obtain ⟨digits, htext, hne, hdigits, -⟩ := exponentText_eq e
  refine .inr ⟨'e', [if e < 0 then '-' else '+'], digits, ?_, .inl rfl, ?_, hne, hdigits⟩
  · rw [htext]
    rfl
  · split
    · exact .inr (.inr rfl)
    · exact .inr (.inl rfl)

theorem readExponent_exponentText (e : ℤ) : readExponent ('e' :: exponentText e) = some e := by
  obtain ⟨digits, htext, hne, hdigits, hvalue⟩ := exponentText_eq e
  have hall : digits.all isAsciiDigit = true := List.all_eq_true.2 hdigits
  rw [htext]
  split
  next hneg =>
    simp [readExponent, splitSign, hne, hall, hvalue, abs_of_neg hneg]
  next hnonneg =>
    simp [readExponent, splitSign, hne, hall, hvalue, abs_of_nonneg (Int.not_lt.1 hnonneg)]

/-! ## Texts -/

/-- A text of digits with a fraction and an exponent, each of which may be missing, and the
decimal that it writes. -/
inductive Writes : List Char → Decimal → Prop where
  | intro {whole fraction exponent : List Char} {e : ℤ} {d : Decimal} : whole ≠ [] →
      (∀ c ∈ whole, isAsciiDigit c = true) → IsFraction fraction → fraction ≠ ['.'] →
      IsExponent exponent → readExponent exponent = some e →
      digitsValue (whole ++ fraction.tail) = d.digits → e - fraction.tail.length = d.exponent →
      Writes (whole ++ (fraction ++ exponent)) d

theorem writes_toDigits (n : ℕ) : Writes (Nat.toDigits 10 n) ⟨n, 0⟩ := by
  have h : Writes (Nat.toDigits 10 n ++ ([] ++ [])) ⟨n, 0⟩ :=
    .intro Nat.toDigits_ne_nil (isAsciiDigit_toDigits n) (.inl rfl) nofun (.inl rfl) rfl
      (by rw [List.tail_nil, List.append_nil, digitsValue_toDigits]) rfl
  rwa [List.append_nil, List.append_nil] at h

theorem writes_point {whole digits : List Char} {d : Decimal} (hwhole : whole ≠ [])
    (hdigits : digits ≠ []) (hall : ∀ c ∈ whole ++ digits, isAsciiDigit c = true)
    (hvalue : digitsValue (whole ++ digits) = d.digits) (hplace : d.exponent = -digits.length) :
    Writes (whole ++ '.' :: digits) d := by
  rw [List.forall_mem_append] at hall
  have h : Writes (whole ++ ('.' :: digits ++ [])) d :=
    .intro hwhole hall.1 (.inr ⟨digits, rfl, hall.2⟩) (by simpa using hdigits) (.inl rfl) rfl hvalue
      (by rw [List.tail_cons, hplace, zero_sub])
  rwa [List.append_nil] at h

section Shapes

variable (d : Decimal)

theorem writes_below (n : ℕ) (hn : d.exponent = -(n + (Nat.toDigits 10 d.digits).length : ℕ)) :
    Writes ('0' :: '.' :: (List.replicate n '0' ++ Nat.toDigits 10 d.digits)) d := by
  refine writes_point (List.cons_ne_nil '0' []) ?_ ?_ ?_ ?_
  · exact List.append_ne_nil_of_right_ne_nil _ Nat.toDigits_ne_nil
  · exact List.forall_mem_append.2 ⟨List.forall_mem_singleton.2 rfl, List.forall_mem_append.2
      ⟨isAsciiDigit_zeros n, isAsciiDigit_toDigits d.digits⟩⟩
  · rw [← List.append_assoc, ← List.replicate_one, List.replicate_append_replicate,
      digitsValue_append, digitsValue_zeros, Nat.mul_zero, Nat.zero_add, digitsValue_toDigits]
  · rw [hn, List.length_append, List.length_replicate]

theorem writes_split (n : ℕ) (hpos : 0 < n) (hlt : n < (Nat.toDigits 10 d.digits).length)
    (hn : d.exponent = n - (Nat.toDigits 10 d.digits).length) :
    Writes ((Nat.toDigits 10 d.digits).take n ++ '.' :: (Nat.toDigits 10 d.digits).drop n) d := by
  refine writes_point ?_ ?_ ?_ ?_ ?_
  · simp [Nat.toDigits_ne_nil, hpos.ne']
  · simpa using hlt
  · rw [List.take_append_drop]
    exact isAsciiDigit_toDigits d.digits
  · rw [List.take_append_drop, digitsValue_toDigits]
  · rw [hn, List.length_drop]
    omega

theorem writes_whole (n : ℕ) (hn : d.exponent = n) : ∃ d' : Decimal,
    Writes (Nat.toDigits 10 d.digits ++ List.replicate n '0' ++ ['.', '0']) d' ∧
      d'.value = d.value := by
  -- The zero after the point is read as a digit, so this is another decimal of the same value.
  refine ⟨⟨10 ^ 1 * (10 ^ n * d.digits), -1⟩, ?_, ?_⟩
  · refine writes_point ?_ (List.cons_ne_nil '0' []) ?_ ?_ rfl
    · exact List.append_ne_nil_of_left_ne_nil Nat.toDigits_ne_nil _
    · exact List.forall_mem_append.2 ⟨List.forall_mem_append.2
        ⟨isAsciiDigit_toDigits d.digits, isAsciiDigit_zeros n⟩, List.forall_mem_singleton.2 rfl⟩
    · rw [digitsValue_append, digitsValue_append, digitsValue_toDigits, digitsValue_zeros,
        List.length_replicate]
      rfl
  · rw [Decimal.value, Decimal.value, hn]
    push_cast
    rw [zpow_neg_one, zpow_natCast]
    ring

theorem writes_scientific : Writes
    ((Nat.toDigits 10 d.digits).take 1 ++
      (if ((Nat.toDigits 10 d.digits).drop 1).isEmpty then [] else
        '.' :: (Nat.toDigits 10 d.digits).drop 1) ++
      'e' :: exponentText (d.exponent + (Nat.toDigits 10 d.digits).length - 1)) d := by
  have hall := isAsciiDigit_toDigits d.digits
  have hvalue := digitsValue_toDigits d.digits
  have hne : Nat.toDigits 10 d.digits ≠ [] := Nat.toDigits_ne_nil
  generalize Nat.toDigits 10 d.digits = digits at *
  cases digits with
  | nil => exact absurd rfl hne
  | cons c digits =>
    have hfraction : ∀ f, (if digits.isEmpty then [] else '.' :: digits) = f →
        IsFraction f ∧ f ≠ ['.'] ∧ f.tail = digits := by
      rintro _ rfl
      cases digits with
      | nil => exact ⟨.inl rfl, nofun, rfl⟩
      | cons c' digits =>
        exact ⟨.inr ⟨_, rfl, (List.forall_mem_cons.1 hall).2⟩, by simp, rfl⟩
    rw [List.append_assoc]
    obtain ⟨hshape, hpointed, htail⟩ := hfraction _ rfl
    refine .intro (List.cons_ne_nil c []) ?_ hshape hpointed (isExponent_exponentText _)
      (readExponent_exponentText _) ?_ ?_
    · exact List.forall_mem_singleton.2 (hall c List.mem_cons_self)
    · rw [List.drop_one, List.tail_cons, htail]
      exact hvalue
    · rw [List.drop_one, List.tail_cons, htail, List.length_cons]
      omega

theorem writes_magnitudeText :
    ∃ d' : Decimal, Writes (magnitudeText d) d' ∧ d'.value = d.value := by
  unfold magnitudeText
  have hpos : 0 < (Nat.toDigits 10 d.digits).length := Nat.length_toDigits_pos
  dsimp only
  split
  next hbelow =>
    exact ⟨d, writes_below d _ (by omega), rfl⟩
  next =>
    split
    next hmiddle =>
      split
      next hwhole =>
        exact writes_whole d _ (by omega)
      next hsplit =>
        exact ⟨d, writes_split d _ (by omega) (by omega) (by omega), rfl⟩
    next => exact ⟨d, writes_scientific d, rfl⟩

end Shapes

/-! ## Reading and scanning -/

theorem isDigit_of_isAsciiDigit {c : Char} (h : isAsciiDigit c = true) : isDigit c = true := by
  have hc := toNat_of_isAsciiDigit h
  simp [isDigit, digitSpans, Span.covers]
  omega

theorem skipDigits_append {digits after : List Char} (hne : digits ≠ [])
    (hdigits : ∀ c ∈ digits, isAsciiDigit c = true)
    (hafter : ∀ c ∈ after.head?, isDigit c = false) :
    skipDigits (digits ++ after) = some after := by
  cases digits with
  | nil => exact absurd rfl hne
  | cons c digits =>
    obtain ⟨hc, hdigits⟩ := List.forall_mem_cons.1 hdigits
    rw [List.cons_append, skipDigits, if_pos (isDigit_of_isAsciiDigit hc),
      dropWhile_append_stop (fun c hc => isDigit_of_isAsciiDigit (hdigits c hc)) hafter]

/-- A text with an exponent or without one goes on with no digit. -/
theorem isDigit_head_exponent {cs : List Char} (h : IsExponent cs) :
    ∀ c ∈ cs.head?, isDigit c = false := by
  rcases h with rfl | ⟨e, sign, digits, rfl, he, -⟩
  · exact nofun
  · rintro _ ⟨⟩
    rcases he with rfl | rfl <;> decide

theorem skipDigits_exponent {sign digits : List Char}
    (hsign : sign = [] ∨ sign = ['+'] ∨ sign = ['-']) (hne : digits ≠ [])
    (hdigits : ∀ c ∈ digits, isAsciiDigit c = true) :
    skipDigits (splitSign (sign ++ digits)).2 = some [] := by
  have hskip : skipDigits (digits ++ []) = some [] := skipDigits_append hne hdigits nofun
  rwa [splitSign_append hsign hne hdigits, ← List.append_nil digits]

namespace Writes

variable {cs : List Char} {d : Decimal} (h : Writes cs d)
include h

theorem readNumber?_eq (negative : Bool) :
    readNumber? (String.ofList ((if negative then ['-'] else []) ++ cs)) =
      some (d.toFloat negative) := by
  obtain ⟨hne, hwhole, hfraction, -, hexponent, he, hdigits, hplace⟩ := h
  refine Orus.readNumber?_eq hne hwhole hfraction hexponent negative ?_
  rw [readDecimal_eq hne hwhole hfraction hexponent he, hdigits, hplace]

/-- The shape that conversion asks for has room for every text that writes a decimal. -/
theorem isNumberText_eq_true (negative : Bool) :
    isNumberText (String.ofList ((if negative then ['-'] else []) ++ cs)) = true := by
  cases h with
  | @intro whole fraction exponent e d hne hwhole hfraction hpointed hexponent =>
  have hblank := dropWhile_eq_self fun c hc =>
    isBlank_of_isNumeric (isNumeric_of_mem_minus hwhole hfraction hexponent negative c hc)
  have hrest : ∀ c ∈ (fraction ++ exponent).head?, isDigit c = false := by
    rcases hfraction with rfl | ⟨more, rfl, -⟩
    · exact isDigit_head_exponent hexponent
    · rintro _ ⟨⟩
      decide
  unfold isNumberText
  rw [String.toList_ofList, hblank, splitSign_minus negative hne hwhole,
    skipDigits_append hne hwhole hrest]
  rcases hfraction with rfl | ⟨more, rfl, hmore⟩
  · rcases hexponent with rfl | ⟨e, sign, digits, rfl, rfl | rfl, hsign, hdigits, hall⟩
    · rfl
    all_goals simp [skipDigits_exponent hsign hdigits hall]
  · have hmoreNe : more ≠ [] := by
      rintro rfl
      exact hpointed rfl
    have hskip := skipDigits_append hmoreNe hmore (isDigit_head_exponent hexponent)
    rcases hexponent with rfl | ⟨e, sign, digits, rfl, rfl | rfl, hsign, hdigits, hall⟩
    · rw [List.append_nil] at hskip
      simp [hskip]
    all_goals simp [hskip, skipDigits_exponent hsign hdigits hall]

/-- The scanner finds one number and nothing else. -/
theorem scan_eq : Token.scan (String.ofList cs) =
    [⟨.number, String.ofList cs, .start, none⟩, Token.eofAt (Position.start.after cs)] := by
  cases h with
  | @intro whole fraction exponent e d hne hwhole hfraction hpointed hexponent =>
  cases whole with
  | nil => exact absurd rfl hne
  | cons c whole =>
    obtain ⟨hc, hwhole⟩ := List.forall_mem_cons.1 hwhole
    have hlexeme : Token.IsLexeme (c :: (whole ++ (fraction ++ exponent))) [] (some .number) none :=
      .number hc ⟨hwhole, hfraction, hpointed, hexponent, nofun, fun _ _ => rfl, fun _ => rfl⟩
    rw [Token.scan_eq_iff, String.toList_ofList, List.cons_append]
    have hcut := Token.IsCut.token hlexeme (.done (Position.start.after _))
    rwa [List.append_nil] at hcut

end Writes

end Orus.Number
