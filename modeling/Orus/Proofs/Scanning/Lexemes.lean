import Orus.Proofs.Literals

/-! # The lexemes of the language

Which pieces a text can start with, said without the scanner: a blank or a comment, a word, a
number, a string, an operator or a mark, or what is none of these. What comes after a piece
matters only where the piece could go on. The scanner finds such a piece at the start of every
text, and it finds no other.
-/

namespace Orus

theorem Position.after_append (p : Position) (cs ds : List Char) :
    p.after (cs ++ ds) = (p.after cs).after ds :=
  List.foldl_append

namespace Token

open Text

/-! ## Comments -/

def IsOpen (body : List Char) : Prop :=
  ¬ ['*', '/'] <:+: body

theorem isOpen_nil : IsOpen [] := by
  simp [IsOpen]

theorem isOpen_cons {c : Char} {body : List Char} :
    IsOpen (c :: body) ↔ ¬ (c = '*' ∧ body.head? = some '/') ∧ IsOpen body := by
  have hmark : ['*', '/'] <+: c :: body ↔ c = '*' ∧ body.head? = some '/' := by
    cases body with
    | nil => simp
    | cons d body => simp [eq_comm]
  rw [IsOpen, List.infix_cons_iff, not_or, hmark, IsOpen]

theorem closeComment_append (count : Nat) {body : List Char} (h : IsOpen body)
    (after : List Char) :
    closeComment count (body ++ '*' :: '/' :: after) = some (count + body.length + 2) := by
  induction body generalizing count with
  | nil => rfl
  | cons c body ih =>
    obtain ⟨hc, hbody⟩ := isOpen_cons.1 h
    rw [List.cons_append, closeComment, ih (count + 1) hbody]
    · simp only [List.length_cons]
      congr 1
      omega
    · rintro tail rfl htail
      cases body with
      | nil => cases htail
      | cons d body =>
        cases htail
        exact hc ⟨rfl, rfl⟩

theorem closeComment_cases (count : Nat) (cs : List Char) :
    (IsOpen cs ∧ closeComment count cs = none) ∨
      ∃ body after, cs = body ++ '*' :: '/' :: after ∧ IsOpen body ∧
        closeComment count cs = some (count + body.length + 2) := by
  fun_induction closeComment count cs with
  | case1 count => exact .inl ⟨isOpen_nil, rfl⟩
  | case2 count after => exact .inr ⟨[], after, rfl, isOpen_nil, rfl⟩
  | case3 count c rest hmark ih =>
    have hhead : ¬ (c = '*' ∧ rest.head? = some '/') := by
      rintro ⟨rfl, hhead⟩
      obtain ⟨tail, rfl⟩ := List.head?_eq_some_iff.1 hhead
      exact hmark tail rfl rfl
    obtain ⟨hopen, hnone⟩ | ⟨body, after, rfl, hopen, hsome⟩ := ih
    · exact .inl ⟨isOpen_cons.2 ⟨hhead, hopen⟩, hnone⟩
    · refine .inr ⟨c :: body, after, rfl, isOpen_cons.2 ⟨fun h => hhead ?_, hopen⟩, ?_⟩
      · simp [h]
      · rw [hsome, List.length_cons]
        congr 1
        omega

/-! ## Strings -/

/-- The inside of a string: no quote, and something after each backslash, which hides it. -/
inductive IsStringBody : List Char → Prop where
  | nil : IsStringBody []
  | plain {c : Char} {body : List Char} : c ≠ '"' → c ≠ '\\' → IsStringBody body →
      IsStringBody (c :: body)
  | escaped (c : Char) {body : List Char} : IsStringBody body → IsStringBody ('\\' :: c :: body)

theorem closeString_append (count : Nat) {body : List Char} (h : IsStringBody body)
    (after : List Char) :
    closeString count (body ++ '"' :: after) = some (count + body.length + 1) := by
  induction h generalizing count with
  | nil => rfl
  | @plain c body hquote hbackslash _ ih =>
    rw [List.cons_append, closeString, ih (count + 1)]
    · simp only [List.length_cons]
      congr 1
      omega
    · exact hquote
    · rintro d rest rfl
      exact absurd rfl hbackslash
  | @escaped c body _ ih =>
    rw [List.cons_append, List.cons_append, closeString, ih (count + 2)]
    simp only [List.length_cons]
    congr 1
    omega

theorem closeString_eq_some {count n : Nat} {cs : List Char} (h : closeString count cs = some n) :
    ∃ body after, cs = body ++ '"' :: after ∧ IsStringBody body ∧
      n = count + body.length + 1 := by
  fun_induction closeString count cs with
  | case1 count => cases h
  | case2 count rest =>
    cases h
    exact ⟨[], rest, rfl, .nil, rfl⟩
  | case3 count c rest ih =>
    obtain ⟨body, after, rfl, hbody, rfl⟩ := ih h
    exact ⟨'\\' :: c :: body, after, rfl, .escaped c hbody, by simp only [List.length_cons]; omega⟩
  | case4 count c rest hquote hescape ih =>
    obtain ⟨body, after, rfl, hbody, rfl⟩ := ih h
    refine ⟨c :: body, after, rfl, .plain hquote ?_ hbody, by simp only [List.length_cons]; omega⟩
    rintro rfl
    cases body with
    | nil => exact hescape '"' after rfl rfl
    | cons d body => exact hescape d _ rfl rfl

/-! ## Numbers -/

def EndsDigits (after : List Char) : Prop :=
  ∀ d ∈ after.head?, isAsciiDigit d = false

theorem takeWhile_append_stop {p : Char → Bool} {cs after : List Char} (hcs : ∀ c ∈ cs, p c = true)
    (hafter : ∀ c ∈ after.head?, p c = false) : (cs ++ after).takeWhile p = cs := by
  rw [List.takeWhile_append_of_pos hcs]
  cases after with
  | nil => simp
  | cons c after => simp [hafter c rfl]

/-- A list, such as a text, is cut where a class of its members ends. -/
theorem exists_stop {α : Type} (p : α → Bool) (cs : List α) : ∃ before after, cs = before ++ after ∧
    (∀ c ∈ before, p c = true) ∧ ∀ c ∈ after.head?, p c = false := by
  refine ⟨cs.takeWhile p, cs.dropWhile p, List.takeWhile_append_dropWhile.symm,
    List.all_eq_true.1 List.all_takeWhile, fun c hc => ?_⟩
  have hhead := List.head?_dropWhile_not p cs
  rw [Option.mem_def.1 hc] at hhead
  simpa using hhead

theorem isBlank_of_isAsciiDigit {c : Char} (h : isAsciiDigit c = true) : isBlank c = false :=
  isBlank_of_isNumeric (isNumeric_of_isAsciiDigit h)

theorem isWordStart_of_isAsciiDigit {c : Char} (h : isAsciiDigit c = true) :
    isWordStart c = false := by
  have hc := toNat_of_isAsciiDigit h
  have hletter : isLetter c = false := by
    rw [isLetter, if_pos (by omega), letterSpansLow, Span.covers, decide_eq_false (by omega)]
    rfl
  have hmark : c ≠ '_' := by
    rintro rfl
    exact absurd h (by decide)
  simp [isWordStart, hletter, hmark]

theorem digitCount_append {digits after : List Char}
    (hdigits : ∀ d ∈ digits, isAsciiDigit d = true) (hafter : EndsDigits after) :
    digitCount (digits ++ after) = digits.length := by
  rw [digitCount, takeWhile_append_stop hdigits hafter]

/-- What follows the first digit of a number: more digits, a fraction and an exponent, as far
as they go. -/
structure IsNumeral (digits fraction exponent after : List Char) : Prop where
  isDigits : ∀ d ∈ digits, isAsciiDigit d = true
  isFraction : IsFraction fraction
  isPointed : fraction ≠ ['.']
  isExponent : IsExponent exponent
  noDigit : EndsDigits after
  noFraction : fraction = [] → exponent = [] → fractionLength after = 0
  noExponent : exponent = [] → exponentLength after = 0

theorem fractionLength_append {digits after : List Char} (hne : digits ≠ [])
    (hdigits : ∀ d ∈ digits, isAsciiDigit d = true) (hafter : EndsDigits after) :
    fractionLength ('.' :: (digits ++ after)) = 1 + digits.length := by
  rw [fractionLength, digitCount_append hdigits hafter, if_neg (by simpa using hne)]

theorem fraction_cases (cs : List Char) : fractionLength cs = 0 ∨
    ∃ digits after, cs = '.' :: (digits ++ after) ∧ digits ≠ [] ∧
      (∀ d ∈ digits, isAsciiDigit d = true) ∧ EndsDigits after := by
  by_cases hpoint : ∃ rest, cs = '.' :: rest
  · obtain ⟨rest, rfl⟩ := hpoint
    obtain ⟨digits, after, rfl, hdigits, hafter⟩ := exists_stop isAsciiDigit rest
    cases digits with
    | nil =>
      refine .inl ?_
      rw [fractionLength, digitCount_append hdigits hafter]
      rfl
    | cons d digits => exact .inr ⟨_, after, rfl, List.cons_ne_nil d digits, hdigits, hafter⟩
  · refine .inl ?_
    unfold fractionLength
    split
    next rest => exact absurd ⟨rest, rfl⟩ hpoint
    · rfl

def IsSign (sign : List Char) : Prop :=
  sign = [] ∨ sign = ['+'] ∨ sign = ['-']

theorem exists_sign (cs : List Char) : ∃ sign after, cs = sign ++ after ∧ IsSign sign ∧
    (sign = [] → ∀ c ∈ after.head?, c ≠ '+' ∧ c ≠ '-') := by
  cases cs with
  | nil => exact ⟨[], [], rfl, .inl rfl, by simp⟩
  | cons c cs =>
    by_cases hplus : c = '+'
    · exact ⟨['+'], cs, by rw [hplus]; rfl, .inr (.inl rfl), by simp⟩
    · by_cases hminus : c = '-'
      · exact ⟨['-'], cs, by rw [hminus]; rfl, .inr (.inr rfl), by simp⟩
      · exact ⟨[], c :: cs, rfl, .inl rfl, by simp [hplus, hminus]⟩

theorem exponentLength_cons {e : Char} {sign after : List Char} (he : e = 'e' ∨ e = 'E')
    (hsign : IsSign sign) (hafter : sign = [] → ∀ c ∈ after.head?, c ≠ '+' ∧ c ≠ '-') :
    exponentLength (e :: (sign ++ after)) =
      if digitCount after = 0 then 0 else 1 + sign.length + digitCount after := by
  have hmark : (e == 'e' || e == 'E') = true := by
    rcases he with rfl | rfl <;> rfl
  rcases hsign with rfl | rfl | rfl
  · have hnone : (after.head? == some '+' || after.head? == some '-') = false := by
      cases after with
      | nil => rfl
      | cons c after => simpa using hafter rfl c rfl
    simp [exponentLength, hmark, hnone]
  · simp [exponentLength, hmark]
  · simp [exponentLength, hmark]

theorem exponentLength_append {e : Char} {sign digits after : List Char} (he : e = 'e' ∨ e = 'E')
    (hsign : IsSign sign) (hne : digits ≠ []) (hdigits : ∀ d ∈ digits, isAsciiDigit d = true)
    (hafter : EndsDigits after) :
    exponentLength (e :: (sign ++ (digits ++ after))) = 1 + sign.length + digits.length := by
  have hhead : ∀ c ∈ (digits ++ after).head?, c ≠ '+' ∧ c ≠ '-' := by
    cases digits with
    | nil => exact absurd rfl hne
    | cons d digits =>
      have hd := hdigits d List.mem_cons_self
      rintro _ ⟨⟩
      constructor <;> rintro rfl <;> exact absurd hd (by decide)
  rw [exponentLength_cons he hsign fun _ => hhead, digitCount_append hdigits hafter,
    if_neg (by simpa using hne)]

theorem exponent_cases (cs : List Char) : exponentLength cs = 0 ∨
    ∃ e sign digits after, cs = e :: (sign ++ (digits ++ after)) ∧ (e = 'e' ∨ e = 'E') ∧
      IsSign sign ∧ digits ≠ [] ∧ (∀ d ∈ digits, isAsciiDigit d = true) ∧ EndsDigits after := by
  cases cs with
  | nil => exact .inl rfl
  | cons e rest =>
    by_cases he : e = 'e' ∨ e = 'E'
    · obtain ⟨sign, tail, rfl, hsign, htail⟩ := exists_sign rest
      obtain ⟨digits, after, rfl, hdigits, hafter⟩ := exists_stop isAsciiDigit tail
      cases digits with
      | nil =>
        refine .inl ?_
        rw [exponentLength_cons he hsign htail, digitCount_append hdigits hafter]
        rfl
      | cons d digits =>
        exact .inr ⟨e, sign, _, after, rfl, he, hsign, List.cons_ne_nil d digits, hdigits, hafter⟩
    · exact .inl (by simp [exponentLength, he])

theorem EndsDigits.fraction {fraction after : List Char} (hafter : EndsDigits after)
    (h : IsFraction fraction) : EndsDigits (fraction ++ after) := by
  rcases h with rfl | ⟨digits, rfl, -⟩
  · exact hafter
  · rintro _ ⟨⟩
    rfl

theorem EndsDigits.exponent {exponent after : List Char} (hafter : EndsDigits after)
    (h : IsExponent exponent) : EndsDigits (exponent ++ after) := by
  rcases h with rfl | ⟨e, sign, digits, rfl, he, -⟩
  · exact hafter
  · rintro _ ⟨⟩
    rcases he with rfl | rfl <;> rfl

namespace IsNumeral

variable {digits fraction exponent after : List Char}
  (h : IsNumeral digits fraction exponent after)
include h

theorem fractionLength_eq : fractionLength (fraction ++ (exponent ++ after)) = fraction.length := by
  rcases h.isFraction with rfl | ⟨more, rfl, hmore⟩
  · rcases h.isExponent with rfl | ⟨e, sign, more, rfl, he, -⟩
    · exact h.noFraction rfl rfl
    · rcases he with rfl | rfl <;> rfl
  · have hne : more ≠ [] := by
      rintro rfl
      exact h.isPointed rfl
    rw [List.cons_append, fractionLength_append hne hmore (h.noDigit.exponent h.isExponent),
      List.length_cons, Nat.add_comm]

theorem exponentLength_eq : exponentLength (exponent ++ after) = exponent.length := by
  rcases h.isExponent with rfl | ⟨e, sign, more, rfl, he, hsign, hne, hmore⟩
  · exact h.noExponent rfl
  · rw [List.cons_append, List.append_assoc, exponentLength_append he hsign hne hmore h.noDigit]
    simp only [List.length_cons, List.length_append]
    omega

theorem numberExtra_eq : numberExtra (digits ++ (fraction ++ (exponent ++ after))) =
    digits.length + fraction.length + exponent.length := by
  have hends : EndsDigits (fraction ++ (exponent ++ after)) :=
    (h.noDigit.exponent h.isExponent).fraction h.isFraction
  simp only [numberExtra, digitCount_append h.isDigits hends, List.drop_left, h.fractionLength_eq,
    ← List.drop_drop, h.exponentLength_eq]

end IsNumeral

/-- Every text goes on after a first digit as a number does. -/
theorem exists_numeral (cs : List Char) : ∃ digits fraction exponent after,
    cs = digits ++ (fraction ++ (exponent ++ after)) ∧
      IsNumeral digits fraction exponent after := by
  obtain ⟨digits, tail, rfl, hdigits, htail⟩ := exists_stop isAsciiDigit cs
  obtain ⟨fraction, rest, rfl, hfraction, hpointed, hrest, hnone⟩ : ∃ fraction rest,
      tail = fraction ++ rest ∧ IsFraction fraction ∧ fraction ≠ ['.'] ∧ EndsDigits rest ∧
        (fraction = [] → fractionLength rest = 0) := by
    rcases fraction_cases tail with hnone | ⟨more, rest, rfl, hne, hmore, hrest⟩
    · exact ⟨[], tail, rfl, .inl rfl, nofun, htail, fun _ => hnone⟩
    · exact ⟨'.' :: more, rest, rfl, .inr ⟨more, rfl, hmore⟩, by simpa using hne, hrest, nofun⟩
  obtain hnoExponent | ⟨e, sign, more, after, rfl, he, hsign, hne, hmore, hafter⟩ :=
    exponent_cases rest
  · exact ⟨digits, fraction, [], rest, rfl, hdigits, hfraction, hpointed, .inl rfl, hrest,
      fun h _ => hnone h, fun _ => hnoExponent⟩
  · exact ⟨digits, fraction, e :: (sign ++ more), after, by simp, hdigits, hfraction, hpointed,
      .inr ⟨e, sign, more, rfl, he, hsign, hne, hmore⟩, hafter, nofun, nofun⟩

/-! ## Lexemes -/

/-- What a character is when it starts none of the pieces that are longer or have a meaning. -/
structure IsStray (c : Char) : Prop where
  notBlank : isBlank c = false
  notWord : isWordStart c = false
  notDigit : isAsciiDigit c = false
  notQuote : c ≠ '"'
  notOperator : c ∉ singleOperators
  notMark : c ∉ punctuation

/-- The pieces of a text before others: the characters of a piece, those after it, and the
kind and the value of the token that it is. Gaps have no kind. -/
inductive IsLexeme : (text after : List Char) → Option Kind → Option String → Prop where
  | blank {c : Char} {after : List Char} : isBlank c = true → IsLexeme [c] after none none
  | lineComment {body after : List Char} : '\n' ∉ body → (∀ c ∈ after.head?, c = '\n') →
      IsLexeme ('/' :: '/' :: body) after none none
  | blockComment {body after : List Char} : IsOpen body →
      IsLexeme ('/' :: '*' :: (body ++ ['*', '/'])) after none none
  | openComment {body : List Char} : IsOpen body →
      IsLexeme ('/' :: '*' :: body) [] (some .error) (some "unterminated block comment")
  | word {c : Char} {cs after : List Char} : isBlank c = false → isWordStart c = true →
      (∀ d ∈ cs, isWordChar d = true) → (∀ d ∈ after.head?, isWordChar d = false) →
      IsLexeme (c :: cs) after
        (some (if String.ofList (c :: cs) ∈ keywords then .keyword else .ident)) none
  | number {c : Char} {digits fraction exponent after : List Char} : isAsciiDigit c = true →
      IsNumeral digits fraction exponent after →
      IsLexeme (c :: (digits ++ (fraction ++ exponent))) after (some .number) none
  | string {body after : List Char} : IsStringBody body →
      IsLexeme ('"' :: (body ++ ['"'])) after (some .string) (some (String.ofList body))
  | openString {body : List Char} :
      (∀ inner rest, body = inner ++ '"' :: rest → ¬ IsStringBody inner) →
      IsLexeme ('"' :: body) [] (some .error) (some "unterminated string literal")
  | pair {c d : Char} {after : List Char} : [c, d] ∈ pairOperators →
      IsLexeme [c, d] after (some .op) none
  | single {c : Char} {after : List Char} : c ∈ singleOperators →
      (∀ d ∈ after.head?, [c, d] ∉ pairOperators ∧ [c, d] ≠ ['/', '/'] ∧ [c, d] ≠ ['/', '*']) →
      IsLexeme [c] after (some .op) none
  | mark {c : Char} {after : List Char} : c ∈ punctuation → IsLexeme [c] after (some .punct) none
  | stray {c : Char} {after : List Char} : IsStray c →
      (∀ d ∈ after.head?, [c, d] ∉ pairOperators) →
      IsLexeme [c] after (some .error)
        (some s!"unexpected character {quoted (String.singleton c)}")

theorem exists_comment (rest : List Char) : ∃ cs after kind value, rest = cs ++ after ∧
    IsLexeme ('/' :: cs) after kind value := by
  cases rest with
  | nil => exact ⟨[], [], _, _, rfl, .single (by decide) (by simp)⟩
  | cons d rest =>
    by_cases hline : d = '/'
    · obtain ⟨body, after, rfl, hbody, hafter⟩ := exists_stop (· != '\n') rest
      subst hline
      exact ⟨'/' :: body, after, _, _, rfl,
        .lineComment (fun hmem => absurd (hbody _ hmem) (by decide)) (by simpa using hafter)⟩
    by_cases hblock : d = '*'
    · subst hblock
      obtain ⟨hopen, -⟩ | ⟨body, after, rfl, hopen, -⟩ := closeComment_cases 0 rest
      · exact ⟨'*' :: rest, [], _, _, by simp, .openComment hopen⟩
      · exact ⟨'*' :: (body ++ ['*', '/']), after, _, _, by simp, .blockComment hopen⟩
    · exact ⟨[], d :: rest, _, _, rfl, .single (by decide) (by simp [pairOperators, hline, hblock])⟩

theorem exists_string (rest : List Char) : ∃ cs after kind value, rest = cs ++ after ∧
    IsLexeme ('"' :: cs) after kind value := by
  by_cases hclosed : ∃ body after, rest = body ++ '"' :: after ∧ IsStringBody body
  · obtain ⟨body, after, rfl, hbody⟩ := hclosed
    exact ⟨body ++ ['"'], after, _, _, by simp, .string hbody⟩
  · exact ⟨rest, [], _, _, by simp, .openString fun body after hrest hbody =>
      hclosed ⟨body, after, hrest, hbody⟩⟩

theorem exists_operator {c : Char} (hslash : c ≠ '/') (hc : c ∈ singleOperators ∨ IsStray c)
    (rest : List Char) : ∃ cs after kind value, rest = cs ++ after ∧
      IsLexeme (c :: cs) after kind value := by
  by_cases hpair : ∃ d ∈ rest.head?, [c, d] ∈ pairOperators
  · obtain ⟨d, hd, hpair⟩ := hpair
    obtain ⟨after, rfl⟩ := List.head?_eq_some_iff.1 hd
    exact ⟨[d], after, _, _, rfl, .pair hpair⟩
  · rw [not_exists] at hpair
    simp only [not_and] at hpair
    rcases hc with hc | hc
    · exact ⟨[], rest, _, _, rfl,
        .single hc fun d hd => ⟨hpair d hd, by simp [hslash], by simp [hslash]⟩⟩
    · exact ⟨[], rest, _, _, rfl, .stray hc hpair⟩

/-- Every text starts with a lexeme. -/
theorem exists_lexeme (c : Char) (rest : List Char) : ∃ cs after kind value, rest = cs ++ after ∧
    IsLexeme (c :: cs) after kind value := by
  by_cases hblank : isBlank c = true
  · exact ⟨[], rest, _, _, rfl, .blank hblank⟩
  by_cases hslash : c = '/'
  · exact hslash ▸ exists_comment rest
  by_cases hword : isWordStart c = true
  · obtain ⟨cs, after, rfl, hcs, hafter⟩ := exists_stop isWordChar rest
    exact ⟨cs, after, _, _, rfl, .word (by simpa using hblank) hword hcs hafter⟩
  by_cases hdigit : isAsciiDigit c = true
  · obtain ⟨digits, fraction, exponent, after, rfl, h⟩ := exists_numeral rest
    exact ⟨digits ++ (fraction ++ exponent), after, _, _, by simp, .number hdigit h⟩
  by_cases hquote : c = '"'
  · exact hquote ▸ exists_string rest
  by_cases hsingle : c ∈ singleOperators
  · exact exists_operator hslash (.inl hsingle) rest
  by_cases hmark : c ∈ punctuation
  · exact ⟨[], rest, _, _, rfl, .mark hmark⟩
  · simp only [Bool.not_eq_true] at hblank hword hdigit
    exact exists_operator hslash (.inr ⟨hblank, hword, hdigit, hquote, hsingle, hmark⟩) rest

theorem lexemeAt_lineComment (rest : List Char) :
    lexemeAt '/' ('/' :: rest) = .gap (rest.takeWhile (· != '\n')).length.succ := rfl

theorem lexemeAt_blockComment (rest : List Char) :
    lexemeAt '/' ('*' :: rest) = match closeComment 1 rest with
      | some extra => .gap extra
      | none => .bad (rest.length + 1) "unterminated block comment" := rfl

theorem lexemeAt_string (rest : List Char) :
    lexemeAt '"' rest = match closeString 0 rest with
      | some extra => ⟨some .string, extra, some (String.ofList (rest.take (extra - 1)))⟩
      | none => .bad rest.length "unterminated string literal" := rfl

/-- A character that starts nothing longer is an operator, a mark or neither. -/
theorem lexemeAt_char {c : Char} {rest : List Char} (hblank : isBlank c = false)
    (hword : isWordStart c = false) (hdigit : isAsciiDigit c = false) (hquote : c ≠ '"')
    (hrest : ∀ d ∈ rest.head?,
      [c, d] ∉ pairOperators ∧ [c, d] ≠ ['/', '/'] ∧ [c, d] ≠ ['/', '*']) :
    lexemeAt c rest = if c ∈ singleOperators then ⟨some .op, 0, none⟩
      else if c ∈ punctuation then ⟨some .punct, 0, none⟩
      else .bad 0 s!"unexpected character {quoted (String.singleton c)}" := by
  have hpair : c :: rest.take 1 ∉ pairOperators := by
    cases rest with
    | nil => simp [pairOperators]
    | cons d rest => exact (hrest d rfl).1
  have hcomment (d : Char) (hd : d = '/' ∨ d = '*') : ¬ (c = '/' ∧ rest.head? = some d) := by
    rintro ⟨rfl, hhead⟩
    rcases hd with rfl | rfl
    · exact (hrest _ hhead).2.1 rfl
    · exact (hrest _ hhead).2.2 rfl
  simp [lexemeAt, hblank, hcomment, hword, hdigit, hquote, hpair]

theorem of_mem_singleOperators {c : Char} (hc : c ∈ singleOperators) :
    isBlank c = false ∧ isWordStart c = false ∧ isAsciiDigit c = false ∧ c ≠ '"' := by
  have hall : singleOperators.all (fun c =>
      !isBlank c && !isWordStart c && !isAsciiDigit c && c != '"') = true := by decide
  simpa [and_assoc] using List.all_eq_true.1 hall c hc

theorem of_mem_punctuation {c : Char} (hc : c ∈ punctuation) :
    isBlank c = false ∧ isWordStart c = false ∧ isAsciiDigit c = false ∧ c ≠ '"' ∧
      c ∉ singleOperators ∧ ∀ pair ∈ pairOperators, pair.head? ≠ some c := by
  have hall : punctuation.all (fun c =>
      !isBlank c && !isWordStart c && !isAsciiDigit c && c != '"' &&
        !singleOperators.contains c && pairOperators.all (·.head? != some c)) = true := by decide
  simpa [and_assoc] using List.all_eq_true.1 hall c hc

/-- A lexeme at the start of a text is what the scanner finds there. -/
theorem lexemeAt_of_isLexeme {c : Char} {cs after : List Char} {kind : Option Kind}
    {value : Option String} (h : IsLexeme (c :: cs) after kind value) :
    lexemeAt c (cs ++ after) = ⟨kind, cs.length, value⟩ := by
  cases h with
  | blank hblank => simp [lexemeAt, hblank, Lexeme.gap]
  | @lineComment body _ hbody hafter =>
    have htake : (body ++ after).takeWhile (· != '\n') = body := by
      refine takeWhile_append_stop (fun c hc => ?_) (by simpa using hafter)
      simpa using ne_of_mem_of_not_mem hc hbody
    rw [List.cons_append, lexemeAt_lineComment, htake]
    rfl
  | @blockComment body _ hopen =>
    have hassoc : body ++ ['*', '/'] ++ after = body ++ '*' :: '/' :: after := by simp
    rw [List.cons_append, lexemeAt_blockComment, hassoc, closeComment_append 1 hopen]
    simp only [Lexeme.gap, List.length_cons, List.length_append, List.length_nil]
    congr 1
    omega
  | @openComment body hopen =>
    rw [List.append_nil, lexemeAt_blockComment]
    obtain ⟨-, hnone⟩ | ⟨inner, rest, rfl, -⟩ := closeComment_cases 1 body
    · rw [hnone]
      rfl
    · exact absurd ⟨inner, rest, by simp⟩ hopen
  | word hblank hword hcs hafter =>
    have hslash : c ≠ '/' := by
      rintro rfl
      exact absurd hword (by decide)
    simp [lexemeAt, hblank, hslash, hword, takeWhile_append_stop hcs hafter]
  | number hdigit h =>
    have hslash : c ≠ '/' := by
      rintro rfl
      exact absurd hdigit (by decide)
    simp [lexemeAt, isBlank_of_isAsciiDigit hdigit, hslash, isWordStart_of_isAsciiDigit hdigit,
      hdigit, h.numberExtra_eq, Nat.add_assoc]
  | @string body _ hbody =>
    have hassoc : body ++ ['"'] ++ after = body ++ '"' :: after := by simp
    rw [lexemeAt_string, hassoc, closeString_append 0 hbody after]
    simp
  | openString hbody =>
    rw [List.append_nil, lexemeAt_string]
    cases hclose : closeString 0 cs with
    | none => rfl
    | some n =>
      obtain ⟨inner, rest, hcs, hinner, -⟩ := closeString_eq_some hclose
      exact absurd hinner (hbody inner rest hcs)
  | pair hpair =>
    simp [pairOperators] at hpair
    rcases hpair with ⟨rfl, rfl⟩ | ⟨rfl, rfl⟩ | ⟨rfl, rfl⟩ | ⟨rfl, rfl⟩ | ⟨rfl, rfl⟩ | ⟨rfl, rfl⟩ |
      ⟨rfl, rfl⟩
    all_goals rfl
  | single hsingle hafter =>
    obtain ⟨hblank, hword, hdigit, hquote⟩ := of_mem_singleOperators hsingle
    rw [List.nil_append, lexemeAt_char hblank hword hdigit hquote hafter, if_pos hsingle]
    rfl
  | mark hmark =>
    obtain ⟨hblank, hword, hdigit, hquote, hsingle, hpair⟩ := of_mem_punctuation hmark
    have hslash : c ≠ '/' := ne_of_mem_of_not_mem hmark (by decide)
    rw [List.nil_append, lexemeAt_char hblank hword hdigit hquote, if_neg hsingle, if_pos hmark]
    · rfl
    · exact fun d _ => ⟨fun hd => hpair _ hd rfl, by simp [hslash], by simp [hslash]⟩
  | stray hstray hafter =>
    have hslash : c ≠ '/' := fun h => hstray.notOperator (h ▸ by decide)
    rw [List.nil_append, lexemeAt_char hstray.notBlank hstray.notWord hstray.notDigit
      hstray.notQuote, if_neg hstray.notOperator, if_neg hstray.notMark]
    · rfl
    · exact fun d hd => ⟨hafter d hd, by simp [hslash], by simp [hslash]⟩

theorem IsLexeme.exists_cons {text after : List Char} {kind : Option Kind} {value : Option String}
    (h : IsLexeme text after kind value) : ∃ c cs, text = c :: cs := by
  cases h <;> exact ⟨_, _, rfl⟩

theorem IsLexeme.kind_ne_eof {text after : List Char} {kind : Option Kind} {value : Option String}
    (h : IsLexeme text after kind value) : kind ≠ some .eof := by
  cases h with
  | word => split <;> nofun
  | _ => nofun

/-- A name is a word that is not reserved. -/
theorem IsLexeme.word_of_ident {text after : List Char} {value : Option String}
    (h : IsLexeme text after (some .ident) value) : ∃ c cs, text = c :: cs ∧
      isWordStart c = true ∧ (∀ d ∈ cs, isWordChar d = true) ∧ String.ofList text ∉ keywords := by
  generalize hkind : some Kind.ident = kind at h
  cases h with
  | word _ hstart hcs _ =>
    split at hkind
    · cases hkind
    next hkeyword => exact ⟨_, _, rfl, hstart, hcs, hkeyword⟩
  | _ => cases hkind

/-! ## Whole texts -/

/-- A text from a place on cut into lexemes, with the tokens among them and the token that
marks the end. -/
inductive IsCut : Position → List Char → List Token → Prop where
  | done (p : Position) : IsCut p [] [eofAt p]
  | gap {p : Position} {text after : List Char} {value : Option String} {ts : List Token} :
      IsLexeme text after none value → IsCut (p.after text) after ts → IsCut p (text ++ after) ts
  | token {p : Position} {text after : List Char} {kind : Kind} {value : Option String}
      {ts : List Token} : IsLexeme text after (some kind) value → IsCut (p.after text) after ts →
      IsCut p (text ++ after) (⟨kind, String.ofList text, p, value⟩ :: ts)

theorem exists_isCut (p : Position) (cs : List Char) : ∃ ts, IsCut p cs ts := by
  induction hlength : cs.length using Nat.strongRecOn generalizing p cs with
  | ind n ih =>
    cases cs with
    | nil => exact ⟨_, .done p⟩
    | cons c rest =>
      obtain ⟨cs, after, kind, value, rfl, h⟩ := exists_lexeme c rest
      obtain ⟨ts, hts⟩ := ih after.length (by simp at hlength; omega) (p.after (c :: cs)) after rfl
      rw [← List.cons_append]
      cases kind with
      | none => exact ⟨ts, .gap h hts⟩
      | some kind => exact ⟨_, .token h hts⟩

/-- The scanner cuts a text in the one way there is. -/
theorem IsCut.toList_scanFrom {p : Position} {cs : List Char} {ts : List Token}
    (h : IsCut p cs ts) (done : Array Token) : (scanFrom p done cs).toList = done.toList ++ ts := by
  induction h generalizing done with
  | done p => simp [scanFrom]
  | gap h _ ih =>
    obtain ⟨c, cs, rfl⟩ := h.exists_cons
    rw [List.cons_append, scanFrom, lexemeAt_of_isLexeme h]
    simp [ih]
  | token h _ ih =>
    obtain ⟨c, cs, rfl⟩ := h.exists_cons
    rw [List.cons_append, scanFrom, lexemeAt_of_isLexeme h]
    simp [ih]

theorem scan_eq_iff {source : String} {ts : List Token} :
    scan source = ts ↔ IsCut .start source.toList ts := by
  have hscan {us : List Token} (h : IsCut .start source.toList us) : scan source = us := by
    simp [scan, h.toList_scanFrom]
  refine ⟨fun h => ?_, hscan⟩
  obtain ⟨us, hus⟩ := exists_isCut .start source.toList
  rwa [← h, hscan hus]

theorem isCut_scan (source : String) : IsCut .start source.toList (scan source) :=
  scan_eq_iff.1 rfl

/-- Every token before the end is a lexeme of the text. -/
theorem IsCut.exists_lexeme {p : Position} {cs : List Char} {ts : List Token} (h : IsCut p cs ts)
    {t : Token} (ht : t ∈ ts) (hkind : t.kind ≠ .eof) : ∃ text after,
      t.text = String.ofList text ∧ IsLexeme text after (some t.kind) t.value := by
  induction h with
  | done p =>
    obtain rfl := List.mem_singleton.1 ht
    exact absurd rfl hkind
  | gap _ _ ih => exact ih ht
  | token h _ ih =>
    rcases List.mem_cons.1 ht with rfl | ht
    · exact ⟨_, _, rfl, h⟩
    · exact ih ht

theorem IsCut.eq_append {p : Position} {cs : List Char} {ts : List Token} (h : IsCut p cs ts) :
    ∃ tokens, ts = tokens ++ [eofAt (p.after cs)] ∧ ∀ t ∈ tokens, t.kind ≠ .eof := by
  induction h with
  | done p => exact ⟨[], rfl, nofun⟩
  | gap _ _ ih => rwa [Position.after_append]
  | token h _ ih =>
    obtain ⟨tokens, rfl, htokens⟩ := ih
    refine ⟨_ :: tokens, by rw [Position.after_append]; rfl, ?_⟩
    exact List.forall_mem_cons.2 ⟨fun hkind => h.kind_ne_eof (congrArg some hkind), htokens⟩

/-- Only the last token of a text marks the end of input. -/
theorem scan_eq_append (source : String) : ∃ (tokens : List Token) (eof : Token),
    scan source = tokens ++ [eof] ∧ eof.kind = .eof ∧ ∀ t ∈ tokens, t.kind ≠ .eof := by
  obtain ⟨tokens, hscan, htokens⟩ := (isCut_scan source).eq_append
  exact ⟨tokens, _, hscan, rfl, htokens⟩

end Token

end Orus
