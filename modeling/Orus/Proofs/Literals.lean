import Orus.Proofs.Shape

/-! # Number literals

Every number token can be read: digits, perhaps a fraction and perhaps an exponent are a
decimal, and nothing in them is a blank, an underscore or a sign of its own.
-/

namespace Orus

open Text Number

/-! ## Characters -/

theorem toNat_of_isAsciiDigit {c : Char} (h : isAsciiDigit c = true) :
    48 ≤ c.toNat ∧ c.toNat ≤ 57 := by
  simp only [isAsciiDigit, Bool.and_eq_true, decide_eq_true_eq, Char.le_def,
    UInt32.le_iff_toNat_le] at h
  exact h

/-- Characters that reading a number leaves as they are. -/
def isNumeric (c : Char) : Bool :=
  isAsciiDigit c || c == '.' || c == 'e' || c == 'E' || c == '+' || c == '-'

theorem isNumeric_of_isAsciiDigit {c : Char} (h : isAsciiDigit c = true) : isNumeric c = true := by
  simp [isNumeric, h]

theorem toNat_of_isNumeric {c : Char} (h : isNumeric c = true) :
    42 < c.toNat ∧ c.toNat < 127 ∧ c ≠ '_' := by
  simp only [isNumeric, Bool.or_eq_true, beq_iff_eq] at h
  rcases h with ((((h | rfl) | rfl) | rfl) | rfl) | rfl
  · have hdigit := toNat_of_isAsciiDigit h
    refine ⟨by omega, by omega, ?_⟩
    rintro rfl
    exact absurd h (by decide)
  all_goals decide

theorem isPlainBlank_eq_false {c : Char} (h : 42 < c.toNat) : isPlainBlank c = false := by
  have hval : c.val.toNat = c.toNat := rfl
  have hlast : '\r'.val.toNat = 13 := rfl
  simp only [isPlainBlank, Bool.or_eq_false_iff, Bool.and_eq_false_iff, beq_eq_false_iff_ne,
    decide_eq_false_iff_not, Char.le_def, UInt32.le_iff_toNat_le]
  refine ⟨?_, .inr (by omega)⟩
  rintro rfl
  exact absurd h (by decide)

theorem isBlank_of_isNumeric {c : Char} (h : isNumeric c = true) : isBlank c = false := by
  have hc := toNat_of_isNumeric h
  simp [isBlank, blankSpans, Span.covers]
  omega

/-! ## Reading -/

theorem map_toPlain {cs : List Char} (h : ∀ c ∈ cs, isNumeric c = true) : cs.map toPlain = cs := by
  refine (List.map_congr_left fun c hc => ?_).trans (List.map_id cs)
  exact if_pos (toNat_of_isNumeric (h c hc)).2.1

theorem joinGroups_eq_self (afterDigit : Bool) {cs : List Char} (h : ∀ c ∈ cs, c ≠ '_') :
    joinGroups afterDigit cs = some cs := by
  fun_induction joinGroups afterDigit cs with
  | case1 => rfl
  | case2 => exact absurd rfl (h '_' List.mem_cons_self)
  | case3 => exact absurd rfl (h '_' List.mem_cons_self)
  | case4 afterDigit c rest hc ih =>
    rw [ih fun d hd => h d (List.mem_cons_of_mem c hd)]
    rfl

def IsFraction (cs : List Char) : Prop :=
  cs = [] ∨ ∃ digits, cs = '.' :: digits ∧ ∀ d ∈ digits, isAsciiDigit d = true

def IsExponent (cs : List Char) : Prop :=
  cs = [] ∨ ∃ e sign digits, cs = e :: (sign ++ digits) ∧ (e = 'e' ∨ e = 'E') ∧
    (sign = [] ∨ sign = ['+'] ∨ sign = ['-']) ∧ digits ≠ [] ∧
    ∀ d ∈ digits, isAsciiDigit d = true

theorem IsFraction.isNumeric {cs : List Char} (h : IsFraction cs) :
    ∀ c ∈ cs, isNumeric c = true := by
  rcases h with rfl | ⟨digits, rfl, hdigits⟩
  · exact List.forall_mem_nil _
  · exact List.forall_mem_cons.2 ⟨rfl, fun d hd => isNumeric_of_isAsciiDigit (hdigits d hd)⟩

theorem IsExponent.isNumeric {cs : List Char} (h : IsExponent cs) :
    ∀ c ∈ cs, isNumeric c = true := by
  rcases h with rfl | ⟨e, sign, digits, rfl, he, hsign, -, hdigits⟩
  · exact List.forall_mem_nil _
  · refine List.forall_mem_cons.2 ⟨?_, List.forall_mem_append.2 ⟨?_, fun d hd =>
      isNumeric_of_isAsciiDigit (hdigits d hd)⟩⟩
    · rcases he with rfl | rfl <;> rfl
    · rcases hsign with rfl | rfl | rfl
      · exact List.forall_mem_nil _
      · exact List.forall_mem_singleton.2 rfl
      · exact List.forall_mem_singleton.2 rfl

theorem splitSign_digits {digits : List Char} (h : ∀ d ∈ digits, isAsciiDigit d = true)
    (rest : List Char) (hne : digits ≠ []) :
    splitSign (digits ++ rest) = (false, digits ++ rest) := by
  cases digits with
  | nil => exact absurd rfl hne
  | cons d digits =>
    have hd := h d List.mem_cons_self
    unfold splitSign
    split
    next heq =>
      cases heq
      exact absurd hd (by decide)
    next heq =>
      cases heq
      exact absurd hd (by decide)
    · rfl

theorem splitSign_minus (negative : Bool) {digits : List Char} (hne : digits ≠ [])
    (hdigits : ∀ d ∈ digits, isAsciiDigit d = true) (rest : List Char) :
    splitSign ((if negative then ['-'] else []) ++ (digits ++ rest)) =
      (negative, digits ++ rest) := by
  cases negative
  · exact splitSign_digits hdigits rest hne
  · rfl

theorem splitSign_append {sign digits : List Char}
    (hsign : sign = [] ∨ sign = ['+'] ∨ sign = ['-']) (hne : digits ≠ [])
    (hdigits : ∀ d ∈ digits, isAsciiDigit d = true) : (splitSign (sign ++ digits)).2 = digits := by
  rcases hsign with rfl | rfl | rfl
  · have hsplit := splitSign_digits hdigits [] hne
    rw [List.append_nil] at hsplit
    exact congrArg Prod.snd hsplit
  · rfl
  · rfl

theorem readExponent_ne_none {cs : List Char} (h : IsExponent cs) : readExponent cs ≠ none := by
  rcases h with rfl | ⟨e, sign, digits, rfl, he, hsign, hne, hdigits⟩
  · exact nofun
  · have hall : digits.all isAsciiDigit = true := List.all_eq_true.2 hdigits
    have hmark : (e == 'e' || e == 'E') = true := by
      rcases he with rfl | rfl <;> rfl
    simp [readExponent, hmark, splitSign_append hsign hne hdigits, hall, hne]

theorem span_exponent {cs : List Char} (h : IsExponent cs) :
    cs.takeWhile isAsciiDigit = [] ∧ cs.dropWhile isAsciiDigit = cs := by
  rcases h with rfl | ⟨e, sign, digits, rfl, he, -⟩
  · exact ⟨rfl, rfl⟩
  · rcases he with rfl | rfl <;> exact ⟨rfl, rfl⟩

section Numerals

variable {digits fraction exponent : List Char} (hne : digits ≠ [])
  (hdigits : ∀ d ∈ digits, isAsciiDigit d = true) (hfraction : IsFraction fraction)
  (hexponent : IsExponent exponent)
include hdigits hfraction hexponent

theorem isNumeric_of_mem_minus (negative : Bool) :
    ∀ c ∈ (if negative then ['-'] else []) ++ (digits ++ (fraction ++ exponent)),
      isNumeric c = true := by
  refine List.forall_mem_append.2 ⟨?_, List.forall_mem_append.2
    ⟨fun d hd => isNumeric_of_isAsciiDigit (hdigits d hd),
      List.forall_mem_append.2 ⟨hfraction.isNumeric, hexponent.isNumeric⟩⟩⟩
  cases negative
  · exact List.forall_mem_nil _
  · exact List.forall_mem_singleton.2 rfl

include hne

/-- What is read off digits with a fraction and an exponent. -/
theorem readDecimal_eq {e : Int} (he : readExponent exponent = some e) :
    readDecimal (digits ++ (fraction ++ exponent)) =
      some ⟨digitsValue (digits ++ fraction.tail), e - fraction.tail.length⟩ := by
  obtain ⟨htake, hdrop⟩ := span_exponent hexponent
  unfold readDecimal
  rw [List.takeWhile_append_of_pos hdigits, List.dropWhile_append_of_pos hdigits]
  rcases hfraction with rfl | ⟨more, rfl, hmore⟩
  · rw [List.nil_append, hdrop, htake, List.append_nil]
    rcases hexponent with rfl | ⟨e, sign, more, rfl, rfl | rfl, -⟩ <;> simp [hne, he]
  · have hpoint (cs : List Char) :
        ('.' :: cs).takeWhile isAsciiDigit = [] ∧ ('.' :: cs).dropWhile isAsciiDigit = '.' :: cs :=
      ⟨rfl, rfl⟩
    rw [List.cons_append, (hpoint _).1, (hpoint _).2]
    simp [hne, he, List.takeWhile_append_of_pos hmore, List.dropWhile_append_of_pos hmore, htake,
      hdrop]

theorem readNumber?_eq (negative : Bool) {d : Decimal}
    (hread : readDecimal (digits ++ (fraction ++ exponent)) = some d) :
    readNumber? (String.ofList ((if negative then ['-'] else []) ++
      (digits ++ (fraction ++ exponent)))) = some (d.toFloat negative) := by
  have hnumeric := isNumeric_of_mem_minus hdigits hfraction hexponent negative
  unfold readNumber?
  rw [String.toList_ofList, map_toPlain hnumeric,
    trimWith_eq_self fun c hc => isPlainBlank_eq_false (toNat_of_isNumeric (hnumeric c hc)).1,
    joinGroups_eq_self false fun c hc => (toNat_of_isNumeric (hnumeric c hc)).2.2]
  simp only [Option.bind_eq_bind, Option.bind_some, splitSign_minus negative hne hdigits, hread]

theorem readNumber?_ne_none :
    readNumber? (String.ofList (digits ++ (fraction ++ exponent))) ≠ none := by
  obtain ⟨e, he⟩ := Option.ne_none_iff_exists'.1 (readExponent_ne_none hexponent)
  have hread := readNumber?_eq hne hdigits hfraction hexponent false
    (readDecimal_eq hne hdigits hfraction hexponent he)
  exact Option.ne_none_iff_exists'.2 ⟨_, hread⟩

end Numerals

/-! ## Scanning -/

namespace Token

theorem take_digitCount (cs : List Char) : cs.take (digitCount cs) = cs.takeWhile isAsciiDigit :=
  (List.prefix_iff_eq_take.1 (List.takeWhile_prefix _)).symm

theorem isAsciiDigit_of_mem_take {cs : List Char} :
    ∀ d ∈ cs.take (digitCount cs), isAsciiDigit d = true := by
  rw [take_digitCount]
  exact List.all_eq_true.1 List.all_takeWhile

theorem isFraction_take (cs : List Char) : IsFraction (cs.take (fractionLength cs)) := by
  unfold fractionLength
  split
  next rest =>
    split
    · exact .inl rfl
    · rw [Nat.add_comm]
      exact .inr ⟨_, rfl, isAsciiDigit_of_mem_take⟩
  · exact .inl rfl

theorem take_sign (cs : List Char) {sign : Nat}
    (h : (if cs.head? == some '+' || cs.head? == some '-' then 1 else 0) = sign) :
    cs.take sign = [] ∨ cs.take sign = ['+'] ∨ cs.take sign = ['-'] := by
  subst h
  split
  next hsign =>
    cases cs with
    | nil => exact .inl rfl
    | cons c cs =>
      simp only [List.head?_cons, Bool.or_eq_true, beq_iff_eq, Option.some.injEq] at hsign
      rcases hsign with rfl | rfl
      · exact .inr (.inl rfl)
      · exact .inr (.inr rfl)
  · exact .inl rfl

theorem isExponent_take (cs : List Char) : IsExponent (cs.take (exponentLength cs)) := by
  unfold exponentLength
  split
  · exact .inl rfl
  next e rest =>
    split
    next he =>
      generalize hsign : (if rest.head? == some '+' || rest.head? == some '-' then 1 else 0) = sign
      dsimp only
      split
      · exact .inl rfl
      next hcount =>
        have hmark : e = 'e' ∨ e = 'E' := by simpa using he
        have htake : (e :: rest).take (1 + sign + digitCount (rest.drop sign)) =
            e :: (rest.take sign ++ (rest.drop sign).take (digitCount (rest.drop sign))) := by
          rw [← List.take_add, Nat.add_assoc, Nat.add_comm 1, List.take_succ_cons]
        rw [htake]
        refine .inr ⟨e, _, _, rfl, hmark, take_sign rest hsign, fun hnil => hcount ?_,
          isAsciiDigit_of_mem_take⟩
        rw [take_digitCount] at hnil
        exact congrArg List.length hnil
    · exact .inl rfl

/-- The characters of a number literal after its first digit make it a number. -/
theorem readNumber?_numberExtra {c : Char} (hc : isAsciiDigit c = true) (rest : List Char) :
    readNumber? (String.ofList (c :: rest.take (numberExtra rest))) ≠ none := by
  unfold numberExtra
  dsimp only
  rw [List.take_add, List.take_add, List.append_assoc, ← List.cons_append]
  exact readNumber?_ne_none (List.cons_ne_nil _ _)
    (List.forall_mem_cons.2 ⟨hc, isAsciiDigit_of_mem_take⟩) (isFraction_take _) (isExponent_take _)

theorem lexemeAt_of_number {c : Char} {rest : List Char}
    (h : (lexemeAt c rest).kind = some .number) :
    isAsciiDigit c = true ∧ (lexemeAt c rest).extra = numberExtra rest := by
  revert h
  unfold lexemeAt
  split
  · exact nofun
  split
  · exact nofun
  split
  · split <;> exact nofun
  split
  · dsimp only
    split <;> exact nofun
  split
  next hc => exact fun _ => ⟨hc, rfl⟩
  split
  · split <;> exact nofun
  split
  · exact nofun
  split
  · exact nofun
  split <;> exact nofun

theorem isReadable_scanFrom (p : Position) {done : Array Token} (cs : List Char)
    (h : ∀ t ∈ done, Syntax.IsReadable t) :
    ∀ t ∈ scanFrom p done cs, Syntax.IsReadable t := by
  fun_induction scanFrom p done cs with
  | case1 p done =>
    intro t ht
    rcases Array.mem_push.1 ht with ht | rfl
    · exact h t ht
    · exact Syntax.isReadable_eofAt p
  | case2 p done c rest lexeme text done' ih =>
    refine ih ?_
    cases hkind : lexeme.kind with
    | none => simpa only [done', hkind] using h
    | some kind =>
      simp only [done', hkind]
      intro t ht
      rcases Array.mem_push.1 ht with ht | rfl
      · exact h t ht
      · rintro rfl
        obtain ⟨hc, hextra⟩ := lexemeAt_of_number hkind
        change Number.readNumber? (String.ofList (c :: rest.take (lexemeAt c rest).extra)) ≠ none
        rw [hextra]
        exact readNumber?_numberExtra hc rest

theorem isReadable_of_mem_scan (source : String) : ∀ t ∈ scan source, Syntax.IsReadable t :=
  fun t ht => isReadable_scanFrom .start source.toList (by simp) t (Array.mem_toList_iff.1 ht)

end Token

end Orus
