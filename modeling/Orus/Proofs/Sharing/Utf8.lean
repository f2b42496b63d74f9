import Mathlib.Data.List.Basic
import Orus.Text.Utf8

/-! # Reading UTF-8 back

Bytes are read as a text exactly when they are the bytes of that text. In particular no
text has two forms: overlong forms, surrogates and numbers beyond the last character are
refused.
-/

namespace Orus.Text

/-! ## Characters and their numbers -/

/-- Numbers of characters: surrogates are none. -/
def IsCodePoint (n : Nat) : Prop :=
  n < 0xD800 ∨ 0xDFFF < n ∧ n < 0x110000

theorem isCodePoint_toNat (c : Char) : IsCodePoint c.toNat :=
  c.valid

theorem toNat_ofNat {n : Nat} (h : IsCodePoint n) : (Char.ofNat n).toNat = n := by
  have hvalid : n.isValidChar := h
  rw [Char.ofNat, dif_pos hvalid]
  rfl

/-! ## Continuation bytes -/

def continued (code : Nat) (bytes : List Nat) : Nat :=
  bytes.foldl (fun code b => code * 0x40 + b % 0x40) code

theorem takeContinuation_append {bytes : List Nat} (h : ∀ b ∈ bytes, isContinuation b = true)
    (code taken : Nat) (rest : List Nat) :
    takeContinuation bytes.length code taken (bytes ++ rest) =
      (continued code bytes, taken + bytes.length, true) := by
  induction bytes generalizing code taken with
  | nil => rfl
  | cons b bytes ih =>
    have hb : isContinuation b = true := h b List.mem_cons_self
    simp only [List.length_cons, List.cons_append, takeContinuation, hb, ↓reduceIte]
    rw [ih fun x hx => h x (List.mem_cons_of_mem b hx)]
    simp only [continued, List.foldl_cons, Nat.add_assoc, Nat.add_comm 1]

/-- If all that is needed was taken, it is the beginning of the bytes. -/
theorem exists_of_takeContinuation {needed code taken final total : Nat} {rest : List Nat}
    (h : takeContinuation needed code taken rest = (final, total, true))
    (hle : taken + needed ≤ total) :
    ∃ bytes after, rest = bytes ++ after ∧ bytes.length = needed ∧
      (∀ b ∈ bytes, isContinuation b = true) ∧ final = continued code bytes ∧
      total = taken + needed := by
  induction needed generalizing code taken rest with
  | zero =>
    cases h
    exact ⟨[], rest, rfl, rfl, by simp, rfl, rfl⟩
  | succ needed ih =>
    cases rest with
    | nil =>
      cases h
      omega
    | cons b rest =>
      simp only [takeContinuation] at h
      split at h
      next hb =>
        obtain ⟨bytes, after, rfl, hlength, hbytes, hfinal, htotal⟩ := ih h (by omega)
        refine ⟨b :: bytes, after, rfl, by simp [hlength], ?_, hfinal, by omega⟩
        simpa using ⟨hb, hbytes⟩
      · cases h

/-! ## One character -/

theorem utf8Step_eq {b second count low high : Nat} {rest : List Nat}
    (hshape : utf8Shape? b = some (count + 1, low, high)) :
    utf8Step b (second :: rest) =
      if second < low || high < second then .error (.invalidContinuation, 0)
      else
        let (code, taken, fine) :=
          takeContinuation (count + 1) (utf8Lead (count + 1) b) 0 (second :: rest)
        if !fine then .error (.invalidContinuation, taken)
        else if taken < count + 1 then .error (.unexpectedEnd, taken)
        else .ok (Char.ofNat code, taken) := by
  simp only [utf8Step, hshape]

theorem utf8Step_append {b count low high : Nat} {bytes : List Nat}
    (hshape : utf8Shape? b = some (count + 1, low, high)) (hlength : bytes.length = count + 1)
    (hbytes : ∀ x ∈ bytes, isContinuation x = true)
    (hsecond : ∀ x ∈ bytes.head?, low ≤ x ∧ x ≤ high) (rest : List Nat) :
    utf8Step b (bytes ++ rest) =
      .ok (Char.ofNat (continued (utf8Lead (count + 1) b) bytes), count + 1) := by
  have htake := takeContinuation_append hbytes (utf8Lead (count + 1) b) 0 rest
  cases bytes with
  | nil => cases hlength
  | cons second bytes =>
    obtain ⟨hlow, hhigh⟩ := hsecond second rfl
    rw [hlength] at htake
    rw [List.cons_append] at htake ⊢
    have hinside : ¬ (second < low ∨ high < second) := by omega
    rw [utf8Step_eq hshape, htake]
    simp [hinside]

theorem exists_of_utf8Step {b count low high extra : Nat} {rest : List Nat} {c : Char}
    (hshape : utf8Shape? b = some (count + 1, low, high))
    (h : utf8Step b rest = .ok (c, extra)) :
    ∃ bytes after, rest = bytes ++ after ∧ bytes.length = count + 1 ∧ extra = count + 1 ∧
      (∀ x ∈ bytes, isContinuation x = true) ∧ (∀ x ∈ bytes.head?, low ≤ x ∧ x ≤ high) ∧
      c = Char.ofNat (continued (utf8Lead (count + 1) b) bytes) := by
  cases rest with
  | nil => simp [utf8Step, hshape] at h
  | cons second rest =>
    rw [utf8Step_eq hshape] at h
    split at h
    · cases h
    next hinside =>
      simp only [Bool.or_eq_true, decide_eq_true_eq] at hinside
      rcases htake : takeContinuation (count + 1) (utf8Lead (count + 1) b) 0 (second :: rest) with
        ⟨code, taken, fine⟩
      simp only [htake] at h
      split at h
      · cases h
      next hfine =>
        split at h
        · cases h
        next htaken =>
          obtain rfl : fine = true := by simpa using hfine
          cases h
          obtain ⟨bytes, after, hrest, hlength, hbytes, rfl, hextra⟩ :=
            exists_of_takeContinuation htake (by omega)
          refine ⟨bytes, after, hrest, hlength, by omega, hbytes, ?_, rfl⟩
          cases bytes with
          | nil => cases hlength
          | cons x bytes =>
            cases hrest
            rintro _ ⟨⟩
            omega

theorem utf8Shape?_cases {b count low high : Nat} (h : utf8Shape? b = some (count, low, high)) :
    (b < 0x80 ∧ count = 0) ∨
    (0xC2 ≤ b ∧ b < 0xE0 ∧ count = 1) ∨
    (0xE0 ≤ b ∧ b < 0xF0 ∧ count = 2 ∧ (b = 0xE0 → low = 0xA0) ∧ (b = 0xED → high = 0x9F)) ∨
    (0xF0 ≤ b ∧ b < 0xF5 ∧ count = 3 ∧ (b = 0xF0 → low = 0x90) ∧ (b = 0xF4 → high = 0x8F)) := by
  unfold utf8Shape? at h
  split at h
  · cases h
    omega
  split at h
  · cases h
  split at h
  · cases h
    omega
  split at h
  · cases h
    refine .inr (.inr (.inl ⟨by omega, by omega, rfl, ?_, ?_⟩)) <;> rintro rfl <;> rfl
  split at h
  · cases h
    refine .inr (.inr (.inr ⟨by omega, by omega, rfl, ?_, ?_⟩)) <;> rintro rfl <;> rfl
  · cases h

theorem isContinuation_iff {b : Nat} : isContinuation b = true ↔ 0x80 ≤ b ∧ b < 0xC0 := by
  simp [isContinuation]

theorem utf8Char_of_two {b x : Nat} (hb : 0xC2 ≤ b ∧ b < 0xE0) (hx : 0x80 ≤ x ∧ x < 0xC0) :
    utf8Char (Char.ofNat (b % 0x20 * 0x40 + x % 0x40)) = [b, x] := by
  have hcode : IsCodePoint (b % 0x20 * 0x40 + x % 0x40) := by
    unfold IsCodePoint
    omega
  simp only [utf8Char, toNat_ofNat hcode]
  rw [if_neg (by omega), if_pos (by omega)]
  simp only [List.cons.injEq, and_true]
  omega

theorem utf8Char_of_three {b x y : Nat} (hb : 0xE0 ≤ b ∧ b < 0xF0) (hx : 0x80 ≤ x ∧ x < 0xC0)
    (hy : 0x80 ≤ y ∧ y < 0xC0) (hlow : b = 0xE0 → 0xA0 ≤ x) (hhigh : b = 0xED → x ≤ 0x9F) :
    utf8Char (Char.ofNat ((b % 0x10 * 0x40 + x % 0x40) * 0x40 + y % 0x40)) = [b, x, y] := by
  have hcode : IsCodePoint ((b % 0x10 * 0x40 + x % 0x40) * 0x40 + y % 0x40) := by
    unfold IsCodePoint
    omega
  simp only [utf8Char, toNat_ofNat hcode]
  rw [if_neg (by omega), if_neg (by omega), if_pos (by omega)]
  simp only [List.cons.injEq, and_true]
  omega

theorem utf8Char_of_four {b x y z : Nat} (hb : 0xF0 ≤ b ∧ b < 0xF5) (hx : 0x80 ≤ x ∧ x < 0xC0)
    (hy : 0x80 ≤ y ∧ y < 0xC0) (hz : 0x80 ≤ z ∧ z < 0xC0) (hlow : b = 0xF0 → 0x90 ≤ x)
    (hhigh : b = 0xF4 → x ≤ 0x8F) :
    utf8Char (Char.ofNat (((b % 0x8 * 0x40 + x % 0x40) * 0x40 + y % 0x40) * 0x40 + z % 0x40)) =
      [b, x, y, z] := by
  have hcode :
      IsCodePoint (((b % 0x8 * 0x40 + x % 0x40) * 0x40 + y % 0x40) * 0x40 + z % 0x40) := by
    unfold IsCodePoint
    omega
  simp only [utf8Char, toNat_ofNat hcode]
  rw [if_neg (by omega), if_neg (by omega), if_neg (by omega)]
  simp only [List.cons.injEq, and_true]
  omega

theorem utf8Char_of_utf8Step {b extra : Nat} {rest : List Nat} {c : Char}
    (h : utf8Step b rest = .ok (c, extra)) :
    ∃ bytes after, rest = bytes ++ after ∧ bytes.length = extra ∧ utf8Char c = b :: bytes := by
  cases hshape : utf8Shape? b with
  | none => simp [utf8Step, hshape] at h
  | some shape =>
    obtain ⟨count, low, high⟩ := shape
    cases count with
    | zero =>
      simp only [utf8Step, hshape] at h
      cases h
      have hb : b < 0x80 := by
        have := utf8Shape?_cases hshape
        omega
      refine ⟨[], rest, rfl, rfl, ?_⟩
      simp only [utf8Char, toNat_ofNat (.inl (by omega) : IsCodePoint b), hb, ↓reduceIte]
    | succ count =>
      obtain ⟨bytes, after, hrest, hlength, rfl, hbytes, hsecond, rfl⟩ :=
        exists_of_utf8Step hshape h
      refine ⟨bytes, after, hrest, hlength, ?_⟩
      simp only [isContinuation_iff] at hbytes
      obtain ⟨_, hcount⟩ | ⟨hb, hb', hcount⟩ | ⟨hb, hb', hcount, hlow, hhigh⟩ |
        ⟨hb, hb', hcount, hlow, hhigh⟩ := utf8Shape?_cases hshape
      · cases hcount
      · cases hcount
        obtain ⟨x, rfl⟩ := List.length_eq_one_iff.1 hlength
        simp only [List.mem_singleton, forall_eq] at hbytes
        exact utf8Char_of_two ⟨hb, hb'⟩ hbytes
      · cases hcount
        obtain ⟨x, y, rfl⟩ := List.length_eq_two.1 hlength
        simp only [List.mem_cons, List.not_mem_nil, or_false, forall_eq_or_imp, forall_eq] at hbytes
        obtain ⟨hxlow, hxhigh⟩ := hsecond x rfl
        exact utf8Char_of_three ⟨hb, hb'⟩ hbytes.1 hbytes.2 (fun h => hlow h ▸ hxlow)
          (fun h => hhigh h ▸ hxhigh)
      · cases hcount
        obtain ⟨x, y, z, rfl⟩ := List.length_eq_three.1 hlength
        simp only [List.mem_cons, List.not_mem_nil, or_false, forall_eq_or_imp, forall_eq] at hbytes
        obtain ⟨hxlow, hxhigh⟩ := hsecond x rfl
        exact utf8Char_of_four ⟨hb, hb'⟩ hbytes.1 hbytes.2.1 hbytes.2.2 (fun h => hlow h ▸ hxlow)
          (fun h => hhigh h ▸ hxhigh)

theorem utf8Shape?_two {b : Nat} (h : 0xC2 ≤ b ∧ b < 0xE0) :
    utf8Shape? b = some (1, 0x80, 0xBF) := by
  unfold utf8Shape?
  rw [if_neg (by omega), if_neg (by omega), if_pos (by omega)]

theorem utf8Shape?_three {b : Nat} (h : 0xE0 ≤ b ∧ b < 0xF0) :
    utf8Shape? b =
      some (2, if b = 0xE0 then 0xA0 else 0x80, if b = 0xED then 0x9F else 0xBF) := by
  unfold utf8Shape?
  rw [if_neg (by omega), if_neg (by omega), if_neg (by omega), if_pos (by omega)]

theorem utf8Shape?_four {b : Nat} (h : 0xF0 ≤ b ∧ b < 0xF5) :
    utf8Shape? b =
      some (3, if b = 0xF0 then 0x90 else 0x80, if b = 0xF4 then 0x8F else 0xBF) := by
  unfold utf8Shape?
  rw [if_neg (by omega), if_neg (by omega), if_neg (by omega), if_neg (by omega),
    if_pos (by omega)]

/-- The bytes of a character are read as that character, whatever follows them. -/
theorem exists_utf8Char (c : Char) :
    ∃ b bytes, utf8Char c = b :: bytes ∧
      ∀ rest, utf8Step b (bytes ++ rest) = .ok (c, bytes.length) := by
  have hc := isCodePoint_toNat c
  unfold IsCodePoint at hc
  generalize hn : c.toNat = n at hc
  have hofNat : Char.ofNat n = c := hn ▸ c.ofNat_toNat
  simp only [utf8Char, hn]
  split
  next hlt =>
    refine ⟨n, [], rfl, fun rest => ?_⟩
    simp [utf8Step, utf8Shape?, hlt, hofNat]
  split
  next hlt =>
    have hcode : continued (utf8Lead 1 (0xC0 + n / 0x40)) [0x80 + n % 0x40] = n := by
      change (0xC0 + n / 0x40) % 0x20 * 0x40 + (0x80 + n % 0x40) % 0x40 = n
      omega
    refine ⟨_, _, rfl, fun rest => ?_⟩
    rw [utf8Step_append (utf8Shape?_two (by omega)) rfl, hcode, hofNat]
    · rfl
    · simp only [List.mem_singleton, forall_eq, isContinuation_iff]
      omega
    · simp only [List.head?_cons, Option.mem_some_iff, forall_eq']
      omega
  split
  next hlt =>
    have hcode : continued (utf8Lead 2 (0xE0 + n / 0x1000))
        [0x80 + n / 0x40 % 0x40, 0x80 + n % 0x40] = n := by
      change ((0xE0 + n / 0x1000) % 0x10 * 0x40 + (0x80 + n / 0x40 % 0x40) % 0x40) * 0x40 +
        (0x80 + n % 0x40) % 0x40 = n
      omega
    refine ⟨_, _, rfl, fun rest => ?_⟩
    rw [utf8Step_append (utf8Shape?_three (by omega)) rfl, hcode, hofNat]
    · rfl
    · simp only [List.mem_cons, List.not_mem_nil, or_false, forall_eq_or_imp, forall_eq,
        isContinuation_iff]
      omega
    · simp only [List.head?_cons, Option.mem_some_iff, forall_eq']
      constructor <;> split <;> omega
  next hge =>
    have hcode : continued (utf8Lead 3 (0xF0 + n / 0x40000))
        [0x80 + n / 0x1000 % 0x40, 0x80 + n / 0x40 % 0x40, 0x80 + n % 0x40] = n := by
      change (((0xF0 + n / 0x40000) % 0x8 * 0x40 + (0x80 + n / 0x1000 % 0x40) % 0x40) * 0x40 +
        (0x80 + n / 0x40 % 0x40) % 0x40) * 0x40 + (0x80 + n % 0x40) % 0x40 = n
      omega
    refine ⟨_, _, rfl, fun rest => ?_⟩
    rw [utf8Step_append (utf8Shape?_four (by omega)) rfl, hcode, hofNat]
    · rfl
    · simp only [List.mem_cons, List.not_mem_nil, or_false, forall_eq_or_imp, forall_eq,
        isContinuation_iff]
      omega
    · simp only [List.head?_cons, Option.mem_some_iff, forall_eq']
      constructor <;> split <;> omega

/-! ## Whole texts -/

@[simp] theorem utf8_nil : utf8 [] = [] := rfl

@[simp] theorem utf8_cons (c : Char) (cs : List Char) : utf8 (c :: cs) = utf8Char c ++ utf8 cs :=
  List.flatMap_cons

theorem decodeFrom_utf8 (position : Nat) (done cs : List Char) :
    decodeFrom position done (utf8 cs) = .ok (done.reverse ++ cs) := by
  induction cs generalizing position done with
  | nil => simp [decodeFrom]
  | cons c cs ih =>
    obtain ⟨b, bytes, hc, hstep⟩ := exists_utf8Char c
    rw [utf8_cons, hc, List.cons_append, decodeFrom, hstep]
    simp only [List.drop_left]
    rw [ih]
    simp

/-- What is read is what was read before and a text with the bytes that were left. -/
theorem exists_of_decodeFrom {position : Nat} {done cs : List Char} {bytes : List Nat}
    (h : decodeFrom position done bytes = .ok cs) :
    ∃ more, cs = done.reverse ++ more ∧ utf8 more = bytes := by
  fun_induction decodeFrom position done bytes with
  | case1 position done =>
    cases h
    exact ⟨[], by simp, rfl⟩
  | case2 position done b rest c extra hstep ih =>
    obtain ⟨bytes, after, rfl, rfl, hc⟩ := utf8Char_of_utf8Step hstep
    obtain ⟨more, rfl, hmore⟩ := ih h
    rw [List.drop_left] at hmore
    exact ⟨c :: more, by simp, by simp [hc, hmore]⟩
  | case3 position done b rest reason extra hstep => cases h

/-- Bytes are read as a text exactly when they are its bytes. -/
theorem decodeUtf8_eq_ok_iff {bytes : List Nat} {cs : List Char} :
    decodeUtf8 bytes = .ok cs ↔ bytes = utf8 cs := by
  constructor
  · intro h
    obtain ⟨more, rfl, hmore⟩ := exists_of_decodeFrom h
    exact hmore.symm
  · rintro rfl
    exact decodeFrom_utf8 0 [] cs

/-- Bytes that can be read need no replacements. -/
theorem decodeReplacing_of_decodeFrom {position : Nat} {done cs : List Char} {bytes : List Nat}
    (h : decodeFrom position done bytes = .ok cs) : decodeReplacing done bytes = cs := by
  fun_induction decodeFrom position done bytes with
  | case1 position done =>
    cases h
    rw [decodeReplacing]
  | case2 position done b rest c extra hstep ih =>
    rw [decodeReplacing, hstep]
    exact ih h
  | case3 position done b rest reason extra hstep => cases h

theorem decodeReplacing_utf8 (cs : List Char) : decodeReplacing [] (utf8 cs) = cs :=
  decodeReplacing_of_decodeFrom (decodeFrom_utf8 0 [] cs)

theorem decodeReplacing_eq_append (done : List Char) (bytes : List Nat) :
    decodeReplacing done bytes = done.reverse ++ decodeReplacing [] bytes := by
  induction hlength : bytes.length using Nat.strongRecOn generalizing done bytes with
  | ind n ih =>
    cases bytes with
    | nil => simp [decodeReplacing]
    | cons b rest =>
      have hshort (extra : Nat) : (rest.drop extra).length < n := by
        simp only [List.length_drop, List.length_cons] at hlength ⊢
        omega
      rw [decodeReplacing, decodeReplacing]
      split
      all_goals rw [ih _ (hshort _) _ _ rfl, ih _ (hshort _) [_] _ rfl]; simp

/-- Each run of bytes leaves a character, be it only a replacement. -/
theorem decodeReplacing_eq_nil_iff {bytes : List Nat} :
    decodeReplacing [] bytes = [] ↔ bytes = [] := by
  cases bytes with
  | nil => simp [decodeReplacing]
  | cons b rest =>
    rw [decodeReplacing]
    split
    all_goals rw [decodeReplacing_eq_append]; simp

theorem lt_of_mem_utf8Char {c : Char} {b : Nat} (h : b ∈ utf8Char c) : b < 256 := by
  have hc := isCodePoint_toNat c
  unfold IsCodePoint at hc
  simp only [utf8Char] at h
  split at h
  · simp only [List.mem_singleton] at h
    omega
  split at h
  · simp only [List.mem_cons, List.not_mem_nil, or_false] at h
    omega
  split at h
  · simp only [List.mem_cons, List.not_mem_nil, or_false] at h
    omega
  · simp only [List.mem_cons, List.not_mem_nil, or_false] at h
    omega

theorem lt_of_mem_utf8 {cs : List Char} {b : Nat} (h : b ∈ utf8 cs) : b < 256 := by
  obtain ⟨c, -, hb⟩ := List.mem_flatMap.1 h
  exact lt_of_mem_utf8Char hb

end Orus.Text
