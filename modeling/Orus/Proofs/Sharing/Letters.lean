import Mathlib.Data.List.Forall2
import Orus.Share.Base64

/-! # Letters and the bytes they stand for

Bytes are written as six-bit numbers, one letter each, and read back from them. What the
strict reader accepts is letters in either spelling and then padding. The number of letters
is never one more than a multiple of four, and the bytes are written back as the same
letters, up to the bits of the last one that belong to no byte.
-/

namespace Orus.Share

/-! ## Single letters -/

/-- The letter that is written where either of two spellings is read. -/
def spelling (c : Char) : Char :=
  if c = '+' then '-' else if c = '/' then '_' else c

theorem sextet?_letter : ∀ n < 64, sextet? (letter n) = some n := by
  decide

theorem isAlphanum_letter :
    ∀ n < 64, (letter n).isAlphanum = true ∨ letter n = '-' ∨ letter n = '_' := by
  decide

theorem toNat_lt_of_sextet? {c : Char} {n : Nat} (h : sextet? c = some n) : c.toNat < 128 := by
  unfold sextet? at h
  split at h
  next hupper => exact Nat.lt_of_le_of_lt hupper.2 (by decide)
  split at h
  next hlower => exact Nat.lt_of_le_of_lt hlower.2 (by decide)
  split at h
  next hdigit => exact Nat.lt_of_le_of_lt hdigit.2 (by decide)
  split at h
  next hminus => obtain rfl | rfl := hminus <;> decide
  split at h
  next hline => obtain rfl | rfl := hline <;> decide
  · cases h

/-- The number of a letter is a six-bit number, and that of the letter in its own spelling. -/
theorem letter_of_sextet? {c : Char} {n : Nat} (h : sextet? c = some n) :
    n < 64 ∧ letter n = spelling c := by
  have hall : ∀ m < 128, ∀ n ∈ sextet? (Char.ofNat m),
      n < 64 ∧ letter n = spelling (Char.ofNat m) := by
    decide
  have hc := hall c.toNat (toNat_lt_of_sextet? h)
  rw [Char.ofNat_toNat] at hc
  exact hc n h

/-! ## Six-bit numbers of bytes -/

/-- The six-bit numbers of some bytes; bits that are missing are zero. -/
def splitBytes : List Nat → List Nat
  | [] => []
  | [a] => [a / 4, a % 4 * 16]
  | [a, b] => [a / 4, a % 4 * 16 + b / 16, b % 16 * 4]
  | a :: b :: c :: rest =>
    a / 4 :: (a % 4 * 16 + b / 16) :: (b % 16 * 4 + c / 64) :: c % 64 :: splitBytes rest

theorem encodeBytes_eq_map (bytes : List Nat) :
    encodeBytes bytes = (splitBytes bytes).map letter := by
  fun_induction splitBytes bytes with
  | case1 => rfl
  | case2 a => rfl
  | case3 a b => rfl
  | case4 a b c rest ih => simp [encodeBytes, ih]

theorem lt_of_mem_splitBytes {bytes : List Nat} (h : ∀ b ∈ bytes, b < 256) :
    ∀ n ∈ splitBytes bytes, n < 64 := by
  fun_induction splitBytes bytes with
  | case1 => simp
  | case2 a =>
    simp only [List.mem_cons, List.not_mem_nil, or_false, forall_eq_or_imp, forall_eq] at h ⊢
    omega
  | case3 a b =>
    simp only [List.mem_cons, List.not_mem_nil, or_false, forall_eq_or_imp, forall_eq] at h ⊢
    omega
  | case4 a b c rest ih =>
    simp only [List.forall_mem_cons] at h ⊢
    obtain ⟨ha, hb, hc, hrest⟩ := h
    exact ⟨by omega, by omega, by omega, by omega, ih hrest⟩

theorem length_splitBytes_mod (bytes : List Nat) : (splitBytes bytes).length % 4 ≠ 1 := by
  fun_induction splitBytes bytes with
  | case1 => simp
  | case2 a => simp
  | case3 a b => simp
  | case4 a b c rest ih =>
    simp only [List.length_cons]
    omega

theorem joinSextets_splitBytes {bytes : List Nat} (h : ∀ b ∈ bytes, b < 256) :
    joinSextets (splitBytes bytes) = bytes := by
  fun_induction splitBytes bytes with
  | case1 => rfl
  | case2 a =>
    simp only [List.mem_cons, List.not_mem_nil, or_false, forall_eq] at h
    simp only [joinSextets, List.cons.injEq, and_true]
    omega
  | case3 a b =>
    simp only [List.mem_cons, List.not_mem_nil, or_false, forall_eq_or_imp, forall_eq] at h
    simp only [joinSextets, List.cons.injEq, and_true]
    omega
  | case4 a b c rest ih =>
    simp only [List.forall_mem_cons] at h
    obtain ⟨ha, hb, hc, hrest⟩ := h
    simp only [joinSextets, List.cons.injEq]
    exact ⟨by omega, by omega, by omega, ih hrest⟩

/-! ## Bits that belong to no byte -/

/-- How many of the bits of so many six-bit numbers belong to no whole byte. -/
def spareBits (count : Nat) : Nat :=
  6 * count % 8

def clearBits (bits n : Nat) : Nat :=
  n / Nat.pow 2 bits * Nat.pow 2 bits

def clearLast (bits : Nat) (ns : List Nat) : List Nat :=
  ns.dropLast ++ (ns.getLast?.map (clearBits bits)).toList

theorem clearLast_zero (ns : List Nat) : clearLast 0 ns = ns := by
  rcases ns.eq_nil_or_concat with rfl | ⟨front, n, rfl⟩
  · rfl
  · simp [clearLast, clearBits]

theorem clearLast_append (bits : Nat) (ns : List Nat) {rest : List Nat} (h : rest ≠ []) :
    clearLast bits (ns ++ rest) = ns ++ clearLast bits rest := by
  rw [clearLast, clearLast, List.dropLast_append_of_ne_nil h, List.getLast?_append_of_ne_nil _ h,
    List.append_assoc]

/-- Without a group of two, three or four there is nothing, as there is no lone number. -/
theorem eq_nil_of_no_group {ns : List Nat} (hlength : ns.length % 4 ≠ 1)
    (hfour : ∀ a b c d rest, ns = a :: b :: c :: d :: rest → False)
    (hthree : ∀ a b c, ns = [a, b, c] → False) (htwo : ∀ a b, ns = [a, b] → False) : ns = [] :=
  match ns with
  | [] => rfl
  | [_] => absurd rfl hlength
  | [a, b] => (htwo a b rfl).elim
  | [a, b, c] => (hthree a b c rfl).elim
  | a :: b :: c :: d :: rest => (hfour a b c d rest rfl).elim

/-- Six-bit numbers that were read as bytes are written back, up to the bits that belong to
no byte. -/
theorem splitBytes_joinSextets {ns : List Nat} (h : ∀ n ∈ ns, n < 64)
    (hlength : ns.length % 4 ≠ 1) :
    splitBytes (joinSextets ns) = clearLast (spareBits ns.length) ns := by
  fun_induction joinSextets ns with
  | case1 a b c d rest ih =>
    simp only [List.forall_mem_cons] at h
    obtain ⟨ha, hb, hc, hd, hrest⟩ := h
    simp only [List.length_cons] at hlength
    have hspare : spareBits (a :: b :: c :: d :: rest).length = spareBits rest.length := by
      simp only [spareBits, List.length_cons]
      omega
    have hrest' : clearLast (spareBits rest.length) (a :: b :: c :: d :: rest) =
        a :: b :: c :: d :: clearLast (spareBits rest.length) rest := by
      cases rest with
      | nil => exact clearLast_zero _
      | cons e rest => exact clearLast_append _ [a, b, c, d] (by simp)
    rw [hspare, hrest', ← ih hrest (by omega)]
    simp only [splitBytes, List.cons.injEq, and_true]
    omega
  | case2 a b c =>
    simp only [List.forall_mem_cons] at h
    simp [splitBytes, clearLast, clearBits, spareBits]
    omega
  | case3 a b =>
    simp only [List.forall_mem_cons] at h
    simp [splitBytes, clearLast, clearBits, spareBits]
    omega
  | case4 ns hfour hthree htwo =>
    obtain rfl := eq_nil_of_no_group hlength hfour hthree htwo
    rfl

/-- The bits of six-bit numbers are those of the bytes they stand for and the spare ones. -/
theorem length_joinSextets {ns : List Nat} (hlength : ns.length % 4 ≠ 1) :
    8 * (joinSextets ns).length + spareBits ns.length = 6 * ns.length := by
  fun_induction joinSextets ns with
  | case1 a b c d rest ih =>
    simp only [List.length_cons, spareBits] at hlength ih ⊢
    have hrest := ih (by omega)
    omega
  | case2 a b c => simp [spareBits]
  | case3 a b => simp [spareBits]
  | case4 ns hfour hthree htwo =>
    obtain rfl := eq_nil_of_no_group hlength hfour hthree htwo
    rfl

/-! ## Reading letters -/

def AreLetters (cs : List Char) (ns : List Nat) : Prop :=
  List.Forall₂ (fun c n => sextet? c = some n) cs ns

theorem areLetters_map_letter {ns : List Nat} (h : ∀ n ∈ ns, n < 64) :
    AreLetters (ns.map letter) ns := by
  induction ns with
  | nil => exact .nil
  | cons n ns ih =>
    rw [List.forall_mem_cons] at h
    exact .cons (sextet?_letter n h.1) (ih h.2)

theorem AreLetters.map_letter {cs : List Char} {ns : List Nat} (h : AreLetters cs ns) :
    ns.map letter = cs.map spelling := by
  induction h with
  | nil => rfl
  | cons hc _ ih => rw [List.map_cons, List.map_cons, ih, (letter_of_sextet? hc).2]

theorem AreLetters.lt {cs : List Char} {ns : List Nat} (h : AreLetters cs ns) :
    ∀ n ∈ ns, n < 64 := by
  induction h with
  | nil => simp
  | cons hc _ ih => exact List.forall_mem_cons.2 ⟨(letter_of_sextet? hc).1, ih⟩

theorem AreLetters.exists_sextet? {cs : List Char} {ns : List Nat} (h : AreLetters cs ns) :
    ∀ c ∈ cs, ∃ n, sextet? c = some n := by
  induction h with
  | nil => simp
  | cons hc _ ih => exact List.forall_mem_cons.2 ⟨⟨_, hc⟩, ih⟩

theorem ne_pad_of_sextet? {c : Char} {n : Nat} (h : sextet? c = some n) : c ≠ '=' := by
  rintro rfl
  cases h

theorem readLetters_append {cs : List Char} {ns : List Nat} (h : AreLetters cs ns)
    (sextets : List Nat) (count : Nat) (rest : List Char) :
    readLetters ⟨sextets, count, 0, false⟩ (cs ++ rest) =
      readLetters ⟨ns.reverse ++ sextets, count + ns.length, 0, false⟩ rest := by
  induction h generalizing sextets count with
  | nil => rfl
  | @cons c n cs ns hc _ ih =>
    rw [List.cons_append, readLetters, if_neg (ne_pad_of_sextet? hc)]
    simp only [hc, Bool.false_eq_true, ↓reduceIte]
    rw [ih]
    simp [Nat.add_assoc, Nat.add_comm 1]

theorem readLetters_pads (sextets : List Nat) {count : Nat} (h : count % 4 ≠ 1) :
    ∃ t, readLetters ⟨sextets, count, 0, false⟩ (List.replicate ((4 - count % 4) % 4) '=') = .ok t ∧
      t.sextets = sextets := by
  have hlt : count % 4 < 4 := Nat.mod_lt _ (by decide)
  generalize hr : count % 4 = r at h hlt
  match r with
  | 0 => simp [readLetters, hr]
  | 1 => exact absurd rfl h
  | 2 => simp [readLetters, hr, List.replicate]
  | 3 => simp [readLetters, hr]

/-- After padding there is nothing but padding. -/
theorem pads_of_readLetters {s t : Base64State} {cs : List Char} (hs : s.padding = true)
    (h : readLetters s cs = .ok t) :
    (∀ c ∈ cs, c = '=') ∧ t.sextets = s.sextets ∧ s.count % 4 ≠ 1 := by
  fun_induction readLetters s cs with
  | case1 s hcount =>
    cases h
    exact ⟨by simp, rfl, by omega⟩
  | case2 s _ _ => cases h
  | case3 s _ _ => cases h
  | case4 s rest hcount _ hrest =>
    cases h
    rw [List.isEmpty_iff.1 hrest]
    exact ⟨by simp, rfl, by omega⟩
  | case5 => cases h
  | case6 s rest hcount hpads ih =>
    obtain ⟨hcs, hsextets, hmod⟩ := ih rfl h
    exact ⟨by simpa using hcs, hsextets, hmod⟩
  | case7 s rest hcount ih =>
    obtain ⟨hcs, hsextets, hmod⟩ := ih rfl h
    exact ⟨by simpa using hcs, hsextets, hmod⟩
  | case8 => cases h
  | case9 => cases h
  | case10 s c rest _ n _ hnot ih => exact absurd hs hnot

/-- What is read is letters, as many as can stand for bytes, and padding after them. -/
theorem exists_of_readLetters {s t : Base64State} {cs : List Char} (hs : s.padding = false)
    (h : readLetters s cs = .ok t) :
    ∃ letters ns pads, cs = letters ++ List.replicate pads '=' ∧ AreLetters letters ns ∧
      t.sextets = ns.reverse ++ s.sextets ∧ (s.count + ns.length) % 4 ≠ 1 := by
  have hpadded {s t : Base64State} {rest : List Char} (hrest : ∀ c ∈ rest, c = '=')
      (hsextets : t.sextets = s.sextets) (hcount : s.count % 4 ≠ 1) :
      ∃ letters ns pads, '=' :: rest = letters ++ List.replicate pads '=' ∧
        AreLetters letters ns ∧ t.sextets = ns.reverse ++ s.sextets ∧
        (s.count + ns.length) % 4 ≠ 1 := by
    refine ⟨[], [], rest.length + 1, ?_, .nil, hsextets, hcount⟩
    rw [List.nil_append, List.replicate_succ, ← List.eq_replicate_of_mem hrest]
  fun_induction readLetters s cs with
  | case1 s hcount =>
    cases h
    exact ⟨[], [], 0, rfl, .nil, rfl, by simp [hcount]⟩
  | case2 s _ _ => cases h
  | case3 s _ _ => cases h
  | case4 s rest hcount _ hrest =>
    cases h
    exact hpadded (by simp [List.isEmpty_iff.1 hrest]) rfl (by omega)
  | case5 => cases h
  | case6 s rest hcount hpads ih =>
    obtain ⟨hrest, hsextets, hmod⟩ := pads_of_readLetters rfl h
    exact hpadded hrest hsextets hmod
  | case7 s rest hcount ih =>
    obtain ⟨hrest, hsextets, hmod⟩ := pads_of_readLetters rfl h
    exact hpadded hrest hsextets hmod
  | case8 => cases h
  | case9 => cases h
  | case10 s c rest _ n hn _ ih =>
    obtain ⟨letters, ns, pads, rfl, hletters, hsextets, hcount⟩ := ih hs h
    refine ⟨c :: letters, n :: ns, pads, rfl, .cons hn hletters, by simp [hsextets], ?_⟩
    rwa [List.length_cons, Nat.add_comm ns.length, ← Nat.add_assoc]

/-! ## Reading bytes -/

theorem decodeLetters_of_areLetters {cs : List Char} {ns : List Nat} (h : AreLetters cs ns)
    (hlength : ns.length % 4 ≠ 1) :
    decodeLetters (cs ++ List.replicate ((4 - cs.length % 4) % 4) '=') = .ok (joinSextets ns) := by
  have hcount : cs.length = ns.length := h.length_eq
  obtain ⟨t, hpads, hsextets⟩ := readLetters_pads ns.reverse hlength
  have hread : readLetters {} (cs ++ List.replicate ((4 - cs.length % 4) % 4) '=') = .ok t := by
    have happend := readLetters_append h [] 0 (List.replicate ((4 - cs.length % 4) % 4) '=')
    rw [List.append_nil, Nat.zero_add] at happend
    rw [happend, hcount]
    exact hpads
  have hascii : (cs ++ List.replicate ((4 - cs.length % 4) % 4) '=').any
      (fun c => decide (0x80 ≤ c.toNat)) = false := by
    simp only [List.any_eq_false, List.mem_append, List.mem_replicate, decide_eq_true_eq,
      Nat.not_le]
    rintro c (hc | ⟨-, rfl⟩)
    · obtain ⟨n, hn⟩ := h.exists_sextet? c hc
      exact toNat_lt_of_sextet? hn
    · decide
  have hhead : (cs ++ List.replicate ((4 - cs.length % 4) % 4) '=').head? ≠ some '=' := by
    cases h with
    | nil => simp
    | cons hc _ => simpa using ne_pad_of_sextet? hc
  unfold decodeLetters
  rw [hascii, if_neg Bool.false_ne_true, if_neg hhead, hread]
  change Except.ok (joinSextets t.sextets.reverse) = _
  rw [hsextets, List.reverse_reverse]

/-- What is read as bytes is letters for these bytes and padding. -/
theorem exists_of_decodeLetters {cs : List Char} {bytes : List Nat}
    (h : decodeLetters cs = .ok bytes) :
    ∃ letters ns pads, cs = letters ++ List.replicate pads '=' ∧ AreLetters letters ns ∧
      ns.length % 4 ≠ 1 ∧ bytes = joinSextets ns := by
  unfold decodeLetters at h
  split at h
  · cases h
  split at h
  · cases h
  cases hread : readLetters {} cs with
  | error e =>
    rw [hread] at h
    cases h
  | ok t =>
    rw [hread] at h
    cases h
    obtain ⟨letters, ns, pads, hcs, hletters, hsextets, hlength⟩ := exists_of_readLetters rfl hread
    refine ⟨letters, ns, pads, hcs, hletters, by simpa using hlength, ?_⟩
    rw [hsextets]
    simp

end Orus.Share
