import Orus.Proofs.Highlighting.Pieces
import Orus.Proofs.Scanning.Lexemes

/-! # Colours and tokens

The highlighter cuts a text on its own, but it cuts plain text without errors where the scanner
does. It takes each lexeme as one piece, in the class that goes with the kind of the token;
only blanks differ, which the scanner takes one by one and the highlighter all at once.
-/

namespace Orus.Editor

open Text Token

/-! ## Plain characters -/

def IsAscii (cs : List Char) : Prop :=
  ∀ c ∈ cs, c.toNat < 0x80

theorem isAscii_cons {c : Char} {cs : List Char} :
    IsAscii (c :: cs) ↔ c.toNat < 0x80 ∧ IsAscii cs :=
  List.forall_mem_cons

theorem isAscii_append {cs ds : List Char} : IsAscii (cs ++ ds) ↔ IsAscii cs ∧ IsAscii ds :=
  List.forall_mem_append

theorem IsAscii.drop {cs : List Char} (h : IsAscii cs) (n : Nat) : IsAscii (cs.drop n) :=
  fun c hc => h c (List.mem_of_mem_drop hc)

theorem isDigit_eq {c : Char} (hc : c.toNat < 0x80) : isDigit c = isAsciiDigit c :=
  of_toNat_lt (p := fun c => isDigit c = isAsciiDigit c) (by decide) hc

theorem isWordStart_eq {c : Char} (hc : c.toNat < 0x80) :
    isWordStart c = (isAsciiLetter c || c == '_') :=
  of_toNat_lt (p := fun c => isWordStart c = (isAsciiLetter c || c == '_')) (by decide) hc

theorem of_isBlank {c : Char} (hc : c.toNat < 0x80) (hblank : isBlank c = true) :
    isWordStart c = false ∧ isAsciiDigit c = false :=
  of_toNat_lt (p := fun c => isBlank c = true → isWordStart c = false ∧ isAsciiDigit c = false)
    (by decide) hc hblank

/-! ## Numbers -/

theorem digitRun_eq {cs : List Char} (h : IsAscii cs) : digitRun cs = digitCount cs := by
  induction cs with
  | nil => rfl
  | cons c cs ih =>
    obtain ⟨hc, hcs⟩ := isAscii_cons.1 h
    simp only [digitRun, digitCount, List.takeWhile_cons, isDigit_eq hc] at ih ⊢
    split
    · rw [List.length_cons, List.length_cons, ih hcs]
    · rfl

theorem fractionRun_eq {cs : List Char} (h : IsAscii cs) : fractionRun cs = fractionLength cs := by
  unfold fractionRun
  split
  next rest => rw [fractionLength, digitRun_eq (isAscii_cons.1 h).2]
  next hpoint => rw [fractionLength]; exact hpoint

theorem exponentRun_eq {cs : List Char} (h : IsAscii cs) : exponentRun cs = exponentLength cs := by
  cases cs with
  | nil => rfl
  | cons e rest =>
    simp only [exponentRun, exponentLength, digitRun_eq ((isAscii_cons.1 h).2.drop _)]

theorem numberRun_eq {cs : List Char} (h : IsAscii cs) : numberRun cs = numberExtra cs := by
  simp only [numberRun, numberExtra, digitRun_eq h, fractionRun_eq (h.drop _),
    exponentRun_eq (h.drop _)]

/-! ## Strings -/

/-- The highlighter closes a string where the scanner does if no line feed is escaped. -/
theorem stringExtra_append (count : Nat) {body : List Char} (h : IsStringBody body)
    (hlines : ¬ ['\\', '\n'] <:+: body) (after : List Char) :
    stringExtra count (body ++ '"' :: after) = count + body.length + 1 := by
  induction h generalizing count with
  | nil => rfl
  | @plain c body hquote hbackslash _ ih =>
    rw [List.cons_append, stringExtra, ih (count + 1), List.length_cons]
    · omega
    · exact fun hescape => hlines (List.infix_cons hescape)
    · exact hquote
    · rintro d rest rfl
      exact absurd rfl hbackslash
    · rintro rfl
      exact absurd rfl hbackslash
  | @escaped c body _ ih =>
    have hc : c ≠ '\n' := by
      rintro rfl
      exact hlines ⟨[], body, rfl⟩
    rw [List.cons_append, List.cons_append, stringExtra, if_neg hc, ih (count + 2)]
    · simp only [List.length_cons]
      omega
    · exact fun hescape => hlines (List.infix_cons (List.infix_cons hescape))

/-! ## Words -/

/-- The class that goes with the kind and the text of a token. Errors are not coloured as any
other kind, and the end has no text. -/
def tokenClass (kind : Kind) (text : String) : PieceClass :=
  match kind with
  | .keyword => .keyword
  | .number => .number
  | .string => .string
  | .op => .operator
  | .punct => .punctuation
  | .ident =>
    if text ∈ typeWords then .type
    else if text ∈ builtinWords then .builtin
    else .identifier
  | .eof | .error => .error

theorem tokenClass_ne (kind : Kind) (text : String) :
    tokenClass kind text ≠ .whitespace ∧ tokenClass kind text ≠ .comment := by
  cases kind with
  | ident =>
    rw [tokenClass]
    split
    · exact ⟨nofun, nofun⟩
    split
    · exact ⟨nofun, nofun⟩
    · exact ⟨nofun, nofun⟩
  | keyword | number | string | op | punct | eof | error => exact ⟨nofun, nofun⟩

/-- A word is coloured after its kind, since no word is listed for two classes. -/
theorem wordClass?_getD (word : String) : (wordClass? word).getD .identifier =
    tokenClass (if word ∈ keywords then .keyword else .ident) word := by
  have hbuiltins : ∀ word ∈ builtinWords, word ∉ keywords ∧ word ∉ typeWords := by decide
  by_cases hbuiltin : word ∈ builtinWords
  · obtain ⟨hkeyword, htype⟩ := hbuiltins word hbuiltin
    simp [wordClass?, tokenClass, hbuiltin, hkeyword, htype]
  by_cases hkeyword : word ∈ keywords
  · simp [wordClass?, tokenClass, hbuiltin, hkeyword]
  by_cases htype : word ∈ typeWords
  · simp [wordClass?, tokenClass, hbuiltin, hkeyword, htype]
  · simp [wordClass?, tokenClass, hbuiltin, hkeyword, htype]

theorem wordClass?_eq_none {c : Char} (hc : isWordStart c = false) (cs : List Char) :
    wordClass? (String.ofList (c :: cs)) = none := by
  have hstarts : ∀ word ∈ builtinWords ++ (keywords ++ typeWords),
      word.toList.head?.any isWordStart = true := by
    decide
  have hlisted : String.ofList (c :: cs) ∉ builtinWords ++ (keywords ++ typeWords) := by
    intro hmem
    have hstart := hstarts _ hmem
    rw [String.toList_ofList, List.head?_cons, Option.any_some, hc] at hstart
    cases hstart
  generalize String.ofList (c :: cs) = word at hlisted ⊢
  simp only [List.mem_append, not_or] at hlisted
  obtain ⟨hbuiltin, hkeyword, htype⟩ := hlisted
  simp [wordClass?, hbuiltin, hkeyword, htype]

/-! ## First characters -/

theorem pieceAt_word {c : Char} {cs after : List Char} (hascii : c.toNat < 0x80)
    (hstart : isWordStart c = true) (hcs : ∀ d ∈ cs, isWordChar d = true)
    (hafter : ∀ d ∈ after.head?, isWordChar d = false) :
    pieceAt c (cs ++ after) =
      ((wordClass? (String.ofList (c :: cs))).getD .identifier, cs.length) := by
  have hslash : c ≠ '/' := ne_of_apply_ne isWordStart (by rw [hstart]; decide)
  have hquote : c ≠ '"' := ne_of_apply_ne isWordStart (by rw [hstart]; decide)
  have hdigit : isDigit c = false := by
    rw [isDigit_eq hascii, Bool.eq_false_iff]
    intro hdigit
    rw [isWordStart_of_isAsciiDigit hdigit] at hstart
    cases hstart
  have hword : isWordChar c = true := by
    rw [isWordStart, Bool.or_eq_true] at hstart
    rcases hstart with h | h <;> simp [isWordChar, h]
  rw [isWordStart_eq hascii] at hstart
  have hcomment (d : Char) : (c == '/' && (cs ++ after).head? == some d) = false := by
    simp [hslash]
  simp only [pieceAt, hcomment, beq_eq_false_iff_ne.2 hquote, hdigit, hword, hstart, if_true,
    Bool.false_eq_true, if_false, takeWhile_append_stop hcs hafter, List.take_left]
  cases wordClass? (String.ofList (c :: cs)) with
  | none => rfl
  | some kind => rfl

/-- What starts no comment, string, number or word is a blank, an operator or a mark. -/
theorem pieceAt_char {c : Char} {rest : List Char} (hascii : c.toNat < 0x80)
    (hword : isWordStart c = false) (hdigit : isAsciiDigit c = false) (hquote : c ≠ '"')
    (hrest : ∀ d ∈ rest.head?, [c, d] ≠ ['/', '/'] ∧ [c, d] ≠ ['/', '*']) :
    pieceAt c rest = if isBlank c then (.whitespace, (rest.takeWhile isBlank).length)
      else (operatorExtra? c rest).elim
        (if c ∈ punctuation then (.punctuation, 0) else (.error, 0)) fun extra =>
          (.operator, extra) := by
  have hcomment (d : Char) (hd : d = '/' ∨ d = '*') :
      (c == '/' && rest.head? == some d) = false := by
    rw [Bool.eq_false_iff, Ne, Bool.and_eq_true, beq_iff_eq, beq_iff_eq]
    rintro ⟨rfl, hhead⟩
    rcases hd with rfl | rfl
    · exact (hrest _ hhead).1 rfl
    · exact (hrest _ hhead).2 rfl
  have hletter : (isAsciiLetter c || c == '_') = false := by
    rw [← isWordStart_eq hascii, hword]
  simp only [pieceAt, hcomment '/' (.inl rfl), hcomment '*' (.inr rfl),
    beq_eq_false_iff_ne.2 hquote, isDigit_eq hascii, hdigit, wordClass?_eq_none hword, hletter,
    Bool.false_eq_true, if_false, List.contains_eq_mem, decide_eq_true_eq]
  cases operatorExtra? c rest with
  | none => rfl
  | some extra => rfl

theorem of_mem_pairOperators {c d : Char} (h : [c, d] ∈ pairOperators) :
    isBlank c = false ∧ isWordStart c = false ∧ isAsciiDigit c = false ∧ c ≠ '"' ∧ c ≠ '/' := by
  have hall : pairOperators.all (fun pair => pair.head?.all fun c =>
      !isBlank c && !isWordStart c && !isAsciiDigit c && c != '"' && c != '/') = true := by
    decide
  simpa [and_assoc] using List.all_eq_true.1 hall [c, d] h

/-- Whether a character and the one after it are an operator. -/
def startsPair (c : Char) (rest : List Char) : Bool :=
  rest.head?.any fun d => pairOperators.contains [c, d]

theorem startsPair_eq_true_iff {c : Char} {rest : List Char} :
    startsPair c rest = true ↔ ∃ d ∈ rest.head?, [c, d] ∈ pairOperators := by
  simp [startsPair, Option.any_eq_true]

theorem operatorExtra?_eq (c : Char) (rest : List Char) : operatorExtra? c rest =
    if startsPair c rest then some 1 else if c ∈ singleOperators then some 0 else none := by
  cases rest with
  | nil =>
    simp only [operatorExtra?, startsPair, singleOperators, List.head?_nil, List.contains_eq_mem,
      List.mem_cons, List.not_mem_nil, Option.any_none]
    grind
  | cons d rest =>
    simp only [operatorExtra?, startsPair, pairOperators, singleOperators, List.head?_cons,
      List.contains_eq_mem, List.mem_cons, List.not_mem_nil, Option.some_beq_some, Option.any_some,
      List.cons.injEq, and_true, or_false]
    grind

/-! ## Lexemes -/

theorem pieceAt_lineComment (rest : List Char) : pieceAt '/' ('/' :: rest) =
    (.comment, (('/' :: rest).takeWhile (· != '\n')).length) := rfl

theorem pieceAt_blockComment (rest : List Char) : pieceAt '/' ('*' :: rest) =
    (.comment, (closeComment 1 rest).getD (rest.length + 1)) := rfl

theorem pieceAt_string (rest : List Char) : pieceAt '"' rest = (.string, stringExtra 0 rest) := by
  simp [pieceAt]

theorem pieceAt_number {c : Char} (h : isAsciiDigit c = true) (rest : List Char) :
    pieceAt c rest = (.number, numberRun rest) := by
  have hslash : c ≠ '/' := ne_of_apply_ne isAsciiDigit (by rw [h]; decide)
  have hquote : c ≠ '"' := ne_of_apply_ne isAsciiDigit (by rw [h]; decide)
  have hdigit : isDigit c = true := by
    have hc := toNat_of_isAsciiDigit h
    rw [isDigit_eq (by omega), h]
  simp [pieceAt, hslash, hquote, hdigit]

/-- A token of plain text is a piece of the class that goes with it. -/
theorem pieceAt_of_isLexeme {c : Char} {cs after : List Char} {kind : Kind}
    {value : Option String} (h : IsLexeme (c :: cs) after (some kind) value)
    (hascii : IsAscii (c :: (cs ++ after))) (herror : kind ≠ .error)
    (hlines : kind = .string → ¬ ['\\', '\n'] <:+: c :: cs) :
    pieceAt c (cs ++ after) = (tokenClass kind (String.ofList (c :: cs)), cs.length) := by
  obtain ⟨hc, hrest⟩ := isAscii_cons.1 hascii
  generalize hfound : some kind = found at h
  cases h with
  | blank | lineComment | blockComment => cases hfound
  | openComment | openString | stray => exact absurd (Option.some.inj hfound) herror
  | word _ hstart hcs hafter =>
    cases hfound
    rw [pieceAt_word hc hstart hcs hafter, wordClass?_getD]
  | number hdigit h =>
    cases hfound
    rw [pieceAt_number hdigit, numberRun_eq hrest, List.append_assoc, List.append_assoc,
      h.numberExtra_eq]
    simp [tokenClass, Nat.add_assoc]
  | @string body _ hbody =>
    cases hfound
    have hinside : ¬ ['\\', '\n'] <:+: body := fun hescape =>
      hlines rfl (List.infix_cons (hescape.trans (List.prefix_append body ['"']).isInfix))
    rw [List.append_assoc, pieceAt_string]
    change (_, stringExtra 0 (body ++ '"' :: after)) = _
    rw [stringExtra_append 0 hbody hinside]
    simp [tokenClass]
  | @pair _ d _ hpair =>
    cases hfound
    obtain ⟨hblank, hword, hdigit, hquote, hslash⟩ := of_mem_pairOperators hpair
    have hfirst : startsPair c (d :: after) = true := startsPair_eq_true_iff.2 ⟨d, rfl, hpair⟩
    rw [List.singleton_append, pieceAt_char hc hword hdigit hquote fun d _ => by simp [hslash],
      hblank, operatorExtra?_eq, if_pos hfirst]
    rfl
  | single hsingle hafter =>
    cases hfound
    obtain ⟨hblank, hword, hdigit, hquote⟩ := of_mem_singleOperators hsingle
    have hpair : ¬ startsPair c after = true := by
      rw [startsPair_eq_true_iff]
      rintro ⟨d, hd, hpair⟩
      exact (hafter d hd).1 hpair
    rw [List.nil_append, pieceAt_char hc hword hdigit hquote fun d hd => (hafter d hd).2, hblank,
      operatorExtra?_eq, if_neg hpair, if_pos hsingle]
    rfl
  | mark hmark =>
    cases hfound
    obtain ⟨hblank, hword, hdigit, hquote, hsingle, hpairs⟩ := of_mem_punctuation hmark
    have hslash : c ≠ '/' := ne_of_mem_of_not_mem hmark (by decide)
    have hpair : ¬ startsPair c after = true := by
      rw [startsPair_eq_true_iff]
      rintro ⟨d, -, hpair⟩
      exact hpairs _ hpair rfl
    rw [List.nil_append, pieceAt_char hc hword hdigit hquote fun d _ => by simp [hslash], hblank,
      operatorExtra?_eq, if_neg hpair, if_neg hsingle, if_neg Bool.false_ne_true, Option.elim_none,
      if_pos hmark]
    rfl

/-! ## Gaps -/

/-- Pieces that are neither blank nor a comment. -/
def Piece.isCode (p : Piece) : Bool :=
  p.kind != .whitespace && p.kind != .comment

def codePieces (cs : List Char) : List Piece :=
  (pieces cs).filter Piece.isCode

theorem codePieces_comment {c : Char} {cs after : List Char}
    (h : pieceAt c (cs ++ after) = (.comment, cs.length)) :
    codePieces (c :: (cs ++ after)) = codePieces after := by
  rw [codePieces, pieces_append h]
  rfl

theorem codePieces_blanks {c : Char} {cs after : List Char} (hc : c.toNat < 0x80)
    (hblank : isBlank c = true) (hcs : ∀ d ∈ cs, isBlank d = true)
    (hafter : ∀ d ∈ after.head?, isBlank d = false) :
    codePieces (c :: (cs ++ after)) = codePieces after := by
  obtain ⟨hword, hdigit⟩ := of_isBlank hc hblank
  have hslash : c ≠ '/' := ne_of_apply_ne isBlank (by rw [hblank]; decide)
  have hquote : c ≠ '"' := ne_of_apply_ne isBlank (by rw [hblank]; decide)
  have hpiece : pieceAt c (cs ++ after) = (.whitespace, cs.length) := by
    rw [pieceAt_char hc hword hdigit hquote fun d _ => by simp [hslash], if_pos hblank,
      takeWhile_append_stop hcs hafter]
  rw [codePieces, pieces_append hpiece]
  rfl

/-- A blank more does not matter, since it is part of a longer run of blanks or a piece. -/
theorem codePieces_blank {c : Char} {rest : List Char} (h : IsAscii (c :: rest))
    (hblank : isBlank c = true) : codePieces (c :: rest) = codePieces rest := by
  obtain ⟨hc, hrest⟩ := isAscii_cons.1 h
  obtain ⟨before, after, rfl, hbefore, hafter⟩ := exists_stop isBlank rest
  rw [codePieces_blanks hc hblank hbefore hafter]
  cases before with
  | nil => rfl
  | cons d before =>
    rw [List.forall_mem_cons] at hbefore
    exact (codePieces_blanks (isAscii_cons.1 hrest).1 hbefore.1 hbefore.2 hafter).symm

theorem codePieces_gap {text after : List Char} {value : Option String}
    (h : IsLexeme text after none value) (hascii : IsAscii (text ++ after)) :
    codePieces (text ++ after) = codePieces after := by
  generalize hfound : (none : Option Kind) = found at h
  cases h with
  | blank hblank => exact codePieces_blank hascii hblank
  | @lineComment body _ hbody hafter =>
    have htake : (('/' :: body) ++ after).takeWhile (· != '\n') = '/' :: body := by
      refine takeWhile_append_stop (fun c hc => ?_) (by simpa using hafter)
      rw [bne_iff_ne]
      rintro rfl
      exact (List.mem_cons.1 hc).elim (by decide) hbody
    refine codePieces_comment ?_
    rw [List.cons_append, pieceAt_lineComment, ← List.cons_append, htake]
  | @blockComment body _ hopen =>
    refine codePieces_comment ?_
    rw [List.cons_append, pieceAt_blockComment, List.append_assoc]
    change (_, (closeComment 1 (body ++ '*' :: '/' :: after)).getD _) = _
    rw [closeComment_append 1 hopen]
    simp only [Option.getD_some, List.length_cons, List.length_append, List.length_nil,
      Prod.mk.injEq, true_and]
    omega
  | openComment | word | number | string | openString | pair | single | mark | stray => cases hfound

/-! ## Whole texts -/

def tokenPiece (t : Token) : Piece :=
  ⟨tokenClass t.kind t.text, t.text⟩

theorem codePieces_token {c : Char} {cs after : List Char} {kind : Kind}
    (h : pieceAt c (cs ++ after) = (tokenClass kind (String.ofList (c :: cs)), cs.length)) :
    codePieces (c :: (cs ++ after)) =
      ⟨tokenClass kind (String.ofList (c :: cs)), String.ofList (c :: cs)⟩ :: codePieces after := by
  rw [codePieces, pieces_append h, List.filter_cons_of_pos]
  · rfl
  · simp [Piece.isCode, tokenClass_ne]

theorem codePieces_of_isCut {p : Position} {cs : List Char} {ts : List Token} (h : IsCut p cs ts)
    (hascii : IsAscii cs) (herror : ∀ t ∈ ts, t.kind ≠ .error)
    (hlines : ∀ t ∈ ts, t.kind = .string → ¬ ['\\', '\n'] <:+: t.text.toList) :
    codePieces cs = (ts.filter (·.kind ≠ .eof)).map tokenPiece := by
  induction h with
  | done p => simp [codePieces, eofAt]
  | gap h _ ih => rw [codePieces_gap h hascii, ih (isAscii_append.1 hascii).2 herror hlines]
  | @token p text after kind value ts h _ ih =>
    rw [List.forall_mem_cons] at herror hlines
    obtain ⟨c, cs, rfl⟩ := h.exists_cons
    have heof : kind ≠ .eof := fun hkind => h.kind_ne_eof (congrArg some hkind)
    have hlist : (String.ofList (c :: cs)).toList = c :: cs := String.toList_ofList
    have hpiece := pieceAt_of_isLexeme h hascii herror.1 (hlist ▸ hlines.1)
    rw [List.cons_append, codePieces_token hpiece, ih (isAscii_append.1 hascii).2 herror.2 hlines.2,
      List.filter_cons_of_pos (by simpa using heof)]
    rfl

/-- In plain text without errors, and without an escaped line feed in a string, the highlighter
finds the tokens of the scanner besides blanks and comments, each in the class of its kind. -/
theorem highlight_eq_tokens {source : String} (hascii : ∀ c ∈ source.toList, c.toNat < 0x80)
    (herror : ∀ t ∈ scan source, t.kind ≠ .error)
    (hlines : ∀ t ∈ scan source, t.kind = .string → ¬ ['\\', '\n'] <:+: t.text.toList) :
    (highlight source).filter Piece.isCode =
      ((scan source).filter (·.kind ≠ .eof)).map tokenPiece :=
  codePieces_of_isCut (isCut_scan source) hascii herror hlines

/-- Tokens of every kind with comments between them. -/
def mixedSource : String :=
  "let xs: i64 = len(\"a\\\"//\\\\\") // mix\n/* 1 */-> 2.5e-3"

theorem highlight_eq_tokens_mixedSource :
    (∀ c ∈ mixedSource.toList, c.toNat < 0x80) ∧ (∀ t ∈ scan mixedSource, t.kind ≠ .error) ∧
      (∀ t ∈ scan mixedSource, t.kind = .string → ¬ ['\\', '\n'] <:+: t.text.toList) ∧
      (highlight mixedSource).filter Piece.isCode =
        ((scan mixedSource).filter (·.kind ≠ .eof)).map tokenPiece ∧
      ((scan mixedSource).filter (·.kind ≠ .eof)).map tokenPiece = [
        ⟨.keyword, "let"⟩, ⟨.identifier, "xs"⟩, ⟨.punctuation, ":"⟩, ⟨.type, "i64"⟩,
        ⟨.operator, "="⟩, ⟨.builtin, "len"⟩, ⟨.punctuation, "("⟩,
        ⟨.string, "\"a\\\"//\\\\\""⟩, ⟨.punctuation, ")"⟩, ⟨.operator, "->"⟩,
        ⟨.number, "2.5e-3"⟩] := by
  have hplain : mixedSource.toList.all (fun c => c.toNat < 0x80) = true := by decide +kernel
  have hascii : ∀ c ∈ mixedSource.toList, c.toNat < 0x80 := by simpa using hplain
  have herror : ∀ t ∈ scan mixedSource, t.kind ≠ .error := by decide +kernel
  have hlines : ∀ t ∈ scan mixedSource, t.kind = .string →
      ¬ ['\\', '\n'] <:+: t.text.toList := by
    decide +kernel
  exact ⟨hascii, herror, hlines, highlight_eq_tokens hascii herror hlines, by decide +kernel⟩

end Orus.Editor
