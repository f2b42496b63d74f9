import Orus.Proofs.Readings.Streams

/-! # The end of a stream

A stream is read up to its first token for the end of input. Nothing behind that token makes a
difference, nor does anything about it but its place. A stream without one is read as if it stood
at the place of the last token. So every stream is read as the one that has just the tokens
before the end and a plain token for the end itself.
-/

namespace Orus

/-- The token with nothing but its place if it stands for the end of input. -/
def Token.plain (t : Token) : Token :=
  if t.kind = .eof then .eofAt t.position else t

namespace Token

variable (t : Token)

theorem kind_plain : t.plain.kind = t.kind := by
  unfold plain
  split
  next h => exact h.symm
  · rfl

theorem position_plain : t.plain.position = t.position := by
  unfold plain
  split <;> rfl

theorem plain_of_ne_eof {t : Token} (h : t.kind ≠ .eof) : t.plain = t :=
  if_neg h

theorem readsAlike_plain : t.ReadsAlike t.plain where
  kind := t.kind_plain.symm
  alike h := by
    rw [plain_of_ne_eof h]
    exact .refl t

end Token

namespace Syntax

/-! ## What is read of a stream -/

/-- The tokens that are read of a stream, given the place of the token before them: those
before the end of input and a plain token for it. -/
def upToEnd (p : Position) : List Token → List Token
  | [] => [.eofAt p]
  | t :: ts => if t.kind = .eof then [t.plain] else t :: upToEnd t.position ts

theorem upToEnd_append {e : Token} (he : e.kind = .eof) (p : Position) (ts more : List Token) :
    upToEnd p (ts ++ e :: more) = upToEnd p (ts ++ [e]) := by
  induction ts generalizing p with
  | nil => simp only [List.nil_append, upToEnd, if_pos he]
  | cons t ts ih => simp only [List.cons_append, upToEnd, ih]

theorem upToEnd_concat {e : Token} (he : e.kind = .eof) {p : Position} {ts : List Token}
    (hplace : e.position = (ts.map Token.position).getLastD p) :
    upToEnd p (ts ++ [e]) = upToEnd p ts := by
  induction ts generalizing p with
  | nil =>
    obtain rfl : e.position = p := hplace
    simp only [List.nil_append, upToEnd, if_pos he, Token.plain]
  | cons t ts ih =>
    rw [List.map_cons, List.getLastD_cons] at hplace
    simp only [List.cons_append, upToEnd, ih hplace]

/-! ## Reading just that -/

structure IsUpToEnd (c c' : Cursor) : Prop where
  current : c'.current = c.current.plain
  rest : c.current.kind ≠ .eof → c'.rest = upToEnd c.current.position c.rest

theorem moveAlike_upToEnd {c c' : Cursor} (hrest : c'.rest = upToEnd c.current.position c.rest) :
    MoveAlike IsUpToEnd c c' := by
  obtain ⟨current, rest⟩ := c
  obtain ⟨current', _⟩ := c'
  obtain rfl := hrest
  cases rest with
  | nil => exact .inr ⟨_, _, rfl, rfl, rfl, fun h => absurd rfl h⟩
  | cons t ts =>
    by_cases heof : t.kind = .eof
    · have hplain : t.plain.kind ≠ .error := by
        rw [t.kind_plain, heof]
        exact nofun
      have herror : t.kind ≠ .error := by
        rw [heof]
        exact nofun
      simp only [MoveAlike, Cursor.shift, upToEnd, if_pos heof, if_neg hplain, if_neg herror]
      exact .inr ⟨_, _, rfl, rfl, rfl, fun h => absurd heof h⟩
    · simp only [MoveAlike, Cursor.shift, upToEnd, if_neg heof]
      by_cases herror : t.kind = .error
      · exact .inl ⟨_, if_pos herror, if_pos herror⟩
      · refine .inr ⟨_, _, if_neg herror, if_neg herror, ?_, fun _ => rfl⟩
        exact (Token.plain_of_ne_eof heof).symm

def Comparison.ending : Comparison :=
  { exact IsUpToEnd (fun _ => False) (fun _ _ => False) (fun _ => False) with
    tokens t t' := t' = t.plain }

open Comparison

theorem isCongruence_ending : ending.IsCongruence := by
  have hexact : (exact IsUpToEnd (fun _ => False) (fun _ _ => False)
    fun _ => False).IsCongruence := isCongruence_exact
  exact { hexact with
    program := by
      rintro fs fs' gs gs' last _ hfs hgs rfl
      rw [Token.position_plain]
      exact hexact.program hfs hgs rfl }

theorem agree_advance_ending {c c' : Cursor} (h : IsUpToEnd c c') :
    ending.Agree ending.tokens (advance c) (advance c') := by
  change ending.Agree ending.tokens ((if c.current.kind = .eof then (_ : Parse Token) else _) c)
    ((if c'.current.kind = .eof then (_ : Parse Token) else _) c')
  rw [h.current, Token.kind_plain]
  split
  · exact .ok rfl h
  next heof =>
    obtain ⟨f, hf, hf'⟩ | ⟨d, d', hd, hd', hmoved⟩ := moveAlike_upToEnd (h.rest heof)
    · rw [hf, hf']
      exact .error rfl
    · rw [hd, hd']
      exact .ok rfl hmoved

theorem isLawful_ending : ending.IsLawful where
  toIsCongruence := isCongruence_ending
  current h := h.current
  alike := by
    rintro t _ rfl
    exact t.readsAlike_plain
  mark := by
    rintro t _ rfl
    rw [Token.mark, Token.mark, t.position_plain]
    rfl
  same _ := rfl
  failAt := by
    rintro issue m _ rfl
    rfl
  unclosed := by
    rintro opened _ t _ rfl rfl
    rw [Token.mark, Token.mark, t.position_plain, opened.position_plain]
    rfl
  parting := nofun
  advance h _ := agree_advance_ending h
  lost := nofun
  excused _ := nofun

/-- A stream is read as the tokens up to its end. -/
theorem parseTokens_upToEnd (depth : Nat) (tokens : List Token) :
    parseTokens depth tokens = parseTokens depth (upToEnd .start tokens) := by
  obtain ⟨_, -, hf⟩ | heq := parseTokens_of_lawful isLawful_ending (fun _ _ h => h)
    (fun _ _ h => h) 0 (.inl rfl) (fun _ _ => ⟨fun _ => nofun, fun _ => nofun⟩) depth
    (moveAlike_upToEnd rfl)
  · exact hf.elim
  · exact heq

theorem parseTokens_congr {tokens tokens' : List Token} (depth : Nat)
    (h : upToEnd .start tokens = upToEnd .start tokens') :
    parseTokens depth tokens = parseTokens depth tokens' := by
  rw [parseTokens_upToEnd, h, ← parseTokens_upToEnd]

theorem upToEnd_of_getLast {e : Token} (he : e.kind = .eof) {tokens : List Token}
    (hne : tokens ≠ []) (hplace : e.position = (tokens.getLast hne).position) (p : Position) :
    upToEnd p (tokens ++ [e]) = upToEnd p tokens := by
  refine upToEnd_concat he ?_
  rw [hplace, List.getLastD_eq_getLast?, List.getLast?_map, List.getLast?_eq_some_getLast hne]
  rfl

/-- A token for the end of input may be left out. -/
theorem parseTokens_append_eof (depth : Nat) {tokens : List Token} (h : tokens ≠ []) :
    parseTokens depth (tokens ++ [.eofAt (tokens.getLast h).position]) =
      parseTokens depth tokens :=
  parseTokens_congr depth (upToEnd_of_getLast (e := .eofAt (tokens.getLast h).position)
    rfl h rfl _)

/-- The parser never reads past the first token for the end of input, whatever stands behind
it, and a stream that stops without one is read as if it had one at the place of its last
token. Nesting beyond the depth is met or not met alike. -/
theorem parseTokens_reads_up_to_eof (depth : Nat) (tokens more : List Token) {e : Token}
    (he : e.kind = .eof) :
    parseTokens depth (tokens ++ [e] ++ more) = parseTokens depth (tokens ++ [e]) ∧
      ∀ hne : tokens ≠ [], e.position = (tokens.getLast hne).position →
        parseTokens depth tokens = parseTokens depth (tokens ++ [e]) := by
  constructor
  · refine parseTokens_congr depth ?_
    rw [List.append_assoc]
    exact upToEnd_append he .start tokens more
  · intro hne hplace
    exact (parseTokens_congr depth (upToEnd_of_getLast he hne hplace _)).symm

/-- A program that stops in an open block. -/
def openTokens : List Token := [
  ⟨.keyword, "fn", ⟨1, 1, 0⟩, none⟩, ⟨.ident, "main", ⟨1, 4, 3⟩, none⟩,
  ⟨.punct, "(", ⟨1, 8, 7⟩, none⟩, ⟨.punct, ")", ⟨1, 9, 8⟩, none⟩,
  ⟨.punct, "\x7b", ⟨1, 11, 10⟩, none⟩]

/-- An end of input with the text that would close the block. -/
def bracedEof : Token :=
  ⟨.eof, "\x7d", ⟨1, 11, 10⟩, none⟩

theorem parseTokens_reads_up_to_bracedEof :
    bracedEof.kind = .eof ∧
    parseTokens 3 (openTokens ++ [bracedEof] ++ [⟨.error, "@", ⟨2, 1, 12⟩, none⟩]) =
      parseTokens 3 (openTokens ++ [bracedEof]) ∧
    bracedEof.position = (openTokens.getLast (by decide)).position ∧
    parseTokens 3 openTokens = parseTokens 3 (openTokens ++ [bracedEof]) ∧
    parseTokens 3 openTokens =
      .error (.error ⟨.grammar (.unclosedBrace ⟨1, 11, 10⟩), bracedEof.mark⟩) := by
  obtain ⟨hmore, hmissing⟩ := parseTokens_reads_up_to_eof 3 openTokens
    [⟨.error, "@", ⟨2, 1, 12⟩, none⟩] (e := bracedEof) rfl
  exact ⟨rfl, hmore, rfl, hmissing (by decide) rfl, rfl⟩

end Syntax

end Orus
