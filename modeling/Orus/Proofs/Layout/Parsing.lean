import Orus.Proofs.Layout.Trees
import Orus.Proofs.Readings.Rules

/-! # Parsing does not depend on layout

Two token streams that agree on everything but places are read in parallel: every rule
either gives alike trees and leaves both cursors at alike tokens, or fails on both streams
for the same cause. The only cause with a place in it is a brace that is never closed.
-/

namespace Orus

theorem Token.bothPlaced (t t' : Token) : BothPlaced t.mark t'.mark :=
  ⟨t.position, t'.position, rfl, rfl⟩

inductive Cause.Alike : Cause → Cause → Prop where
  | same (cause : Cause) : Alike cause cause
  | unclosedBrace (p p' : Position) :
      Alike (.grammar (.unclosedBrace p)) (.grammar (.unclosedBrace p'))

inductive Failure.Alike : Failure → Failure → Prop where
  | error {cause cause' : Cause} {m m' : Option Mark} : cause.Alike cause' →
      Alike (.error ⟨cause, m⟩) (.error ⟨cause', m'⟩)
  | fault (fault : Fault) : Alike (.fault fault) (.fault fault)

theorem Failure.Alike.refl (f : Failure) : f.Alike f := by
  cases f with
  | error e => exact .error (.same _)
  | fault fault => exact .fault fault

namespace Syntax

structure Cursor.Alike (c c' : Cursor) : Prop where
  current : c.current.Alike c'.current
  rest : List.Forall₂ Token.Alike c.rest c'.rest

theorem Cursor.Alike.shift {c c' : Cursor} (h : c.Alike c') :
    (∃ d d', c.shift = .ok d ∧ c'.shift = .ok d' ∧ d.Alike d') ∨
      ∃ f f', c.shift = .error f ∧ c'.shift = .error f' ∧ f.Alike f' := by
  obtain ⟨current, rest⟩ := c
  obtain ⟨current', rest'⟩ := c'
  obtain ⟨_, hrest⟩ := h
  cases hrest with
  | nil => exact .inl ⟨_, _, rfl, rfl, ⟨rfl, rfl, rfl⟩, .nil⟩
  | @cons t t' rest rest' ht hrest =>
    by_cases hkind : t.kind = .error
    · apply Or.inr
      have hkind' : t'.kind = .error := ht.kind ▸ hkind
      simp only [Cursor.shift, if_pos hkind, if_pos hkind', ht.text, ht.value]
      exact ⟨_, _, rfl, rfl, .error (.same _)⟩
    · apply Or.inl
      have hkind' : t'.kind ≠ .error := ht.kind ▸ hkind
      simp only [Cursor.shift, if_neg hkind, if_neg hkind']
      exact ⟨_, _, rfl, rfl, ht, hrest⟩

/-! ## Strings -/

theorem alike_fields {m m' : Option Mark} (hm : BothPlaced m m') (fields : List Name)
    {target target' : Node} (h : target.Alike target') :
    (fields.foldl (fun target name => .field target name m) target).Alike
      (fields.foldl (fun target name => .field target name m') target') := by
  induction fields generalizing target target' with
  | nil => exact h
  | cons field fields ih => exact ih (.field h hm)

theorem alike_markerNode {m m' : Option Mark} (hm : BothPlaced m m') (names : List (List Char)) :
    (markerNode m names).Alike (markerNode m' names) := by
  unfold markerNode
  split
  · exact .raw _
  next first fields _ => exact alike_fields hm fields (.identifier first hm)

theorem alike_flush (text : List Char) {done done' : List Node}
    (h : List.Forall₂ Node.Alike done done') :
    List.Forall₂ Node.Alike (flush text done) (flush text done') := by
  unfold flush
  split
  · exact h
  · exact .cons (.raw _) h

theorem alike_segmentsFrom {m m' : Option Mark} (hm : BothPlaced m m') (text : List Char)
    {done done' : List Node} (cs : List Char) (h : List.Forall₂ Node.Alike done done') :
    List.Forall₂ Node.Alike (segmentsFrom m text done cs) (segmentsFrom m' text done' cs) := by
  fun_induction segmentsFrom m text done cs generalizing done' with
  | case1 text done hempty =>
    rw [segmentsFrom, if_pos (by rwa [← isEmpty_eq_of_forall₂ h])]
    exact .cons (.raw _) .nil
  | case2 text done hempty =>
    rw [segmentsFrom, if_neg (by rwa [← isEmpty_eq_of_forall₂ h])]
    exact List.rel_reverse (alike_flush text h)
  | case3 text done c rest ih =>
    rw [segmentsFrom]
    exact ih h
  | case4 text done c rest hnot names count hmarker ih =>
    rw [dite_eq_ite] at hmarker
    rw [segmentsFrom, hmarker]
    · exact ih (.cons (alike_markerNode hm names) (alike_flush text h))
    · exact hnot
  | case5 text done c rest hnot hmarker ih =>
    rw [dite_eq_ite] at hmarker
    rw [segmentsFrom, hmarker]
    · exact ih h
    · exact hnot

theorem alike_stringLiteral {m m' : Option Mark} (hm : BothPlaced m m') (body : String) :
    (stringLiteral body m).Alike (stringLiteral body m') :=
  .string (alike_segmentsFrom hm [] body.toList .nil) hm

/-! ## Readings of two layouts -/

/-- Token streams that differ only in places: all they give is alike. -/
def Comparison.layout : Comparison where
  tokens := Token.Alike
  marks := BothPlaced
  nodes := Node.Alike
  cursors := Cursor.Alike
  failures := Failure.Alike
  excused _ := False
  parting _ _ := False
  lost _ := False

open Comparison

theorem agree_advance_layout {c c' : Cursor} (h : c.Alike c') :
    layout.Agree Token.Alike (advance c) (advance c') := by
  change layout.Agree _ ((if c.current.kind = .eof then (_ : Parse Token) else _) c)
    ((if c'.current.kind = .eof then (_ : Parse Token) else _) c')
  rw [h.current.kind]
  split
  · exact .ok h.current h
  · obtain ⟨d, d', hd, hd', halike⟩ | ⟨f, f', hf, hf', halike⟩ := h.shift
    · rw [hd, hd']
      exact .ok h.current halike
    · rw [hf, hf']
      exact .error halike

theorem isCongruence_layout : layout.IsCongruence where
  absent := .raw _
  number x _ _ := .number x
  string body _ _ hm := alike_stringLiteral hm body
  nilLiteral := .nilLiteral
  identifier name _ _ := .identifier name
  array := .array
  range := .range
  call _ _ _ _ _ := .call
  index := .index
  field _ _ _ _ _ := .field
  unary _ _ _ _ _ := .unary
  binary _ _ _ _ _ _ _ := .binary
  assignment _ _ _ _ _ := .assignment
  letDecl _ _ _ _ _ _ := .letDecl
  printLine := .printLine
  ifElse := .ifElse
  forIn _ _ _ _ _ _ _ := .forIn
  whileLoop := .whileLoop
  breakLoop := .breakLoop
  continueLoop := .continueLoop
  returnWith := .returnWith
  expression := .expression
  block := .block
  fnDecl _ _ _ _ _ _ := .fnDecl
  program hf hg _ := .program hf hg
  identifier_cases h := by
    cases h with
    | identifier name hm => exact .inl ⟨_, _, _, rfl, rfl, hm⟩
    | _ => exact .inr ⟨nofun, nofun⟩
  assignment_cases h := by
    cases h with
    | assignment => exact .inl ⟨_, _, _, _, _, rfl, rfl⟩
    | _ => exact .inr ⟨nofun, nofun⟩
  isMain h := by cases h <;> rfl

theorem isLawful_layout : layout.IsLawful where
  toIsCongruence := isCongruence_layout
  current h := h.current
  alike h := h.readsAlike
  mark {t t'} _ := t.bothPlaced t'
  same := .refl
  failAt _ _ _ _ := .error (.same _)
  unclosed _ _ := .error (.unclosedBrace _ _)
  parting := nofun
  advance h _ := agree_advance_layout h
  lost := nofun
  excused _ := nofun

theorem follows_programRule_layout (depth : Nat) {c c' : Cursor} (h : c.Alike c') :
    layout.Follows Node.Alike (Grammar.programRule (.ofDepth depth))
      (Grammar.programRule (.ofDepth depth)) c c' := by
  have hdeclares (n : Nat) : layout.Declares (.ofDepth n) (.ofDepth n) :=
    ⟨fun _ => nofun, fun _ => nofun⟩
  have hg := grammars_ofDepth isLawful_layout 0 (.inl rfl) (fun n _ => hdeclares n) depth
  exact follows_programRule isLawful_layout hg h (hdeclares depth)

/-! ## Sources -/

inductive AgreeParsed : Except Failure Node → Except Failure Node → Prop where
  | ok {p p' : Node} : p.Alike p' → AgreeParsed (.ok p) (.ok p')
  | error {f f' : Failure} : f.Alike f' → AgreeParsed (.error f) (.error f')

theorem AgreeParsed.ok_of_ok {r r' : Except Failure Node} {p : Node} (h : AgreeParsed r r')
    (hp : r = .ok p) : ∃ p', r' = .ok p' ∧ p.Alike p' := by
  cases h with
  | ok halike =>
    cases hp
    exact ⟨_, rfl, halike⟩
  | error => cases hp

theorem agreeParsed_parseTokens (depth : Nat) {tokens tokens' : List Token}
    (h : List.Forall₂ Token.Alike tokens tokens') :
    AgreeParsed (parseTokens depth tokens) (parseTokens depth tokens') := by
  have hstart : Cursor.Alike ⟨.eofAt .start, tokens⟩ ⟨.eofAt .start, tokens'⟩ :=
    ⟨⟨rfl, rfl, rfl⟩, h⟩
  unfold parseTokens Cursor.start
  obtain ⟨d, d', hd, hd', halike⟩ | ⟨f, f', hf, hf', halike⟩ := hstart.shift
  · rw [hd, hd']
    have hrule := follows_programRule_layout depth halike
    unfold Follows at hrule
    change AgreeParsed (Grammar.programRule _ d >>= _) (Grammar.programRule _ d' >>= _)
    generalize Grammar.programRule (Grammar.ofDepth depth) d = r at hrule ⊢
    generalize Grammar.programRule (Grammar.ofDepth depth) d' = r' at hrule ⊢
    cases hrule with
    | ok hp _ => exact .ok hp
    | error hf => exact .error hf
    | excused _ hf => exact hf.elim
  · rw [hf, hf']
    exact .error halike

theorem agreeParsed_parse {source source' : String}
    (h : List.Forall₂ Token.Alike (Token.scan source) (Token.scan source')) :
    AgreeParsed (parse source) (parse source') := by
  have htokens := agreeParsed_parseTokens nestingLimit h
  unfold parse parseWithin
  generalize parseTokens nestingLimit (Token.scan source) = r at htokens ⊢
  generalize parseTokens nestingLimit (Token.scan source') = r' at htokens ⊢
  cases htokens with
  | ok hp => exact .ok hp
  | error hf =>
    cases hf with
    | error hcause => exact .error (.error hcause)
    | fault fault =>
      split
      · exact .error (.error (.same _))
      · exact .error (.fault fault)

end Syntax

end Orus
