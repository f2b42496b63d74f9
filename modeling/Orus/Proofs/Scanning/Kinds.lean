import Orus.Proofs.Soundness

/-! # Kinds and texts

The kind of a token goes with its text: marks and operators are never names, reserved words
are keywords, and nothing that is wrong with a source text looks like any of them.
-/

namespace Orus

def Token.IsScanned (t : Token) : Prop :=
  ∃ source, ∃ u ∈ Token.scan source, u.kind = t.kind ∧ u.text = t.text

/-- The marks and words around types, variables and parameters. -/
def Token.fixedTexts : List String :=
  ["[", "]", "<", ">", ",", ":", "->", "(", ")", "mut"]

/-- Tokens that are neither names nor errors if they have one of the fixed texts. -/
def Token.IsPlain (t : Token) : Prop :=
  t.text ∈ Token.fixedTexts → t.kind ≠ .ident ∧ t.kind ≠ .error

namespace Token

open Text

theorem IsScanned.exists_lexeme {t : Token} (h : t.IsScanned) (hkind : t.kind ≠ .eof) :
    ∃ text after value, t.text = String.ofList text ∧ IsLexeme text after (some t.kind) value := by
  obtain ⟨source, u, hu, hkind', htext⟩ := h
  obtain ⟨text, after, hut, hlexeme⟩ := (isCut_scan source).exists_lexeme hu (hkind' ▸ hkind)
  exact ⟨text, after, _, htext ▸ hut, hkind' ▸ hlexeme⟩

/-- An error starts with a character that none of the fixed texts is made of. -/
theorem not_mem_fixedTexts_of_error {text after : List Char} {value : Option String}
    (h : IsLexeme text after (some .error) value) : String.ofList text ∉ fixedTexts := by
  have hheads : ∀ fixed ∈ fixedTexts, fixed.toList.head?.any (fun c => c == '/' || c == '"' ||
      !(isWordStart c || singleOperators.contains c || punctuation.contains c)) = false := by
    decide
  intro hmem
  have hhead := hheads _ hmem
  rw [String.toList_ofList] at hhead
  generalize hkind : some Kind.error = kind at h
  cases h with
  | openComment | openString => simp at hhead
  | word => split at hkind <;> cases hkind
  | stray hstray =>
    simp [hstray.notWord, hstray.notOperator, hstray.notMark] at hhead
  | _ => cases hkind

theorem not_mem_fixedTexts_of_ident {text after : List Char} {value : Option String}
    (h : IsLexeme text after (some .ident) value) : String.ofList text ∉ fixedTexts := by
  have hwords : ∀ fixed ∈ fixedTexts,
      fixed ∈ keywords ∨ fixed.toList.head?.any isWordStart = false := by decide
  obtain ⟨c, cs, rfl, hstart, -, hkeyword⟩ := h.word_of_ident
  intro hmem
  obtain hword | hnone := hwords _ hmem
  · exact hkeyword hword
  · rw [String.toList_ofList] at hnone
    simp [hstart] at hnone

theorem IsScanned.isPlain {t : Token} (h : t.IsScanned) : t.IsPlain := by
  intro htext
  constructor <;> intro hkind <;>
    obtain ⟨text, after, value, heq, hlexeme⟩ := h.exists_lexeme (by rw [hkind]; exact nofun) <;>
    rw [hkind] at hlexeme
  · exact not_mem_fixedTexts_of_ident hlexeme (heq ▸ htext)
  · exact not_mem_fixedTexts_of_error hlexeme (heq ▸ htext)

theorem IsScanned.kind_of_less {t : Token} (h : t.IsScanned) (ht : t.Is "<") : t.kind = .op := by
  obtain ⟨text, after, value, heq, hlexeme⟩ := h.exists_lexeme ht.not_eof
  have htext : text = ['<'] := by
    have hlist := congrArg String.toList (heq.symm.trans ht.text_eq)
    rwa [String.toList_ofList] at hlist
  generalize hkind : some t.kind = kind at hlexeme
  cases hlexeme with
  | blank | lineComment | blockComment => cases hkind
  | pair | single => exact Option.some.inj hkind
  | openComment | string | openString => cases htext
  | word _ hstart =>
    cases htext
    exact absurd hstart (by decide)
  | number hdigit =>
    obtain ⟨rfl, -⟩ := List.cons.inj htext
    exact absurd hdigit (by decide)
  | mark hmark =>
    cases htext
    exact absurd hmark (by decide)
  | stray hstray =>
    cases htext
    exact absurd hstray.notOperator (by decide)

/-- Nothing but words starts like a word. -/
theorem kind_of_isWordStart {c : Char} {cs after : List Char} {kind : Kind} {value : Option String}
    (h : IsLexeme (c :: cs) after (some kind) value) (hc : isWordStart c = true) :
    kind = if String.ofList (c :: cs) ∈ keywords then .keyword else .ident := by
  have hpairs : ∀ pair ∈ pairOperators, pair.head?.all (!isWordStart ·) = true := by decide
  generalize hkind : some kind = found at h
  cases h with
  | blank | lineComment | blockComment => cases hkind
  | word => exact Option.some.inj hkind
  | openComment | string | openString => exact absurd hc (by decide)
  | number hdigit => simp [isWordStart_of_isAsciiDigit hdigit] at hc
  | pair hpair => simpa [hc] using hpairs _ hpair
  | single hsingle => simp [(of_mem_singleOperators hsingle)] at hc
  | mark hmark => simp [(of_mem_punctuation hmark)] at hc
  | stray hstray => simp [hstray.notWord] at hc

theorem IsScanned.kind_of_keyword {t : Token} {text : String} (h : t.IsScanned) (ht : t.Is text)
    (htext : text ∈ keywords) : t.kind = .keyword := by
  have hwords : ∀ word ∈ keywords, word.toList.head?.any isWordStart = true := by decide
  obtain ⟨found, after, value, heq, hlexeme⟩ := h.exists_lexeme ht.not_eof
  obtain ⟨c, cs, rfl⟩ := hlexeme.exists_cons
  rw [ht.text_eq] at heq
  subst heq
  have hstart := hwords _ htext
  rw [String.toList_ofList] at hstart
  rw [kind_of_isWordStart hlexeme hstart, if_pos htext]

end Token

end Orus
