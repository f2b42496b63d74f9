import Orus.Proofs.Layout.Trees
import Orus.Proofs.Scanning.Lexemes

/-! # Tokens read back with spaces between them

A lexeme depends on what follows it only where it could go on, and none goes on over a space. So
the texts of the tokens of a source, with one space between each two, are cut into the same
tokens again. A lexeme that runs to the end of its source stays the last one.
-/

namespace Orus.Token

open Text

def IsSpaced (next : List Char) : Prop :=
  ∀ c ∈ next.head?, c = ' '

theorem isSpaced_nil : IsSpaced [] := by
  simp [IsSpaced]

theorem isSpaced_cons (next : List Char) : IsSpaced (' ' :: next) := by
  simp [IsSpaced]

theorem IsSpaced.forall_head {next : List Char} (h : IsSpaced next) {P : Char → Prop}
    (hspace : P ' ') : ∀ c ∈ next.head?, P c :=
  fun c hc => h c hc ▸ hspace

theorem IsNumeral.spaced {digits fraction exponent after next : List Char}
    (h : IsNumeral digits fraction exponent after) (hnext : IsSpaced next) :
    IsNumeral digits fraction exponent next where
  isDigits := h.isDigits
  isFraction := h.isFraction
  isPointed := h.isPointed
  isExponent := h.isExponent
  noDigit := hnext.forall_head (by decide)
  noFraction _ _ := by
    cases next with
    | nil => rfl
    | cons c next => rw [hnext c rfl]; rfl
  noExponent _ := by
    cases next with
    | nil => rfl
    | cons c next => rw [hnext c rfl]; rfl

/-- A token keeps its kind and value before a space. Before more of a text it does so only if it
was not the last lexeme of its own text, which may be a string or a comment without an end. -/
theorem IsLexeme.spaced {text after next : List Char} {kind : Kind} {value : Option String}
    (h : IsLexeme text after (some kind) value) (hnext : IsSpaced next)
    (hlast : after = [] → next = []) : IsLexeme text next (some kind) value := by
  have hpair (c : Char) : [c, ' '] ∉ pairOperators := by
    simp [pairOperators]
  cases h with
  | openComment hopen =>
    obtain rfl := hlast rfl
    exact .openComment hopen
  | word hblank hword hcs _ =>
    exact .word hblank hword hcs (hnext.forall_head (by decide))
  | number hdigit hnumeral => exact .number hdigit (hnumeral.spaced hnext)
  | string hbody => exact .string hbody
  | openString hbody =>
    obtain rfl := hlast rfl
    exact .openString hbody
  | pair hmem => exact .pair hmem
  | @single c _ hmem _ =>
    exact .single hmem (hnext.forall_head ⟨hpair c, by simp, by simp⟩)
  | mark hmem => exact .mark hmem
  | @stray c _ hstray _ => exact .stray hstray (hnext.forall_head (hpair c))

/-- The texts of the tokens before the end of input. -/
def texts (ts : List Token) : List String :=
  (ts.filter (·.kind ≠ .eof)).map Token.text

theorem texts_cons {t : Token} {ts : List Token} (h : t.kind ≠ .eof) :
    texts (t :: ts) = t.text :: texts ts := by
  simp [texts, h]

theorem toList_intercalate_cons {text : String} {texts : List String} (h : texts ≠ []) :
    (" ".intercalate (text :: texts)).toList =
      text.toList ++ ' ' :: (" ".intercalate texts).toList := by
  rw [String.toList_intercalate, List.map_cons, List.intercalate_cons_of_ne_nil (by simpa using h),
    String.toList_intercalate, List.append_assoc]
  rfl

theorem IsCut.texts_of_nil {p : Position} {ts : List Token} (h : IsCut p [] ts) :
    texts ts = [] := by
  generalize hcs : ([] : List Char) = cs at h
  cases h with
  | done => rfl
  | gap h _ =>
    obtain ⟨c, cs, rfl⟩ := h.exists_cons
    cases hcs
  | token h _ =>
    obtain ⟨c, cs, rfl⟩ := h.exists_cons
    cases hcs

/-- A cut text, respaced, is cut into the same tokens at any place. -/
theorem IsCut.exists_respaced {p : Position} {cs : List Char} {ts : List Token} (h : IsCut p cs ts)
    (q : Position) : ∃ us, IsCut q (" ".intercalate (texts ts)).toList us ∧
      us.map Token.content = ts.map Token.content := by
  induction h generalizing q with
  | done p => exact ⟨[eofAt q], .done q, rfl⟩
  | gap _ _ ih => exact ih q
  | @token p text after kind value ts h hrest ih =>
    have hkind : kind ≠ .eof := fun hkind => h.kind_ne_eof (congrArg some hkind)
    rw [texts_cons hkind]
    by_cases hmore : texts ts = []
    · obtain ⟨us, hus, hcontent⟩ := ih (q.after text)
      rw [hmore] at hus ⊢
      have hlexeme : IsLexeme text [] (some kind) value := h.spaced isSpaced_nil fun _ => rfl
      exact ⟨_, by simpa using IsCut.token hlexeme hus, by simp [content, hcontent]⟩
    · obtain ⟨us, hus, hcontent⟩ := ih ((q.after text).after [' '])
      have hlexeme := h.spaced (isSpaced_cons (" ".intercalate (texts ts)).toList) fun hafter =>
        absurd (hafter ▸ hrest).texts_of_nil hmore
      have hspace : IsLexeme [' '] (" ".intercalate (texts ts)).toList none none :=
        .blank (by decide)
      rw [toList_intercalate_cons hmore, String.toList_ofList]
      exact ⟨_, .token hlexeme (.gap hspace hus), by simp [content, hcontent]⟩

/-- The texts of all tokens of a source with single spaces between them have the same tokens:
each of the same kind, with the same text and the same value. -/
theorem content_scan_respaced (source : String) :
    (scan (" ".intercalate (((scan source).filter (·.kind ≠ .eof)).map Token.text))).map
        Token.content =
      (scan source).map Token.content := by
  obtain ⟨us, hus, hcontent⟩ := (isCut_scan source).exists_respaced .start
  rw [← hcontent, ← scan_eq_iff.2 hus]
  rfl

end Orus.Token
