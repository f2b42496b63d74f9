import Mathlib.Data.List.Induction
import Orus.Proofs.Scanning.Lexemes

/-! # Tokens and gaps cover the text

A text is gaps and tokens by turns: nothing of it is lost, and each token stands at the
place that it records. The places are counted while the text is cut; that they are the lines and
columns of the text follows from what one more character does to a place.
-/

namespace Orus

namespace Position

/-- The offset just after the last line feed of a text, or that of its start. -/
def lineStart (text : List Char) : Nat :=
  text.length - (text.reverse.takeWhile (· ≠ '\n')).length

theorem lineStart_concat (text : List Char) (c : Char) :
    lineStart (text ++ [c]) = if c = '\n' then text.length + 1 else lineStart text := by
  by_cases hc : c = '\n'
  · simp [lineStart, hc]
  · simp [lineStart, hc]

theorem lineStart_le (text : List Char) : lineStart text ≤ text.length :=
  Nat.sub_le ..

theorem after_concat (p : Position) (text : List Char) (c : Char) :
    p.after (text ++ [c]) = (p.after text).next c := by
  rw [after_append]
  rfl

theorem offset_after (p : Position) (text : List Char) :
    (p.after text).offset = p.offset + text.length := by
  induction text using List.reverseRecOn with
  | nil => rfl
  | append_singleton text c ih =>
    rw [after_concat, next]
    split <;> simp [ih, Nat.add_assoc]

theorem line_after_start (text : List Char) :
    (start.after text).line = 1 + text.count '\n' := by
  induction text using List.reverseRecOn with
  | nil => rfl
  | append_singleton text c ih =>
    rw [after_concat, next]
    by_cases hc : c = '\n'
    · simp [hc, ih, Nat.add_assoc]
    · simp [hc, ih]

theorem column_after_start (text : List Char) :
    (start.after text).column = text.length - lineStart text + 1 := by
  induction text using List.reverseRecOn with
  | nil => rfl
  | append_singleton text c ih =>
    have hle := lineStart_le text
    rw [after_concat, next, lineStart_concat, List.length_append, List.length_singleton]
    by_cases hc : c = '\n'
    · simp [hc]
    · simp only [hc, if_false, ih]
      omega

end Position

namespace Token

open Text

/-! ## Places -/

theorem IsCut.exists_before {p : Position} {cs : List Char} {ts : List Token} (h : IsCut p cs ts)
    {t : Token} (ht : t ∈ ts) : ∃ before after, cs = before ++ after ∧
      t.position = p.after before := by
  induction h with
  | done p =>
    obtain rfl := List.mem_singleton.1 ht
    exact ⟨[], [], rfl, rfl⟩
  | @gap p text after _ _ _ _ ih =>
    obtain ⟨before, rest, rfl, hplace⟩ := ih ht
    exact ⟨text ++ before, rest, by simp, by rw [hplace, Position.after_append]⟩
  | @token p text after _ _ _ _ _ ih =>
    rcases List.mem_cons.1 ht with rfl | ht
    · exact ⟨[], text ++ after, rfl, rfl⟩
    · obtain ⟨before, rest, rfl, hplace⟩ := ih ht
      exact ⟨text ++ before, rest, by simp, by rw [hplace, Position.after_append]⟩

/-- The place of every token counts the lines of the text before it and the characters since
the last of them started. -/
theorem position_mem_scan {source : String} {t : Token} (ht : t ∈ scan source) :
    t.position.line = 1 + (source.toList.take t.position.offset).count '\n' ∧
      t.position.column = t.position.offset -
        Position.lineStart (source.toList.take t.position.offset) + 1 := by
  obtain ⟨before, after, hsource, hplace⟩ := (isCut_scan source).exists_before ht
  have hoffset : t.position.offset = before.length := by
    rw [hplace, Position.offset_after]
    exact Nat.zero_add _
  have hbefore : source.toList.take t.position.offset = before := by
    rw [hoffset, hsource, List.take_left]
  rw [hbefore, hoffset, hplace]
  exact ⟨Position.line_after_start before, Position.column_after_start before⟩

/-- A string and a comment over several lines, then a string that is never closed. -/
def brokenLines : String :=
  "say \"a\n\\\nb\" /* c\n */ @ \"d\n"

theorem position_openString_mem_scan :
    ∃ t ∈ scan brokenLines, t.kind = .error ∧ t.position = ⟨4, 7, 23⟩ ∧
      t.position.line = 1 + (brokenLines.toList.take t.position.offset).count '\n' ∧
      t.position.column = t.position.offset -
        Position.lineStart (brokenLines.toList.take t.position.offset) + 1 := by
  have ht : ⟨.error, "\"d\n", ⟨4, 7, 23⟩, some "unterminated string literal"⟩ ∈
      scan brokenLines := by decide +kernel
  exact ⟨_, ht, rfl, rfl, position_mem_scan ht⟩

/-! ## Gaps -/

/-- What stands between tokens, before the rest of a text: blanks, comments up to a line feed
or to the end, and comments up to the first mark that closes them. -/
inductive IsGap (rest : List Char) : List Char → Prop where
  | nil : IsGap rest []
  | blank {c : Char} {gap : List Char} : isBlank c = true → IsGap rest gap → IsGap rest (c :: gap)
  | lineComment {body gap : List Char} : '\n' ∉ body → (∀ c ∈ (gap ++ rest).head?, c = '\n') →
      IsGap rest gap → IsGap rest ('/' :: '/' :: (body ++ gap))
  | blockComment {body gap : List Char} : IsOpen body → IsGap rest gap →
      IsGap rest ('/' :: '*' :: (body ++ '*' :: '/' :: gap))

theorem IsGap.append {rest text gap : List Char} {value : Option String} (hgap : IsGap rest gap)
    (h : IsLexeme text (gap ++ rest) none value) : IsGap rest (text ++ gap) := by
  generalize hafter : gap ++ rest = after at h
  cases h with
  | blank hblank => exact .blank hblank hgap
  | lineComment hbody hend => exact .lineComment hbody (hafter ▸ hend) hgap
  | blockComment hopen => simpa using IsGap.blockComment hopen hgap

/-! ## Tilings -/

def written (pieces : List (List Char × Token)) : List Char :=
  pieces.flatMap fun piece => piece.1 ++ piece.2.text.toList

@[simp] theorem written_nil : written [] = [] := rfl

@[simp] theorem written_cons (gap : List Char) (t : Token) (pieces : List (List Char × Token)) :
    written ((gap, t) :: pieces) = gap ++ (t.text.toList ++ written pieces) := by
  simp [written]

/-- A text from a place on as gaps and tokens by turns, with a last gap. -/
inductive IsTiling : Position → List (List Char × Token) → List Char → Prop where
  | last {p : Position} {gap : List Char} : IsGap [] gap → IsTiling p [] gap
  | piece {p : Position} {gap : List Char} {t : Token} {pieces : List (List Char × Token)}
      {last : List Char} : IsGap (t.text.toList ++ (written pieces ++ last)) gap →
      t.kind ≠ .eof → t.text ≠ "" → t.position = p.after gap →
      IsTiling (t.position.after t.text.toList) pieces last → IsTiling p ((gap, t) :: pieces) last

theorem IsTiling.exists_append {p : Position} {text last : List Char} {value : Option String}
    {pieces : List (List Char × Token)} (htiling : IsTiling (p.after text) pieces last)
    (h : IsLexeme text (written pieces ++ last) none value) :
    ∃ pieces' last', IsTiling p pieces' last' ∧ pieces'.map Prod.snd = pieces.map Prod.snd ∧
      text ++ (written pieces ++ last) = written pieces' ++ last' := by
  cases htiling with
  | last hgap => exact ⟨[], text ++ last, .last (hgap.append (by simpa using h)), rfl, rfl⟩
  | @piece _ gap t pieces _ hgap hkind htext hplace hrest =>
    have hfirst : IsGap (t.text.toList ++ (written pieces ++ last)) (text ++ gap) :=
      hgap.append (by simpa using h)
    refine ⟨(text ++ gap, t) :: pieces, last, .piece hfirst hkind htext ?_ hrest, rfl, by simp⟩
    rw [hplace, Position.after_append]

theorem IsCut.exists_tiling {p : Position} {cs : List Char} {ts : List Token} (h : IsCut p cs ts) :
    ∃ pieces last, IsTiling p pieces last ∧ cs = written pieces ++ last ∧
      ts = pieces.map Prod.snd ++ [eofAt (p.after cs)] := by
  induction h with
  | done p => exact ⟨[], [], .last .nil, rfl, rfl⟩
  | @gap p text after _ _ h _ ih =>
    obtain ⟨pieces, last, htiling, rfl, rfl⟩ := ih
    obtain ⟨pieces', last', htiling', htokens, htext⟩ := htiling.exists_append h
    exact ⟨pieces', last', htiling', htext, by rw [htokens, p.after_append]⟩
  | @token p text after kind value _ h _ ih =>
    obtain ⟨pieces, last, htiling, rfl, rfl⟩ := ih
    have hkind : kind ≠ .eof := fun hkind => h.kind_ne_eof (congrArg some hkind)
    obtain ⟨c, cs, rfl⟩ := h.exists_cons
    refine ⟨([], ⟨kind, String.ofList (c :: cs), p, value⟩) :: pieces, last,
      .piece .nil hkind (by simp) rfl (by simpa using htiling), by simp, ?_⟩
    rw [p.after_append]
    rfl

namespace IsTiling

variable {p : Position} {pieces : List (List Char × Token)} {last : List Char}

theorem piece_of_eq_append (h : IsTiling p pieces last) {before after : List (List Char × Token)}
    {gap : List Char} {t : Token} (hpieces : pieces = before ++ (gap, t) :: after) :
    t.kind ≠ .eof ∧ t.text ≠ "" ∧ IsGap (t.text.toList ++ (written after ++ last)) gap ∧
      t.position.offset = p.offset + (written before ++ gap).length := by
  induction before generalizing p pieces with
  | nil =>
    cases h with
    | last => cases hpieces
    | piece hgap hkind htext hplace hrest =>
      cases hpieces
      exact ⟨hkind, htext, hgap, by rw [hplace, Position.offset_after]; rfl⟩
  | cons first before ih =>
    cases h with
    | last => cases hpieces
    | piece _ _ _ hplace hrest =>
      cases hpieces
      obtain ⟨hkind, htext, hgap, hoffset⟩ := ih hrest rfl
      refine ⟨hkind, htext, hgap, ?_⟩
      rw [hoffset, Position.offset_after, hplace, Position.offset_after]
      simp only [written_cons, List.length_append]
      omega

theorem offset_le (h : IsTiling p pieces last) : ∀ piece ∈ pieces,
    p.offset ≤ piece.2.position.offset := by
  rintro ⟨gap, t⟩ hmem
  obtain ⟨before, after, hpieces⟩ := List.append_of_mem hmem
  obtain ⟨-, -, -, hoffset⟩ := h.piece_of_eq_append hpieces
  exact hoffset ▸ Nat.le_add_right ..

theorem pairwise_offset (h : IsTiling p pieces last) :
    pieces.Pairwise fun a b => a.2.position.offset < b.2.position.offset := by
  induction h with
  | last => exact .nil
  | @piece _ _ t _ _ _ _ htext _ hrest ih =>
    refine .cons (fun piece hmem => ?_) ih
    have hle := hrest.offset_le piece hmem
    have hpos : 0 < t.text.toList.length := List.length_pos_iff.2 (by simpa using htext)
    rw [Position.offset_after] at hle
    exact Nat.lt_of_lt_of_le (Nat.lt_add_of_pos_right hpos) hle

theorem isGap_last (h : IsTiling p pieces last) : IsGap [] last := by
  induction h with
  | last hgap => exact hgap
  | piece _ _ _ _ _ ih => exact ih

end IsTiling

/-- The tokens of a text and the gaps around them are the whole text. Each token stands at the
offset it records, after the one before it, and only the last, at the end, marks the end. -/
theorem scan_covers_source (source : String) :
    ∃ (pieces : List (List Char × Token)) (last : List Char) (eof : Token),
      scan source = pieces.map Prod.snd ++ [eof] ∧ eof.kind = .eof ∧
      eof.position.offset = source.length ∧
      source.toList = written pieces ++ last ∧ IsGap [] last ∧
      (∀ before gap t after, pieces = before ++ (gap, t) :: after →
        t.kind ≠ .eof ∧ t.text ≠ "" ∧ IsGap (t.text.toList ++ (written after ++ last)) gap ∧
          t.position.offset = (written before ++ gap).length) ∧
      pieces.Pairwise fun a b => a.2.position.offset < b.2.position.offset := by
  obtain ⟨pieces, last, htiling, hsource, hscan⟩ := (isCut_scan source).exists_tiling
  refine ⟨pieces, last, _, hscan, rfl, ?_, hsource, htiling.isGap_last, ?_,
    htiling.pairwise_offset⟩
  · rw [eofAt, Position.offset_after, String.length_toList]
    exact Nat.zero_add _
  · intro before gap t after hpieces
    have hpiece := htiling.piece_of_eq_append hpieces
    simpa [Position.start] using hpiece

end Token

end Orus
