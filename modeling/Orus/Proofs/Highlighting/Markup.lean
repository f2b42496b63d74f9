import Orus.Proofs.Highlighting.Pieces

/-! # Coloured source as part of a page

A coloured page is written with tags and with single characters. It can be taken apart into
these in one way only if `<` and `>` are not among the characters, and no character of a source
is written with them. So the tags of a page are those of its pieces, and what stands between
them is the source, with entities for some characters.
-/

namespace Orus.Editor

/-! ## Classes -/

def pieceClasses : List PieceClass := [
  .comment, .string, .number, .builtin, .keyword, .type, .identifier, .whitespace, .operator,
  .punctuation, .error]

theorem find?_name (kind : PieceClass) :
    pieceClasses.find? (·.name == kind.name) = some kind := by
  cases kind <;> rfl

theorem PieceClass.name_injective : Function.Injective PieceClass.name := by
  intro a b h
  have hfound := find?_name a
  rw [h, find?_name b] at hfound
  exact (Option.some.inj hfound).symm

theorem PieceClass.quote_not_mem_name (kind : PieceClass) : '"' ∉ kind.name.toList := by
  cases kind <;> decide

/-! ## Markup -/

inductive Markup where
  | char (c : Char)
  | opening (kind : PieceClass)
  | closing
  deriving DecidableEq, Repr

namespace Markup

def text : Markup → List Char
  | char c => [c]
  | opening kind => "<span class=\"orus-".toList ++ (kind.name.toList ++ "\">".toList)
  | closing => "</span>".toList

def written (parts : List Markup) : List Char :=
  parts.flatMap text

def inside (parts : List Markup) : List Char :=
  parts.filterMap fun
    | char c => some c
    | _ => none

/-- A part is plain if it is a tag or a character other than the marks at the ends of tags. -/
def IsPlain : Markup → Prop
  | char c => c ≠ '<' ∧ c ≠ '>'
  | _ => True

/-- Tags by turns, from inside or outside an element to the outside: an opening tag stands
outside and a closing tag inside. -/
def Alternates : Bool → List Markup → Prop
  | isOpen, [] => isOpen = false
  | isOpen, char _ :: parts => Alternates isOpen parts
  | isOpen, opening _ :: parts => isOpen = false ∧ Alternates true parts
  | isOpen, closing :: parts => isOpen = true ∧ Alternates false parts

@[simp] theorem written_nil : written [] = [] := rfl

@[simp] theorem written_cons (part : Markup) (parts : List Markup) :
    written (part :: parts) = part.text ++ written parts := rfl

theorem written_append (parts others : List Markup) :
    written (parts ++ others) = written parts ++ written others :=
  List.flatMap_append

theorem inside_append (parts others : List Markup) :
    inside (parts ++ others) = inside parts ++ inside others :=
  List.filterMap_append

theorem text_opening (kind : PieceClass) : (opening kind).text =
    "<span class=\"orus-".toList ++ (kind.name.toList ++ "\">".toList) := rfl

theorem text_closing : closing.text = "</span>".toList := rfl

theorem name_eq_of_append {a b : PieceClass} {xs ys : List Char}
    (h : a.name.toList ++ '"' :: xs = b.name.toList ++ '"' :: ys) : a = b := by
  have hname (kind : PieceClass) (cs : List Char) :
      (kind.name.toList ++ '"' :: cs).takeWhile (· != '"') = kind.name.toList := by
    rw [List.takeWhile_append_of_pos]
    · simp
    · exact fun c hc => bne_iff_ne.2 (ne_of_mem_of_not_mem hc kind.quote_not_mem_name)
  apply PieceClass.name_injective
  rw [← String.toList_inj, ← hname a xs, h, hname b ys]

/-- No part is written as another one with more after it. -/
theorem eq_of_text_append {a b : Markup} {xs ys : List Char} (ha : a.IsPlain) (hb : b.IsPlain)
    (h : a.text ++ xs = b.text ++ ys) : a = b := by
  cases a with
  | char c =>
    cases b with
    | char d => exact congrArg char (List.cons.inj h).1
    | opening kind => exact absurd (List.cons.inj h).1 ha.1
    | closing => exact absurd (List.cons.inj h).1 ha.1
  | opening kind =>
    cases b with
    | char d => exact absurd (List.cons.inj h).1.symm hb.1
    | opening other =>
      simp only [text_opening, List.append_assoc, List.append_cancel_left_eq] at h
      exact congrArg opening (name_eq_of_append h)
    | closing => exact absurd (List.cons.inj (List.cons.inj h).2).1 (by decide)
  | closing =>
    cases b with
    | char d => exact absurd (List.cons.inj h).1.symm hb.1
    | opening kind => exact absurd (List.cons.inj (List.cons.inj h).2).1 (by decide)
    | closing => rfl

theorem text_ne_nil (part : Markup) : part.text ≠ [] := by
  cases part <;> exact List.cons_ne_nil _ _

/-- A page can be taken apart in one way only. -/
theorem eq_of_written_eq {parts others : List Markup} (hparts : ∀ part ∈ parts, part.IsPlain)
    (hothers : ∀ part ∈ others, part.IsPlain) (h : written parts = written others) :
    parts = others := by
  induction parts generalizing others with
  | nil =>
    cases others with
    | nil => rfl
    | cons other others => simp [text_ne_nil] at h
  | cons part parts ih =>
    cases others with
    | nil => simp [text_ne_nil] at h
    | cons other others =>
      rw [List.forall_mem_cons] at hparts hothers
      rw [written_cons, written_cons] at h
      obtain rfl := eq_of_text_append hparts.1 hothers.1 h
      rw [ih hparts.2 hothers.2 (List.append_cancel_left h)]

theorem Alternates.append {isOpen : Bool} {parts others : List Markup}
    (hparts : Alternates isOpen parts) (hothers : Alternates false others) :
    Alternates isOpen (parts ++ others) := by
  induction parts generalizing isOpen with
  | nil =>
    obtain rfl : isOpen = false := hparts
    exact hothers
  | cons part parts ih =>
    cases part with
    | char c => exact ih hparts
    | opening kind => exact ⟨hparts.1, ih hparts.2⟩
    | closing => exact ⟨hparts.1, ih hparts.2⟩

/-- Characters are neutral to the turns of tags. -/
theorem alternates_map_char (isOpen : Bool) (cs : List Char) (parts : List Markup) :
    Alternates isOpen (cs.map char ++ parts) ↔ Alternates isOpen parts := by
  induction cs with
  | nil => rfl
  | cons c cs ih => exact ih

theorem written_map_char (cs : List Char) : written (cs.map char) = cs := by
  induction cs with
  | nil => rfl
  | cons c cs ih => rw [List.map_cons, written_cons, ih]; rfl

theorem written_element (kind : PieceClass) (cs : List Char) :
    written (opening kind :: (cs.map char ++ [closing])) =
      (opening kind).text ++ (cs ++ closing.text) := by
  rw [written_cons, written_append, written_map_char, written_cons, written_nil, List.append_nil]

theorem inside_map_char (cs : List Char) : inside (cs.map char) = cs := by
  induction cs with
  | nil => rfl
  | cons c cs ih => exact congrArg (c :: ·) ih

end Markup

/-! ## Entities -/

/-- Reads a text without tags in one pass from left to right: three entities stand for the
characters that they name, and every other character for itself. -/
def decodeEntities : List Char → List Char
  | '&' :: 'a' :: 'm' :: 'p' :: ';' :: rest => '&' :: decodeEntities rest
  | '&' :: 'l' :: 't' :: ';' :: rest => '<' :: decodeEntities rest
  | '&' :: 'g' :: 't' :: ';' :: rest => '>' :: decodeEntities rest
  | c :: rest => c :: decodeEntities rest
  | [] => []

theorem decodeEntities_escapeHtml (c : Char) (rest : List Char) :
    decodeEntities (escapeHtml c ++ rest) = c :: decodeEntities rest := by
  by_cases hamp : c = '&'
  · subst hamp
    rfl
  by_cases hless : c = '<'
  · subst hless
    rfl
  by_cases hgreater : c = '>'
  · subst hgreater
    rfl
  · rw [escapeHtml, if_neg hamp, if_neg hless, if_neg hgreater, List.cons_append, List.nil_append,
      decodeEntities]
    all_goals exact fun _ h => absurd h hamp

theorem decodeEntities_flatMap (cs rest : List Char) :
    decodeEntities (cs.flatMap escapeHtml ++ rest) = cs ++ decodeEntities rest := by
  induction cs with
  | nil => rfl
  | cons c cs ih =>
    rw [List.flatMap_cons, List.append_assoc, decodeEntities_escapeHtml, ih, List.cons_append]

theorem isPlain_of_mem_escapeHtml {c d : Char} (h : d ∈ escapeHtml c) :
    (Markup.char d).IsPlain := by
  have hentity {entity : String} (hd : d ∈ entity.toList)
      (hall : entity.toList.all (fun e => e ≠ '<' ∧ e ≠ '>') = true) : d ≠ '<' ∧ d ≠ '>' := by
    simpa using List.all_eq_true.1 hall d hd
  unfold escapeHtml at h
  split at h
  · exact hentity h (by decide)
  split at h
  · exact hentity h (by decide)
  split at h
  · exact hentity h (by decide)
  · obtain rfl := List.mem_singleton.1 h
    exact ⟨‹_›, ‹_›⟩

/-! ## Pages -/

namespace Piece

def escaped (p : Piece) : List Char :=
  p.text.toList.flatMap escapeHtml

/-- What a piece is written with in a page. -/
def markup (p : Piece) : List Markup :=
  if p.kind = .whitespace then p.escaped.map .char
  else .opening p.kind :: (p.escaped.map .char ++ [.closing])

theorem html_eq (p : Piece) : p.html = if p.kind = .whitespace then String.ofList p.escaped
    else "<span class=\"orus-" ++ p.kind.name ++ "\">" ++ String.ofList p.escaped ++
      "</span>" := rfl

theorem toList_html (p : Piece) : p.html.toList = Markup.written p.markup := by
  have hescaped : (String.ofList p.escaped).toList = p.escaped := String.toList_ofList
  by_cases hblank : p.kind = .whitespace
  · rw [html_eq, markup, if_pos hblank, if_pos hblank, hescaped, Markup.written_map_char]
  · rw [html_eq, markup, if_neg hblank, if_neg hblank, Markup.written_element,
      Markup.text_opening, Markup.text_closing, String.toList_append, String.toList_append,
      String.toList_append, String.toList_append, hescaped]
    simp only [List.append_assoc]

theorem isPlain_of_mem_markup {p : Piece} {part : Markup} (h : part ∈ p.markup) : part.IsPlain := by
  cases part with
  | opening | closing => trivial
  | char c =>
    have hmem : c ∈ p.escaped := by
      rw [markup] at h
      split at h
      · simpa using h
      · simpa using h
    obtain ⟨d, -, hd⟩ := List.mem_flatMap.1 hmem
    exact isPlain_of_mem_escapeHtml hd

theorem alternates_markup (p : Piece) : Markup.Alternates false p.markup := by
  rw [markup]
  split
  · rw [← List.append_nil (p.escaped.map _), Markup.alternates_map_char]
    rfl
  · exact ⟨rfl, (Markup.alternates_map_char ..).2 ⟨rfl, rfl⟩⟩

theorem inside_markup (p : Piece) : Markup.inside p.markup = p.escaped := by
  rw [markup]
  split
  · exact Markup.inside_map_char _
  · change Markup.inside (p.escaped.map .char ++ [.closing]) = p.escaped
    rw [Markup.inside_append, Markup.inside_map_char]
    exact List.append_nil _

end Piece

def markup (source : String) : List Markup :=
  (highlight source).flatMap Piece.markup

theorem toList_highlightHtml (source : String) :
    (highlightHtml source).toList = Markup.written (markup source) := by
  rw [highlightHtml, String.toList_join, List.flatMap_map, markup, Markup.written,
    List.flatMap_assoc]
  exact congrArg ((highlight source).flatMap ·) (funext Piece.toList_html)

theorem isPlain_of_mem_markup {source : String} {part : Markup} (h : part ∈ markup source) :
    part.IsPlain := by
  obtain ⟨p, -, hpart⟩ := List.mem_flatMap.1 h
  exact Piece.isPlain_of_mem_markup hpart

theorem alternates_markup (source : String) : Markup.Alternates false (markup source) := by
  rw [markup]
  induction highlight source with
  | nil => rfl
  | cons p ps ih => exact p.alternates_markup.append ih

/-- What stands between the tags is the source with entities. -/
theorem inside_markup (source : String) :
    Markup.inside (markup source) = source.toList.flatMap escapeHtml := by
  have hpieces (ps : List Piece) : Markup.inside (ps.flatMap Piece.markup) =
      (ps.flatMap (·.text.toList)).flatMap escapeHtml := by
    induction ps with
    | nil => rfl
    | cons p ps ih =>
      rw [List.flatMap_cons, List.flatMap_cons, Markup.inside_append, List.flatMap_append, ih,
        p.inside_markup, Piece.escaped]
  rw [markup, hpieces, highlight_eq_pieces, flatMap_pieces]

/-- Highlighting covers a source and adds nothing but tags. The pieces are not empty and are the
source when put together. The coloured page can be taken apart into tags and other characters in
one way only, where `<` and `>` are in no other place than the tags, which open and close by
turns; without them it is the source with three characters as entities. -/
theorem highlight_covers (source : String) :
    (∀ p ∈ highlight source, p.text ≠ "") ∧
      String.join ((highlight source).map Piece.text) = source ∧
      ∃ parts : List Markup, (highlightHtml source).toList = Markup.written parts ∧
        (∀ part ∈ parts, part.IsPlain) ∧ Markup.Alternates false parts ∧
        decodeEntities (Markup.inside parts) = source.toList ∧
        ∀ others : List Markup, (highlightHtml source).toList = Markup.written others →
          (∀ part ∈ others, part.IsPlain) → others = parts := by
  refine ⟨fun p hp => text_ne_empty_of_mem_pieces source.toList hp, join_map_text source,
    markup source, toList_highlightHtml source, fun _ => isPlain_of_mem_markup,
    alternates_markup source, ?_, fun others hwritten hothers => ?_⟩
  · have hdecoded := decodeEntities_flatMap source.toList []
    rwa [List.append_nil, decodeEntities, List.append_nil, ← inside_markup] at hdecoded
  · exact Markup.eq_of_written_eq hothers (fun _ => isPlain_of_mem_markup)
      (hwritten.symm.trans (toList_highlightHtml source))

end Orus.Editor
