import Orus.Proofs.Layout.Behaviour
import Orus.Proofs.Reindenting.Depths
import Orus.Proofs.Scanning.Lexemes
import Orus.Proofs.StringLiterals

/-! # Reindenting keeps the tokens

Trimming and indenting change a text only in the blanks around its line feeds and at its ends.
A lexeme starts with no such blank, and only a comment holds a line feed, so both texts are cut
in parallel: the same tokens, and between them comments and blanks that may differ. A token
looks ahead for what could go on with it, and a blank never does.
-/

namespace Orus

namespace Text

/-! ## Texts with the same lines -/

structure IsBreak (cs : List Char) : Prop where
  areBlank : AreBlank cs
  mem : '\n' ∈ cs

/-- Texts that differ only in blanks: those around line feeds and those at the end. -/
inductive SameTail : List Char → List Char → Prop where
  | last {cs ds : List Char} : AreBlank cs → AreBlank ds → SameTail cs ds
  | keep (c : Char) {cs ds : List Char} : SameTail cs ds → SameTail (c :: cs) (c :: ds)
  | break {gap gap' cs ds : List Char} : IsBreak gap → IsBreak gap' → SameTail cs ds →
      SameTail (gap ++ cs) (gap' ++ ds)

inductive SameLines : List Char → List Char → Prop where
  | intro {before before' cs ds : List Char} : AreBlank before → AreBlank before' →
      SameTail cs ds → SameLines (before ++ cs) (before' ++ ds)

theorem SameTail.sameLines {cs ds : List Char} (h : SameTail cs ds) : SameLines cs ds :=
  .intro areBlank_nil areBlank_nil h

theorem SameTail.append_left {cs ds : List Char} (h : SameTail cs ds) (text : List Char) :
    SameTail (text ++ cs) (text ++ ds) := by
  induction text with
  | nil => exact h
  | cons c text ih => exact .keep c ih

theorem SameTail.symm {cs ds : List Char} (h : SameTail cs ds) : SameTail ds cs := by
  induction h with
  | last hcs hds => exact .last hds hcs
  | keep c _ ih => exact .keep c ih
  | «break» hgap hgap' _ ih => exact .break hgap' hgap ih

theorem sameLines_of_map_trim {lines lines' : List (List Char)} (hne : lines ≠ [])
    (h : lines.map trim = lines'.map trim) :
    SameLines (['\n'].intercalate lines) (['\n'].intercalate lines') := by
  induction lines generalizing lines' with
  | nil => exact absurd rfl hne
  | cons line rest ih =>
    cases lines' with
    | nil => cases h
    | cons line' rest' =>
      obtain ⟨hline, hrest⟩ := List.cons.inj h
      obtain ⟨before, after, hsplit, hbefore, hafter⟩ := exists_trim line
      obtain ⟨before', after', hsplit', hbefore', hafter'⟩ := exists_trim line'
      rw [← hline] at hsplit'
      generalize trim line = text at hsplit hsplit'
      subst hsplit hsplit'
      cases rest with
      | nil =>
        obtain rfl := List.map_eq_nil_iff.1 hrest.symm
        rw [List.intercalate_singleton, List.intercalate_singleton]
        exact .intro hbefore hbefore' ((SameTail.last hafter hafter').append_left text)
      | cons next rest =>
        have hne' : rest' ≠ [] := by
          rintro rfl
          cases hrest
        have hmore := ih (List.cons_ne_nil next rest) hrest
        rw [List.intercalate_cons_of_ne_nil (List.cons_ne_nil next rest),
          List.intercalate_cons_of_ne_nil hne']
        generalize ['\n'].intercalate (next :: rest) = tail at hmore ⊢
        generalize ['\n'].intercalate rest' = tail' at hmore ⊢
        cases hmore with
        | @intro gap gap' cs ds hgap hgap' htail =>
          have hbreak {after gap : List Char} (hafter : AreBlank after) (hgap : AreBlank gap) :
              IsBreak (after ++ ('\n' :: gap)) :=
            ⟨areBlank_append.2 ⟨hafter, areBlank_cons.2 ⟨by decide, hgap⟩⟩, by simp⟩
          have hboth := SameTail.break (hbreak hafter hgap) (hbreak hafter' hgap') htail
          simpa using SameLines.intro hbefore hbefore' (hboth.append_left text)

/-! ## Cutting both texts -/

variable {c : Char} {cs ds : List Char}

theorem SameTail.cons_left (h : SameTail (c :: cs) ds) (hc : isBlank c = false) :
    ∃ ds', ds = c :: ds' ∧ SameTail cs ds' := by
  generalize hleft : c :: cs = left at h
  cases h with
  | last hcs _ =>
    rw [hcs c (by simp [← hleft])] at hc
    cases hc
  | keep _ h =>
    cases hleft
    exact ⟨_, rfl, h⟩
  | @«break» gap _ _ _ hgap _ _ =>
    cases gap with
    | nil => cases hgap.mem
    | cons d gap =>
      cases hleft
      rw [hgap.areBlank c List.mem_cons_self] at hc
      cases hc

theorem SameTail.cons_right {d : Char} (h : SameTail cs (d :: ds)) (hd : isBlank d = false) :
    ∃ cs', cs = d :: cs' ∧ SameTail cs' ds := by
  obtain ⟨cs', hcs, htail⟩ := h.symm.cons_left hd
  exact ⟨cs', hcs, htail.symm⟩

/-- What holds of blanks and of the next character of one text holds of that of the other. -/
theorem SameTail.forall_head (h : SameTail cs ds) {P : Char → Prop}
    (hblank : ∀ d, isBlank d = true → P d) (hcs : ∀ d ∈ cs.head?, P d) : ∀ d ∈ ds.head?, P d := by
  intro d hd
  obtain ⟨ds', rfl⟩ := List.head?_eq_some_iff.1 hd
  cases hc : isBlank d with
  | true => exact hblank d hc
  | false =>
    obtain ⟨cs', rfl, -⟩ := h.cons_right hc
    exact hcs d rfl

theorem SameLines.of_blank (h : SameLines (c :: cs) ds) (hc : isBlank c = true) :
    SameLines cs ds := by
  generalize hleft : c :: cs = left at h
  cases h with
  | @intro before before' left right hbefore hbefore' htail =>
    cases before with
    | cons d before =>
      cases hleft
      exact .intro (areBlank_cons.1 hbefore).2 hbefore' htail
    | nil =>
      rw [List.nil_append] at hleft
      cases htail with
      | last hcs hds =>
        subst hleft
        exact .intro areBlank_nil hbefore' (.last (areBlank_cons.1 hcs).2 hds)
      | @keep d _ ds htail =>
        cases hleft
        simpa using SameLines.intro areBlank_nil
          (areBlank_append.2 ⟨hbefore', areBlank_cons.2 ⟨hc, areBlank_nil⟩⟩) htail
      | @«break» gap gap' _ _ hgap hgap' htail =>
        cases gap with
        | nil => cases hgap.mem
        | cons d gap =>
          cases hleft
          simpa using SameLines.intro (areBlank_cons.1 hgap.areBlank).2
            (areBlank_append.2 ⟨hbefore', hgap'.areBlank⟩) htail

theorem SameLines.exists_tail (h : SameLines (c :: cs) ds) (hc : isBlank c = false) :
    ∃ before ds', ds = before ++ c :: ds' ∧ AreBlank before ∧ SameTail cs ds' := by
  generalize hleft : c :: cs = left at h
  cases h with
  | @intro before before' left right hbefore hbefore' htail =>
    cases before with
    | cons d before =>
      cases hleft
      rw [hbefore c List.mem_cons_self] at hc
      cases hc
    | nil =>
      rw [List.nil_append] at hleft
      subst hleft
      obtain ⟨ds', rfl, hrest⟩ := htail.cons_left hc
      exact ⟨before', ds', rfl, hbefore', hrest⟩

theorem SameLines.areBlank (h : SameLines [] ds) : AreBlank ds := by
  generalize hleft : ([] : List Char) = left at h
  cases h with
  | @intro before before' left right hbefore hbefore' htail =>
    obtain ⟨rfl, rfl⟩ := List.append_eq_nil_iff.1 hleft.symm
    refine areBlank_append.2 ⟨hbefore', ?_⟩
    generalize hempty : ([] : List Char) = empty at htail
    cases htail with
    | last _ hds => exact hds
    | keep => cases hempty
    | «break» hgap _ _ =>
      rw [(List.append_eq_nil_iff.1 hempty.symm).1] at hgap
      cases hgap.mem

/-- A break goes on past a piece of a line. -/
theorem exists_rest_of_append_eq {gap text after : List Char} (h : gap ++ cs = text ++ after)
    (hgap : '\n' ∈ gap) (htext : '\n' ∉ text) :
    ∃ rest, gap = text ++ rest ∧ after = rest ++ cs := by
  obtain ⟨inner, rfl, -⟩ | ⟨rest, hrest, hafter⟩ := List.append_eq_append_iff.1 h
  · exact absurd (List.mem_append_left inner hgap) htext
  · exact ⟨rest, hrest, hafter⟩

/-- A piece of a line that does not end in a blank stands in both texts. -/
theorem SameTail.append_inv {text after : List Char} (h : SameTail (text ++ after) ds)
    (hline : '\n' ∉ text) (hlast : ∀ c ∈ text.getLast?, isBlank c = false) :
    ∃ ds', ds = text ++ ds' ∧ SameTail after ds' := by
  induction text generalizing ds with
  | nil => exact ⟨ds, rfl, h⟩
  | cons c text ih =>
    have hend : ¬ AreBlank (c :: text) := by
      intro hblank
      have hmem := List.getLast_mem (List.cons_ne_nil c text)
      have hsolid := hlast _ (List.getLast?_eq_some_getLast (List.cons_ne_nil c text))
      rw [hblank _ hmem] at hsolid
      cases hsolid
    generalize hleft : c :: text ++ after = left at h
    cases h with
    | last hcs _ =>
      subst hleft
      exact absurd (areBlank_append.1 hcs).1 hend
    | keep _ h =>
      cases hleft
      have hline' : '\n' ∉ text := fun hmem => hline (List.mem_cons_of_mem c hmem)
      have hlast' : ∀ d ∈ text.getLast?, isBlank d = false := fun d hd => by
        refine hlast d ?_
        rw [List.getLast?_cons, Option.mem_def.1 hd]
        rfl
      obtain ⟨ds', rfl, htail⟩ := ih h hline' hlast'
      exact ⟨ds', rfl, htail⟩
    | «break» hgap _ _ =>
      obtain ⟨rest, rfl, -⟩ := exists_rest_of_append_eq hleft.symm hgap.mem hline
      exact absurd (areBlank_append.1 hgap.areBlank).1 hend

/-- The rest of a line may end in other blanks. -/
theorem SameTail.exists_line {body after : List Char} (h : SameTail (body ++ after) ds)
    (hbody : '\n' ∉ body) (hafter : ∀ c ∈ after.head?, c = '\n') :
    ∃ body' after', ds = body' ++ after' ∧ '\n' ∉ body' ∧ (∀ c ∈ after'.head?, c = '\n') ∧
      SameLines after after' := by
  have hstop (text : List Char) : ∃ line rest, text = line ++ rest ∧ '\n' ∉ line ∧
      ∀ c ∈ rest.head?, c = '\n' := by
    obtain ⟨line, rest, htext, hline, hrest⟩ := Token.exists_stop (· != '\n') text
    exact ⟨line, rest, htext, fun hmem => absurd (hline _ hmem) (by decide), by simpa using hrest⟩
  generalize hleft : body ++ after = left at h
  induction h generalizing body with
  | @last cs ds hcs hds =>
    subst hleft
    obtain ⟨line, rest, rfl, hline, hrest⟩ := hstop ds
    have hblank := (areBlank_append.1 hcs).2
    exact ⟨line, rest, rfl, hline, hrest,
      (SameTail.last hblank (areBlank_append.1 hds).2).sameLines⟩
  | @keep c cs ds htail ih =>
    cases body with
    | nil =>
      rw [List.nil_append] at hleft
      subst hleft
      exact ⟨[], c :: ds, rfl, List.not_mem_nil, hafter, (SameTail.keep c htail).sameLines⟩
    | cons d body =>
      cases hleft
      have hc : '\n' ≠ c := fun hc => hbody (hc ▸ List.mem_cons_self)
      obtain ⟨body', after', rfl, hbody', hafter', hlines⟩ :=
        ih (fun hmem => hbody (List.mem_cons_of_mem c hmem)) rfl
      exact ⟨c :: body', after', rfl, List.not_mem_cons_of_ne_of_not_mem hc hbody', hafter',
        hlines⟩
  | @«break» gap gap' cs ds hgap hgap' htail _ =>
    obtain ⟨rest, rfl, rfl⟩ := exists_rest_of_append_eq hleft.symm hgap.mem hbody
    obtain ⟨line, rest', rfl, hline, hrest'⟩ := hstop gap'
    refine ⟨line, rest' ++ ds, by rw [List.append_assoc], hline, ?_,
      .intro (areBlank_append.1 hgap.areBlank).2 (areBlank_append.1 hgap'.areBlank).2 htail⟩
    cases rest' with
    | nil => exact absurd hgap'.mem (by simpa using hline)
    | cons c rest' => simpa using hrest'

end Text

namespace Token

open Text

/-! ## Comments over several lines -/

theorem isOpen_append {gap body : List Char} (hgap : AreBlank gap) (h : IsOpen body) :
    IsOpen (gap ++ body) := by
  induction gap with
  | nil => exact h
  | cons c gap ih =>
    obtain ⟨hc, hrest⟩ := areBlank_cons.1 hgap
    refine isOpen_cons.2 ⟨?_, ih hrest⟩
    rintro ⟨rfl, -⟩
    cases hc

/-- No mark that closes a comment is made or lost, because its two characters are no blanks and
stand side by side. -/
theorem exists_close {body after ds : List Char}
    (h : SameTail (body ++ '*' :: '/' :: after) ds) (hopen : IsOpen body) :
    ∃ body' after', ds = body' ++ '*' :: '/' :: after' ∧ IsOpen body' ∧
      (body'.head? = some '/' → body.head? = some '/') ∧ SameTail after after' := by
  generalize hleft : body ++ '*' :: '/' :: after = left at h
  induction h generalizing body with
  | last hcs _ =>
    subst hleft
    exact absurd (hcs '*' (by simp)) (by decide)
  | @keep c cs ds htail ih =>
    cases body with
    | nil =>
      cases hleft
      obtain ⟨after', rfl, hafter⟩ := htail.cons_left (by decide)
      exact ⟨[], after', rfl, isOpen_nil, nofun, hafter⟩
    | cons d body =>
      cases hleft
      obtain ⟨hmark, hrest⟩ := isOpen_cons.1 hopen
      obtain ⟨body', after', rfl, hopen', hhead, hafter⟩ := ih hrest rfl
      exact ⟨c :: body', after', rfl, isOpen_cons.2 ⟨fun h => hmark ⟨h.1, hhead h.2⟩, hopen'⟩,
        id, hafter⟩
  | @«break» gap gap' cs ds hgap hgap' htail ih =>
    obtain ⟨inner, rfl, rfl⟩ :
        ∃ inner, body = gap ++ inner ∧ cs = inner ++ '*' :: '/' :: after := by
      obtain ⟨rest, rfl, hrest⟩ | hinner := List.append_eq_append_iff.1 hleft
      · cases rest with
        | nil => exact ⟨[], by simp, hrest.symm⟩
        | cons d rest =>
          obtain rfl : '*' = d := (List.cons.inj hrest).1
          exact absurd (hgap.areBlank '*' (by simp)) (by decide)
      · exact hinner
    have hinner : IsOpen inner := fun hmark =>
      hopen (hmark.trans (List.suffix_append gap inner).isInfix)
    obtain ⟨body', after', rfl, hopen', -, hafter⟩ := ih hinner rfl
    refine ⟨gap' ++ body', after', by rw [List.append_assoc], isOpen_append hgap'.areBlank hopen',
      fun hhead => ?_, hafter⟩
    cases gap' with
    | nil => cases hgap'.mem
    | cons d gap' =>
      cases hhead
      exact absurd (hgap'.areBlank '/' List.mem_cons_self) (by decide)

/-! ## Tokens before other blanks -/

theorem digitCount_cons_ne_zero {d : Char} (hd : isAsciiDigit d = true) (cs : List Char) :
    digitCount (d :: cs) ≠ 0 := by
  simp [digitCount, hd]

theorem fractionLength_of_sameTail {after next : List Char} (h : SameTail after next)
    (hafter : fractionLength after = 0) : fractionLength next = 0 := by
  obtain hzero | ⟨digits, rest, rfl, hne, hdigits, -⟩ := fraction_cases next
  · exact hzero
  · obtain ⟨d, digits, rfl⟩ := List.exists_cons_of_ne_nil hne
    have hd := hdigits d List.mem_cons_self
    obtain ⟨cs, rfl, htail⟩ := h.cons_right (by decide)
    obtain ⟨cs, rfl, -⟩ := htail.cons_right (isBlank_of_isAsciiDigit hd)
    rw [fractionLength, if_neg (digitCount_cons_ne_zero hd cs)] at hafter
    omega

theorem exponentLength_of_sameTail {after next : List Char} (h : SameTail after next)
    (hafter : exponentLength after = 0) : exponentLength next = 0 := by
  obtain hzero | ⟨e, sign, digits, rest, rfl, he, hsign, hne, hdigits, -⟩ := exponent_cases next
  · exact hzero
  · obtain ⟨d, digits, rfl⟩ := List.exists_cons_of_ne_nil hne
    have hd := hdigits d List.mem_cons_self
    obtain ⟨cs, rfl, htail⟩ := h.cons_right (by rcases he with rfl | rfl <;> decide)
    obtain ⟨cs, rfl⟩ : ∃ cs', cs = sign ++ d :: cs' := by
      rcases hsign with rfl | rfl | rfl
      · obtain ⟨cs, rfl, -⟩ := htail.cons_right (isBlank_of_isAsciiDigit hd)
        exact ⟨cs, rfl⟩
      all_goals
        obtain ⟨cs, rfl, hrest⟩ := htail.cons_right (by decide)
        obtain ⟨cs, rfl, -⟩ := hrest.cons_right (isBlank_of_isAsciiDigit hd)
        exact ⟨cs, rfl⟩
    have hhead : ∀ c ∈ (d :: cs).head?, c ≠ '+' ∧ c ≠ '-' := by
      rintro _ ⟨⟩
      constructor <;> rintro rfl <;> exact absurd hd (by decide)
    rw [exponentLength_cons he hsign fun _ => hhead,
      if_neg (digitCount_cons_ne_zero hd cs)] at hafter
    omega

theorem IsNumeral.of_sameTail {digits fraction exponent after next : List Char}
    (h : IsNumeral digits fraction exponent after) (hnext : SameTail after next) :
    IsNumeral digits fraction exponent next where
  isDigits := h.isDigits
  isFraction := h.isFraction
  isPointed := h.isPointed
  isExponent := h.isExponent
  noDigit := hnext.forall_head (fun d hd => by
    rw [Bool.eq_false_iff]
    intro hdigit
    rw [isBlank_of_isAsciiDigit hdigit] at hd
    cases hd) h.noDigit
  noFraction hfraction hexponent :=
    fractionLength_of_sameTail hnext (h.noFraction hfraction hexponent)
  noExponent hexponent := exponentLength_of_sameTail hnext (h.noExponent hexponent)

theorem ne_of_isBlank {c d : Char} (hd : isBlank d = true) (hc : isBlank c = false) : d ≠ c := by
  rintro rfl
  rw [hd] at hc
  cases hc

theorem pair_not_mem_of_isBlank (c : Char) {d : Char} (hd : isBlank d = true) :
    [c, d] ∉ pairOperators := by
  have hall : pairOperators.all (fun pair => pair.all fun e => !isBlank e) = true := by decide
  intro hmem
  have hpair := List.all_eq_true.1 (List.all_eq_true.1 hall _ hmem) d (by simp)
  simp [hd] at hpair

theorem IsLexeme.of_sameTail {text after next : List Char} {kind : Kind} {value : Option String}
    (h : IsLexeme text after (some kind) value) (hkind : kind ≠ .error)
    (hnext : SameTail after next) : IsLexeme text next (some kind) value := by
  cases h with
  | openComment => exact absurd rfl hkind
  | word hblank hword hcs hafter =>
    exact .word hblank hword hcs
      (hnext.forall_head (fun _ hd => Syntax.isWordChar_of_isBlank hd) hafter)
  | number hdigit hnumeral => exact .number hdigit (hnumeral.of_sameTail hnext)
  | string hbody => exact .string hbody
  | openString => exact absurd rfl hkind
  | pair hmem => exact .pair hmem
  | @single c _ hmem hafter =>
    refine .single hmem (hnext.forall_head (fun d hd => ?_) hafter)
    have hslash : d ≠ '/' := ne_of_isBlank hd (by decide)
    have hstar : d ≠ '*' := ne_of_isBlank hd (by decide)
    exact ⟨pair_not_mem_of_isBlank c hd, by simp [hslash], by simp [hstar]⟩
  | mark hmem => exact .mark hmem
  | stray => exact absurd rfl hkind

/-- What the ends of a token are, if it lies on one line. -/
structure IsSolid (text : List Char) : Prop where
  head : ∃ c cs, text = c :: cs ∧ isBlank c = false
  line : '\n' ∉ text
  last : ∀ c ∈ text.getLast?, isBlank c = false

theorem isSolid_of_forall {c : Char} {cs : List Char} (h : ∀ d ∈ c :: cs, isBlank d = false) :
    IsSolid (c :: cs) where
  head := ⟨c, cs, rfl, h c List.mem_cons_self⟩
  line hmem := absurd (h '\n' hmem) (by decide)
  last d hd := h d (List.mem_of_getLast? hd)

theorem IsLexeme.isSolid {text after : List Char} {kind : Kind} {value : Option String}
    (h : IsLexeme text after (some kind) value) (hkind : kind ≠ .error)
    (hstring : kind = .string → '\n' ∉ text) : IsSolid text := by
  cases h with
  | openComment => exact absurd rfl hkind
  | word hblank _ hcs _ =>
    exact isSolid_of_forall (List.forall_mem_cons.2
      ⟨hblank, fun d hd => Syntax.isBlank_of_isWordChar (hcs d hd)⟩)
  | number hdigit h =>
    refine isSolid_of_forall (List.forall_mem_cons.2
      ⟨isBlank_of_isAsciiDigit hdigit, List.forall_mem_append.2
        ⟨fun d hd => isBlank_of_isAsciiDigit (h.isDigits d hd), List.forall_mem_append.2
          ⟨fun d hd => isBlank_of_isNumeric (h.isFraction.isNumeric d hd),
            fun d hd => isBlank_of_isNumeric (h.isExponent.isNumeric d hd)⟩⟩⟩)
  | @string body _ _ =>
    refine ⟨⟨'"', body ++ ['"'], rfl, by decide⟩, hstring rfl, fun c hc => ?_⟩
    rw [← List.cons_append, List.getLast?_concat] at hc
    cases hc
    rfl
  | openString => exact absurd rfl hkind
  | @pair c d _ hmem =>
    have hall : pairOperators.all (fun pair => pair.all fun e => !isBlank e) = true := by decide
    refine isSolid_of_forall fun e he => ?_
    simpa using List.all_eq_true.1 (List.all_eq_true.1 hall _ hmem) e he
  | single hmem =>
    exact isSolid_of_forall (List.forall_mem_singleton.2 (of_mem_singleOperators hmem).1)
  | mark hmem =>
    exact isSolid_of_forall (List.forall_mem_singleton.2 (of_mem_punctuation hmem).1)
  | stray => exact absurd rfl hkind

/-! ## Whole texts -/

theorem IsCut.of_blank {before cs : List Char} {ts : List Token} (hbefore : AreBlank before)
    {p : Position} (h : IsCut (p.after before) cs ts) : IsCut p (before ++ cs) ts := by
  induction before generalizing p with
  | nil => exact h
  | cons c before ih =>
    obtain ⟨hc, hrest⟩ := areBlank_cons.1 hbefore
    exact @IsCut.gap p [c] (before ++ cs) none ts (.blank hc) (ih hrest h)

/-- A text without broken tokens and without line feeds in its strings has its tokens again,
wherever it starts, if only the blanks around its lines are changed. -/
theorem IsCut.exists_of_sameLines {p : Position} {cs : List Char} {ts : List Token}
    (h : IsCut p cs ts)
    (hts : ∀ t ∈ ts, t.kind ≠ .error ∧ (t.kind = .string → '\n' ∉ t.text.toList))
    {ds : List Char} (hds : SameLines cs ds) (q : Position) :
    ∃ us, IsCut q ds us ∧ us.map Token.content = ts.map Token.content := by
  induction h generalizing ds q with
  | done p =>
    refine ⟨[eofAt (q.after ds)], ?_, rfl⟩
    simpa using IsCut.of_blank hds.areBlank (.done (q.after ds))
  | @gap p text after value ts h _ ih =>
    cases h with
    | blank hc => exact ih hts (hds.of_blank hc) q
    | lineComment hbody hafter =>
      obtain ⟨before, ds, rfl, hbefore, hslash⟩ := hds.exists_tail (by decide)
      obtain ⟨ds, rfl, htail⟩ := hslash.cons_left (by decide)
      obtain ⟨body', after', rfl, hbody', hafter', hlines⟩ := htail.exists_line hbody hafter
      obtain ⟨us, hus, hcontent⟩ := ih hts hlines ((q.after before).after ('/' :: '/' :: body'))
      exact ⟨us, .of_blank hbefore (.gap (.lineComment hbody' hafter') hus), hcontent⟩
    | @blockComment body _ hopen =>
      obtain ⟨before, ds, rfl, hbefore, hstar⟩ := hds.exists_tail (by decide)
      obtain ⟨ds, rfl, htail⟩ := hstar.cons_left (by decide)
      have hbody : SameTail (body ++ '*' :: '/' :: after) ds := by simpa using htail
      obtain ⟨body', after', rfl, hopen', -, hafter⟩ := exists_close hbody hopen
      obtain ⟨us, hus, hcontent⟩ := ih hts hafter.sameLines
        ((q.after before).after ('/' :: '*' :: (body' ++ ['*', '/'])))
      have hcut := IsCut.of_blank hbefore (.gap (.blockComment hopen') hus)
      exact ⟨us, by simpa using hcut, hcontent⟩
  | @token p text after kind value ts h _ ih =>
    obtain ⟨ht, hrest⟩ := List.forall_mem_cons.1 hts
    rw [String.toList_ofList] at ht
    have hsolid := h.isSolid ht.1 ht.2
    obtain ⟨c, cs, rfl, hc⟩ := hsolid.head
    obtain ⟨before, ds, rfl, hbefore, htail⟩ := hds.exists_tail hc
    obtain ⟨next, hnext, hafter⟩ := (SameTail.keep c htail).append_inv hsolid.line hsolid.last
    obtain ⟨us, hus, hcontent⟩ := ih hrest hafter.sameLines ((q.after before).after (c :: cs))
    have hcut := IsCut.of_blank hbefore (.token (h.of_sameTail ht.1 hafter) hus)
    exact ⟨_, hnext ▸ hcut, by simp [content, hcontent]⟩

end Token

namespace Editor

open Text Token

theorem sameLines_reindent (source : String) :
    SameLines source.toList (reindent source).toList := by
  have hlines := sameLines_of_map_trim (splitAt_ne_nil '\n' source.toList)
    (map_trim_reindentLines 0 (splitAt '\n' source.toList)).symm
  rwa [intercalate_splitAt, ← lines_reindent, intercalate_splitAt] at hlines

theorem content_scan_reindent {source : String}
    (h : ∀ t ∈ scan source, t.kind ≠ .error ∧ (t.kind = .string → '\n' ∉ t.text.toList)) :
    (scan (reindent source)).map Token.content = (scan source).map Token.content := by
  obtain ⟨us, hus, hcontent⟩ :=
    (isCut_scan source).exists_of_sameLines h (sameLines_reindent source) .start
  rwa [scan_eq_iff.2 hus]

/-- Reindenting a text without broken tokens and without line feeds in its strings keeps the
kind, the text and the value of every token. It keeps the program up to places and the length of
the text, and what is no program is rejected for the same cause. -/
theorem reindent_keeps_program {source : String}
    (h : ∀ t ∈ scan source, t.kind ≠ .error ∧ (t.kind = .string → '\n' ∉ t.text.toList)) :
    (scan (reindent source)).map Token.content = (scan source).map Token.content ∧
    ((∃ p p', Syntax.parse (reindent source) = .ok p ∧ Syntax.parse source = .ok p' ∧
      p.unplaced = p'.unplaced) ∨
    ∃ e e', Syntax.parse (reindent source) = .error (.error e) ∧
      Syntax.parse source = .error (.error e') ∧ SameCause e.cause e'.cause) := by
  have hcontent := content_scan_reindent h
  refine ⟨hcontent, ?_⟩
  obtain ⟨p, p', hp, hp', halike⟩ | ⟨e, e', he, he', halike⟩ :=
    Syntax.parse_alike_of_content_eq hcontent
  · exact .inl ⟨p, p', hp, hp', halike.unplaced_eq⟩
  · exact .inr ⟨e, e', he, he', halike.sameCause⟩

/-- Lines with several kinds of blanks at their ends, a comment over two of them, and a brace at
the end of a comment. -/
def raggedSource : String :=
  "fn main() \x7b \r\n\tlet a = \"b  c\"; // d \x7b\u00a0\n\n     /* e \n * f */ print(a);\n  \x7d \u2003"

theorem reindent_keeps_program_raggedSource :
    (∀ t ∈ scan raggedSource, t.kind ≠ .error ∧ (t.kind = .string → '\n' ∉ t.text.toList)) ∧
    reindent raggedSource ≠ raggedSource ∧
    (scan (reindent raggedSource)).map Token.content = (scan raggedSource).map Token.content ∧
    ((∃ p p', Syntax.parse (reindent raggedSource) = .ok p ∧ Syntax.parse raggedSource = .ok p' ∧
      p.unplaced = p'.unplaced) ∨
    ∃ e e', Syntax.parse (reindent raggedSource) = .error (.error e) ∧
      Syntax.parse raggedSource = .error (.error e') ∧ SameCause e.cause e'.cause) := by
  have h : ∀ t ∈ scan raggedSource,
      t.kind ≠ .error ∧ (t.kind = .string → '\n' ∉ t.text.toList) := by decide +kernel
  exact ⟨h, by decide +kernel, reindent_keeps_program h⟩

end Editor

end Orus
