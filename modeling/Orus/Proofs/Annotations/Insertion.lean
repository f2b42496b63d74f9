import Orus.Proofs.Annotations.Slots
import Orus.Proofs.Layout.Parsing
import Orus.Proofs.Readings.Ends

/-! # Types change nothing

One stream is another with a type inserted at a place for it. Before the declaration with
that place both are read in parallel. The declaration brings the cursors together again, as
the type is read up to its end; from there on the streams are one.
-/

namespace Orus.Syntax

open Cursor Grammar Comparison

structure IsInsertion (mark : String) (levels : Nat) (slot inserted body : List Token) : Prop where
  isSlot : IsSlot mark slot
  isKeyword : ∀ t ∈ slot.head?, t.kind = .keyword
  isPlain : ∀ t ∈ slot ++ inserted, t.IsPlain
  isType : ∃ t ts, inserted = t :: ts ∧ t.Is mark ∧ IsTypeOf levels ts
  nonempty : body ≠ []
  unmarked : (ofList body).sees [mark] = false
  less : (ofList body).sees ["<"] = true → (ofList body).IsAtLess

/-- Cursors before a place with and without a type, or on one stream. -/
def IsInserted (slot inserted body : List Token) (c c' : Cursor) : Prop :=
  c' = c ∨ ∃ before, c = ofList (before ++ (slot ++ body)) ∧
    c' = ofList (before ++ (slot ++ (inserted ++ body)))

def IsAtSlot (slot inserted body : List Token) (c c' : Cursor) : Prop :=
  c = ofList (slot ++ body) ∧ c' = ofList (slot ++ (inserted ++ body))

/-- A stream without and with a type. If the first is refused, nothing is said. -/
def Comparison.insertion (slot inserted body : List Token) : Comparison :=
  exact (IsInserted slot inserted body) (fun _ => True) (IsAtSlot slot inserted body) IsAtLess

variable {mark : String} {levels : Nat} {slot inserted body : List Token}

/-! ## Before the declaration -/

theorem IsSlot.exists_word (h : IsSlot mark slot) :
    ∃ word rest, slot = word :: rest ∧ ∃ text ∈ openings, word.Is text := by
  cases h with
  | letName hword | constName hword | parameter hword | result hword =>
    exact ⟨_, _, rfl, _, by decide, hword⟩

theorem IsSlot.mark_mem (h : IsSlot mark slot) : mark ∈ Token.fixedTexts := by
  cases h <;> decide

theorem moveAlike_insertion (h : IsInsertion mark levels slot inserted body) (t : Token)
    (before : List Token) :
    MoveAlike (IsInserted slot inserted body) ⟨t, before ++ (slot ++ body)⟩
      ⟨t, before ++ (slot ++ (inserted ++ body))⟩ := by
  obtain ⟨word, rest, rfl, -⟩ := h.isSlot.exists_word
  cases before with
  | nil =>
    have hword : word.kind ≠ .error := by rw [h.isKeyword word rfl]; exact nofun
    exact .inr ⟨_, _, if_neg hword, if_neg hword, .inr ⟨[], rfl, rfl⟩⟩
  | cons u us =>
    by_cases hu : u.kind = .error
    · exact .inl ⟨_, if_pos hu, if_pos hu⟩
    · exact .inr ⟨_, _, if_neg hu, if_neg hu, .inr ⟨u :: us, rfl, rfl⟩⟩

theorem isLawful_insertion (h : IsInsertion mark levels slot inserted body) :
    (insertion slot inserted body).IsLawful := by
  obtain ⟨word, rest, rfl, text, htext, hword⟩ := h.isSlot.exists_word
  refine isLawful_exact ?_ ?_ ?_ (fun h => h) fun _ => trivial
  · rintro c c' (rfl | ⟨_ | ⟨t, before⟩, rfl, rfl⟩) <;> rfl
  · rintro _ _ ⟨rfl, rfl⟩
    exact ⟨h.isKeyword word rfl, hword.text_eq ▸ htext⟩
  · rintro c c' (rfl | ⟨_ | ⟨t, before⟩, rfl, rfl⟩) hparting
    · exact agree_advance_exact rfl (.inl rfl) (moveAlike_self (fun _ => .inl rfl) _)
    · exact absurd ⟨rfl, rfl⟩ hparting
    · exact agree_advance_exact rfl (.inr ⟨t :: before, rfl, rfl⟩) (moveAlike_insertion h t before)

/-! ## Up to the place and over the type -/

theorem IsInsertion.opens (h : IsInsertion mark levels slot inserted body) :
    Opens (inserted ++ body) := by
  obtain ⟨t, ts, rfl, ht, -⟩ := h.isType
  exact opens_of_is ht (h.isPlain t (by simp)) h.isSlot.mark_mem _

theorem IsInsertion.optionalAscription_eq (h : IsInsertion mark levels slot inserted body)
    (hbody : Opens body) (hless : (ofList body).sees ["<"] = false) (n : Nat) :
    optionalAscription (ofDepth (n + levels)) mark (ofList (inserted ++ body)) =
      .ok ((), ofList body) := by
  obtain ⟨t, ts, rfl, ht, hts⟩ := h.isType
  rw [List.cons_append, hts.optionalAscription_eq (fun u hu => h.isPlain u (by simp [hu])) ht hbody
    hless, if_pos (Nat.le_add_left levels n)]

theorem block_of_unseen {c : Cursor} (n : Nat) (inLoop : Bool) (h : c.sees ["\x7b"] = false) :
    ∃ f, (ofDepth n).block inLoop c = .error f := by
  cases n with
  | zero => exact ⟨_, rfl⟩
  | succ n =>
    obtain ⟨f, hf⟩ := consume_of_unseen h
    exact ⟨f, bind_eq_of_error hf⟩

theorem declared_of_isAtLess {g : Grammar} {c : Cursor} (hc : c.IsAtLess) (keyword : Token)
    (name : Name) (isMutable : Bool) :
    (∃ f, declared g keyword name isMutable c = .error f) ∨
      ∃ decl, declared g keyword name isMutable c = .ok (decl, c) := by
  have hequals : c.sees ["="] = false := hc.sees_eq_false (by decide)
  have hinitializer : initializer g keyword c = (if keyword.text = "const" ∨ c.sees ["="] = true
      then consume "=" >>= fun _ => g.expression else pure (.nilLiteral keyword.mark)) c := rfl
  rw [hequals] at hinitializer
  split at hinitializer
  · obtain ⟨f, hf⟩ := consume_of_unseen hequals
    exact .inl ⟨f, bind_eq_of_error (hinitializer.trans (bind_eq_of_error hf))⟩
  · have hsemicolon : c.sees [";"] = false := hc.sees_eq_false (by decide)
    refine .inr ⟨.letDecl name (.nilLiteral keyword.mark) isMutable keyword.mark, ?_⟩
    rw [declared, bind_eq_of_ok hinitializer, bind_eq_of_ok (accept_of_unseen hsemicolon)]
    rfl

section Declarations

variable {n : Nat} (hg : (insertion slot inserted body).Grammars (ofDepth n) (ofDepth (n + levels)))
include hg

theorem follows_letRule_insertion (h : IsInsertion ":" levels slot inserted body) (word : Token)
    (isMutable : Bool) {name : Token} (hname : name.kind = .ident)
    (hrule : ∀ g after, letRule g (ofList (slot ++ after)) =
      (consumeIdent "a variable name" >>= fun name => optionalAscription g ":" >>= fun _ =>
        declared g word name.name isMutable) (ofList (name :: after))) :
    (insertion slot inserted body).Follows Eq (letRule (ofDepth n))
      (letRule (ofDepth (n + levels))) (ofList (slot ++ body))
        (ofList (slot ++ (inserted ++ body))) ∨
      (insertion slot inserted body).EndsLost (letRule (ofDepth n)) (ofList (slot ++ body)) := by
  unfold Follows EndsLost
  rw [hrule, hrule]
  by_cases hbody : Opens body
  · rw [bind_eq_of_ok (consumeIdent_ofList hname hbody),
      bind_eq_of_ok (optionalAscription_of_unseen h.unmarked)]
    -- `<` would be taken for the start of type arguments, but no statement goes on with it
    by_cases hless : (ofList body).sees ["<"] = true
    · obtain ⟨f, hf⟩ | ⟨decl, hdecl⟩ := declared_of_isAtLess (g := ofDepth n) (h.less hless) word
        name.name isMutable
      · rw [hf]
        exact .inl (.excused _ trivial)
      · exact .inr ⟨decl, _, hdecl, h.less hless⟩
    · rw [bind_eq_of_ok (consumeIdent_ofList hname h.opens), bind_eq_of_ok
        (h.optionalAscription_eq hbody (Bool.eq_false_iff.2 hless) n)]
      exact .inl (follows_declared (isLawful_insertion h) hg (.inl rfl) ⟨rfl, .refl _⟩ _ _)
  · obtain ⟨f, hf⟩ := consumeIdent_of_not_opens "a variable name" hname h.nonempty hbody
    rw [bind_eq_of_error hf]
    exact .inl (.excused _ trivial)

/-- The parameters come together behind the type, or end where the first cannot go on. -/
theorem follows_parameters_insertion (h : IsInsertion ":" levels slot inserted body) {param : Token}
    (hparam : param.kind = .ident) (hplain : param.IsPlain) (done : List Name) :
    (insertion slot inserted body).Follows Eq (parameters (ofDepth n) done)
      (parameters (ofDepth (n + levels)) done) (ofList (param :: body))
        (ofList (param :: (inserted ++ body))) ∨
      (insertion slot inserted body).EndsLost (parameters (ofDepth n) done)
        (ofList (param :: body)) := by
  have hclose (ts : List Token) : (ofList (param :: ts)).sees [")"] = false :=
    unseen_ofList (by simpa using text_ne_of_ident hparam hplain (by decide : ")" ∈ _)) ts
  by_cases hbody : Opens body
  · have hitem : parameterRule (ofDepth n) (ofList (param :: body)) =
        .ok (param.name, ofList body) := by
      rw [parameterRule_of_name hparam hbody,
        bind_eq_of_ok (optionalAscription_of_unseen h.unmarked)]
      rfl
    unfold Follows EndsLost
    rw [parameters_of_ok (isSound_ofDepth n) (hclose body) hitem]
    by_cases hless : (ofList body).sees ["<"] = true
    · have hcomma : (ofList body).sees [","] = false := (h.less hless).sees_eq_false (by decide)
      rw [accept_bind_of_unseen hcomma]
      exact .inr ⟨_, _, rfl, h.less hless⟩
    · have hitem' : parameterRule (ofDepth (n + levels)) (ofList (param :: (inserted ++ body))) =
          .ok (param.name, ofList body) := by
        rw [parameterRule_of_name hparam h.opens,
          bind_eq_of_ok (h.optionalAscription_eq hbody (Bool.eq_false_iff.2 hless) n)]
        rfl
      rw [parameters_of_ok (isSound_ofDepth (n + levels)) (hclose _) hitem']
      have hX := isLawful_insertion h
      have hcursors : (insertion slot inserted body).cursors (ofList body) (ofList body) := .inl rfl
      exact .inl (follows_accept hX hcursors "," (by decide)
        (fun _ _ _ hd => follows_parameters hX hg hd _) (follows_pure rfl hcursors))
  · obtain ⟨f, hf⟩ := consumeIdent_of_not_opens "a parameter name" hparam h.nonempty hbody
    unfold Follows
    rw [parameters_of_error (hclose body) (bind_eq_of_error hf)]
    exact .inl (.excused _ trivial)

/-- Behind the parameters the type comes before the body. -/
theorem follows_signed_insertion (h : IsInsertion "->" levels slot inserted body) {closed : Token}
    (hclosed : closed.Is ")") (word : Token) (name : Name) (params : List Name) :
    (insertion slot inserted body).Follows Eq (signed (ofDepth n) word name params)
      (signed (ofDepth (n + levels)) word name params) (ofList (closed :: body))
        (ofList (closed :: (inserted ++ body))) := by
  unfold Follows
  by_cases hbody : Opens body
  · rw [signed, bind_eq_of_ok (consume_ofList hclosed hbody),
      bind_eq_of_ok (optionalAscription_of_unseen h.unmarked)]
    by_cases hless : (ofList body).sees ["<"] = true
    · have hbrace : (ofList body).sees ["\x7b"] = false := (h.less hless).sees_eq_false (by decide)
      obtain ⟨f, hf⟩ := block_of_unseen n false hbrace
      rw [bind_eq_of_error hf]
      exact .excused _ trivial
    · rw [signed, bind_eq_of_ok (consume_ofList hclosed h.opens),
        bind_eq_of_ok (h.optionalAscription_eq hbody (Bool.eq_false_iff.2 hless) n)]
      exact (hg.block false (.inl rfl)).bind_pure fun _ _ hbody =>
        (isLawful_insertion h).fnDecl name params hbody rfl
  · obtain ⟨f, hf⟩ := consume_of_not_opens hclosed h.nonempty hbody
    rw [signed, bind_eq_of_error hf]
    exact .excused _ trivial

/-- What follows the parenthesis, for a place among the parameters. -/
theorem follows_parameter_insertion (h : IsInsertion ":" levels slot inserted body) {param : Token}
    {ts : List Token} {names : List Name} (hts : LeadingParameters ts names)
    (hparam : param.kind = .ident) (hplain : ∀ t ∈ ts ++ [param], t.IsPlain) (word : Token)
    (name : Name) :
    (insertion slot inserted body).Follows Eq
      (parameters (ofDepth n) [] >>= signed (ofDepth n) word name)
      (parameters (ofDepth (n + levels)) [] >>= signed (ofDepth (n + levels)) word name)
      (ofList (ts ++ param :: body)) (ofList (ts ++ param :: (inserted ++ body))) := by
  have hX := isLawful_insertion h
  obtain ⟨k, hk⟩ := hts.parameters_eq fun u hu => hplain u (by simp [hu])
  have hfirst := hk n _ [] (opens_of_ident hparam body)
  have hsecond := hk (n + levels) _ [] (opens_of_ident hparam (inserted ++ body))
  unfold Follows
  by_cases hdeep : k ≤ n
  · rw [if_pos hdeep] at hfirst
    rw [if_pos (Nat.le_add_right_of_le hdeep)] at hsecond
    rw [bind_eq_of_eq hfirst, bind_eq_of_eq hsecond]
    obtain hfollows | ⟨params, d, hok, hless⟩ := follows_parameters_insertion hg h hparam
      (hplain param (by simp)) (names.reverse ++ [])
    · refine hfollows.bind fun params _ d d' hparams hd => ?_
      subst hparams
      exact follows_signed hX hg hd rfl name params
    · have hclose : d.sees [")"] = false := (hX.lost hless).sees_eq_false (by decide)
      obtain ⟨f, hf⟩ := consume_of_unseen hclose
      rw [bind_eq_of_ok hok, signed, bind_eq_of_error hf]
      exact .excused _ trivial
  · -- a type of an earlier parameter is nested too deeply for the first reading
    rw [if_neg hdeep] at hfirst
    rw [bind_eq_of_error hfirst]
    exact .excused _ trivial

/-- What follows the parenthesis, for a place behind the parameters. -/
theorem follows_result_insertion (h : IsInsertion "->" levels slot inserted body) {closed : Token}
    {ts : List Token} {names : List Name} (hts : CommaList DerivesParameter ts names)
    (hclosed : closed.Is ")") (hplain : ∀ t ∈ ts ++ [closed], t.IsPlain) (word : Token)
    (name : Name) :
    (insertion slot inserted body).Follows Eq
      (parameters (ofDepth n) [] >>= signed (ofDepth n) word name)
      (parameters (ofDepth (n + levels)) [] >>= signed (ofDepth (n + levels)) word name)
      (ofList (ts ++ closed :: body)) (ofList (ts ++ closed :: (inserted ++ body))) := by
  obtain ⟨k, hk⟩ := parameters_of_commaList hts (fun u hu => hplain u (by simp [hu])) hclosed
    (hplain closed (by simp))
  have hfirst := hk n body []
  have hsecond := hk (n + levels) (inserted ++ body) []
  unfold Follows
  by_cases hdeep : k ≤ n
  · rw [if_pos hdeep] at hfirst
    rw [if_pos (Nat.le_add_right_of_le hdeep)] at hsecond
    rw [bind_eq_of_ok hfirst, bind_eq_of_ok hsecond]
    exact follows_signed_insertion hg h hclosed word name _
  · rw [if_neg hdeep] at hfirst
    rw [bind_eq_of_error hfirst]
    exact .excused _ trivial

end Declarations

/-- The declaration with the place brings the readings together. -/
theorem declares_insertion (h : IsInsertion mark levels slot inserted body) {n : Nat}
    (hg : (insertion slot inserted body).Grammars (ofDepth n) (ofDepth (n + levels))) :
    (insertion slot inserted body).Declares (ofDepth n) (ofDepth (n + levels)) := by
  have hslot := h.isSlot
  have hplain (t : Token) (ht : t ∈ slot) : t.IsPlain := h.isPlain t (List.mem_append_left _ ht)
  constructor
  · rintro _ _ hword ⟨rfl, rfl⟩
    cases hslot with
    | @letName word name mutable hlet hmutable hname =>
      refine follows_letRule_insertion hg h word (!mutable.isEmpty) hname fun g after => ?_
      rw [List.cons_append, List.append_assoc, List.singleton_append]
      exact letRule_of_let hlet hmutable hname (hplain _ (by simp))
        (fun u hu => hplain u (by simp [hu])) g after
    | constName hconst hname =>
      exact follows_letRule_insertion hg h _ false hname (letRule_of_const hconst hname)
    | parameter hfn | result hfn =>
      obtain hword | hword := hword
      · exact absurd (hfn.text_eq.symm.trans hword.text_eq) (by decide)
      · exact absurd (hfn.text_eq.symm.trans hword.text_eq) (by decide)
  · rintro _ _ hword ⟨rfl, rfl⟩
    unfold Follows
    cases hslot with
    | letName hlet => exact absurd (hlet.text_eq.symm.trans hword.text_eq) (by decide)
    | constName hconst => exact absurd (hconst.text_eq.symm.trans hword.text_eq) (by decide)
    | parameter hfn hname hopened hts hparam =>
      simp only [List.cons_append, List.append_assoc, List.nil_append]
      have hopens (after : List Token) := hts.opens (opens_of_ident hparam after)
      rw [functionRule_of_opened hfn hname hopened (hplain _ (by simp)) (hopens _),
        functionRule_of_opened hfn hname hopened (hplain _ (by simp)) (hopens _)]
      exact follows_parameter_insertion hg h hts hparam (fun u hu => hplain u (by simp_all)) _ _
    | result hfn hname hopened hts hclosed =>
      simp only [List.cons_append, List.append_assoc, List.nil_append]
      have hopens (after : List Token) := opens_of_parameters hts
        (opens_of_is hclosed (hplain _ (by simp)) (by decide) after)
      rw [functionRule_of_opened hfn hname hopened (hplain _ (by simp)) (hopens _),
        functionRule_of_opened hfn hname hopened (hplain _ (by simp)) (hopens _)]
      exact follows_result_insertion hg h hts hclosed (fun u hu => hplain u (by simp_all)) _ _

theorem parseTokens_insertion (h : IsInsertion mark levels slot inserted body) {depth : Nat}
    {before : List Token} {p : Node} (hp : parseTokens depth (before ++ (slot ++ body)) = .ok p) :
    parseTokens (depth + levels) (before ++ (slot ++ (inserted ++ body))) = .ok p := by
  obtain ⟨f, hf, -⟩ | heq := parseTokens_of_exact (isLawful_insertion h) levels (.inr trivial)
    (fun _ hg => declares_insertion h hg) depth (moveAlike_insertion h (.eofAt .start) before)
  · cases hf.symm.trans hp
  · exact heq.symm.trans hp

/-! ## Programs -/

/-- Token lists of which the second has a type with so many levels where the first has none.
The places of its tokens may be others. -/
inductive IsAnnotated (levels : Nat) : List Token → List Token → Prop where
  | insert {mark : String} {before slot type after tokens : List Token} {t : Token} :
      IsSlot mark slot → t.Is mark → IsTypeOf levels type → (∀ u ∈ t :: type, u.IsScanned) →
      (∀ u ∈ after.head?, ¬ u.Is mark) →
      List.Forall₂ Token.Alike (before ++ (slot ++ t :: (type ++ after))) tokens →
      IsAnnotated levels (before ++ (slot ++ after)) tokens

theorem isInsertion_of_isScanned {t : Token} {type after : List Token}
    (hslot : IsSlot mark slot) (ht : t.Is mark) (htype : IsTypeOf levels type)
    (hinserted : ∀ u ∈ t :: type, u.IsScanned) (hmark : ∀ u ∈ after.head?, ¬ u.Is mark)
    (hscanned : ∀ u ∈ slot ++ after, u.IsScanned) (q : Position) :
    IsInsertion mark levels slot (t :: type) (after ++ [.eofAt q]) := by
  constructor
  case isSlot => exact hslot
  case isKeyword =>
    obtain ⟨word, rest, rfl, text, htext, hword⟩ := hslot.exists_word
    have hopenings : ∀ text ∈ openings, text ∈ Token.keywords := by decide
    rintro _ ⟨⟩
    exact (hscanned word (by simp)).kind_of_keyword hword (hopenings text htext)
  case isPlain =>
    intro u hu
    obtain hu | hu := List.mem_append.1 hu
    · exact (hscanned u (List.mem_append_left _ hu)).isPlain
    · exact (hinserted u hu).isPlain
  case isType => exact ⟨t, type, rfl, ht, htype⟩
  case nonempty => simp
  case unmarked =>
    rw [Bool.eq_false_iff]
    intro hsees
    cases after with
    | nil => exact (Cursor.is_of_sees_singleton hsees).not_eof rfl
    | cons u us => exact hmark u rfl (Cursor.is_of_sees_singleton hsees)
  case less =>
    intro hsees
    have hless := Cursor.is_of_sees_singleton hsees
    cases after with
    | nil => exact absurd rfl hless.not_eof
    | cons u us => exact ⟨(hscanned u (by simp)).kind_of_less hless, hless.text_eq⟩

theorem parseTokens_of_isAnnotated {depth : Nat} {tokens tokens' : List Token} {p : Node}
    (h : IsAnnotated levels tokens tokens') (hscanned : ∀ t ∈ tokens, t.IsScanned)
    (hp : parseTokens depth tokens = .ok p) :
    ∃ p', parseTokens (depth + levels) tokens' = .ok p' ∧ p.Alike p' := by
  obtain @⟨mark, before, slot, type, after, _, t, hslot, ht, htype, hinserted, hmark, halike⟩ := h
  have hne : before ++ (slot ++ after) ≠ [] := by
    obtain ⟨word, rest, rfl, -⟩ := hslot.exists_word
    simp
  have hne' : tokens' ≠ [] := by
    rintro rfl
    simpa using halike.length_eq
  -- both streams get a token for the end, so that the first goes on after the place
  rw [← parseTokens_append_eof depth hne, List.append_assoc, List.append_assoc] at hp
  rw [← parseTokens_append_eof (depth + levels) hne']
  generalize ((before ++ (slot ++ after)).getLast hne).position = q at hp
  generalize (tokens'.getLast hne').position = q'
  have hinsertion := isInsertion_of_isScanned hslot ht htype hinserted hmark
    (fun u hu => hscanned u (List.mem_append_right _ hu)) q
  have heofs : List.Forall₂ Token.Alike [.eofAt q] [.eofAt q'] := .cons ⟨rfl, rfl, rfl⟩ .nil
  have hagree := agreeParsed_parseTokens (depth + levels) (List.rel_append halike heofs)
  simp only [List.append_assoc, List.cons_append] at hagree
  exact hagree.ok_of_ok (parseTokens_insertion hinsertion hp)

/-- Types are read and forgotten. A program that is accepted is accepted with a type in any
place for one, and is the same tree up to places, if the depth goes up by the levels of the
type; with any other depth it is that tree or nested too deeply. Where no type starts, reading
one fails with an error of the grammar, unless the tokens start with as many open brackets as
there is depth for. Where tokens do, it is the nesting that reading fails for. -/
theorem annotations_ignored :
    (∀ {levels depth : Nat} {tokens tokens' : List Token} {p : Node},
      (∀ t ∈ tokens, t.IsScanned) → IsAnnotated levels tokens tokens' →
      parseTokens depth tokens = .ok p →
      (∀ depth', depth + levels ≤ depth' →
        ∃ p', parseTokens depth' tokens' = .ok p' ∧ p'.unplaced = p.unplaced) ∧
      ∀ depth', (∃ p', parseTokens depth' tokens' = .ok p' ∧ p'.unplaced = p.unplaced) ∨
        parseTokens depth' tokens' = .error (.fault .tooDeep)) ∧
    (∀ (depth : Nat) (tokens : List Token), (∀ ts, ts <+: tokens → ¬ IsType ts) →
      ∃ f, parseType depth tokens = .error f ∧
        IsTypeFailure (∃ ts, ts <+: tokens ∧ IsOpenType depth ts) f) ∧
    ∀ (depth : Nat) (ts after : List Token), IsOpenType depth ts → (∀ t ∈ ts, t.IsPlain) →
      Opens after → parseType depth (ts ++ after) = .error (.fault .tooDeep) := by
  refine ⟨fun {levels depth tokens tokens' p} hscanned hannotated hp => ?_, fun depth tokens =>
    parseType_of_no_type depth, fun depth ts after => parseType_of_isOpenType⟩
  obtain ⟨p', hp', halike⟩ := parseTokens_of_isAnnotated hannotated hscanned hp
  have hdeep (depth' : Nat) (hle : depth + levels ≤ depth') :
      ∃ p', parseTokens depth' tokens' = .ok p' ∧ p'.unplaced = p.unplaced := by
    obtain ⟨more, rfl⟩ := Nat.exists_eq_add_of_le hle
    obtain hf | heq := parseTokens_deeper (depth + levels) more tokens'
    · cases hf.symm.trans hp'
    · exact ⟨p', heq.symm.trans hp', halike.unplaced_eq.symm⟩
  refine ⟨hdeep, fun depth' => ?_⟩
  obtain hf | heq := parseTokens_deeper depth' (depth + levels) tokens'
  · exact .inr hf
  · rw [heq]
    exact .inl (hdeep _ (Nat.le_add_left _ _))

/-- The tokens of `fn half(x`, up to the place for the type of the parameter. -/
def halfTokens : List Token :=
  [⟨.keyword, "fn", .start, none⟩, ⟨.ident, "half", .start, none⟩, ⟨.punct, "(", .start, none⟩,
    ⟨.ident, "x", .start, none⟩]

/-- The tokens of the type `Map<[int], text>`. -/
def mapTokens : List Token :=
  [⟨.ident, "Map", .start, none⟩, ⟨.op, "<", .start, none⟩, ⟨.punct, "[", .start, none⟩,
    ⟨.ident, "int", .start, none⟩, ⟨.punct, "]", .start, none⟩, ⟨.punct, ",", .start, none⟩,
    ⟨.ident, "text", .start, none⟩, ⟨.op, ">", .start, none⟩]

def mainTokens : List Token :=
  [⟨.punct, ")", .start, none⟩, ⟨.punct, "\x7b", .start, none⟩, ⟨.punct, "\x7d", .start, none⟩,
    ⟨.keyword, "fn", .start, none⟩, ⟨.ident, "main", .start, none⟩, ⟨.punct, "(", .start, none⟩,
    ⟨.punct, ")", .start, none⟩, ⟨.punct, "\x7b", .start, none⟩, ⟨.punct, "\x7d", .start, none⟩]

/-- The tokens `[int)`, with the bracket closed by the wrong mark. -/
def crossedTokens : List Token :=
  [⟨.punct, "[", .start, none⟩, ⟨.ident, "int", .start, none⟩, ⟨.punct, ")", .start, none⟩]

theorem not_isType_of_prefix_crossedTokens {ts : List Token} (hts : ts <+: crossedTokens) :
    ¬ IsType ts := by
  intro htype
  cases htype with
  | name ht | generic ht =>
    cases (List.cons_prefix_cons.1 hts).1
    cases ht
  | list _ hinside hclosed =>
    have hrest := (List.cons_prefix_cons.1 hts).2
    cases hinside with
    | name =>
      cases (List.cons_prefix_cons.1 (List.cons_prefix_cons.1 hrest).2).1
      exact absurd hclosed.text_eq (by decide)
    | list hopened =>
      cases (List.cons_prefix_cons.1 hrest).1
      exact absurd hopened.text_eq (by decide)
    | generic _ hopened =>
      cases (List.cons_prefix_cons.1 (List.cons_prefix_cons.1 hrest).2).1
      exact absurd hopened.text_eq (by decide)

theorem not_isOpenType_of_prefix_crossedTokens {ts : List Token} (hts : ts <+: crossedTokens) :
    ¬ IsOpenType 2 ts := by
  intro hopen
  cases hopen with
  | first ht | later ht =>
    cases (List.cons_prefix_cons.1 hts).1
    cases ht
  | list _ hinside =>
    have hrest := (List.cons_prefix_cons.1 hts).2
    cases hinside with
    | list hopened =>
      cases (List.cons_prefix_cons.1 hrest).1
      exact absurd hopened.text_eq (by decide)
    | first _ hopened | later _ hopened =>
      cases (List.cons_prefix_cons.1 (List.cons_prefix_cons.1 hrest).2).1
      exact absurd hopened.text_eq (by decide)

theorem annotations_ignored_mapTokens :
    (∃ p p', parseTokens 1 (halfTokens ++ mainTokens) = .ok p ∧
      parseTokens 4 (halfTokens ++ ⟨.punct, ":", .start, none⟩ :: (mapTokens ++ mainTokens)) =
        .ok p' ∧ p'.unplaced = p.unplaced) ∧
    (∃ issue mark, parseType 2 crossedTokens = .error (.error ⟨.grammar issue, mark⟩)) ∧
    parseType 1 crossedTokens = .error (.fault .tooDeep) := by
  have hscanned : ∀ t ∈ halfTokens ++ mainTokens ++ ⟨.punct, ":", .start, none⟩ :: mapTokens,
      ∃ u ∈ Token.scan "fn half(x: Map<[int], text>) \x7b\x7d fn main() \x7b\x7d",
        u.kind = t.kind ∧ u.text = t.text := by decide +kernel
  have hpart (t : Token) (ht : t ∈ halfTokens ++ mainTokens ++ ⟨.punct, ":", .start, none⟩ ::
      mapTokens) : t.IsScanned := ⟨_, hscanned t ht⟩
  have hslot : IsSlot ":" halfTokens :=
    @IsSlot.parameter _ _ _ _ [] _ ⟨nofun, nofun, rfl⟩ rfl ⟨nofun, nofun, rfl⟩ .nil rfl
  have htypes : AreTypesOf 2 (mapTokens.drop 2).dropLast :=
    @AreTypesOf.cons 2 1 [_, _, _] [_] _ (@IsTypeOf.list 1 _ _ [_] ⟨nofun, nofun, rfl⟩ (.name rfl)
      ⟨nofun, nofun, rfl⟩) ⟨nofun, nofun, rfl⟩ (.last (.name rfl))
  have htype : IsTypeOf 3 mapTokens :=
    .generic rfl ⟨by decide, by decide, rfl⟩ htypes ⟨by decide, by decide, rfl⟩
  have hannotated : IsAnnotated 3 (halfTokens ++ mainTokens)
      (halfTokens ++ ⟨.punct, ":", .start, none⟩ :: (mapTokens ++ mainTokens)) := by
    refine @IsAnnotated.insert 3 ":" [] halfTokens mapTokens mainTokens _ _ hslot
      ⟨by decide, by decide, rfl⟩ htype (fun u hu => hpart u (List.mem_append_right _ hu)) ?_
      (List.forall₂_same.2 fun u _ => ⟨rfl, rfl, rfl⟩)
    rintro _ ⟨⟩ hcolon
    exact absurd hcolon.text_eq (by decide)
  have hok : (parseTokens 1 (halfTokens ++ mainTokens)).isOk = true := by decide +kernel
  refine ⟨?_, ?_, ?_⟩
  · cases hp : parseTokens 1 (halfTokens ++ mainTokens) with
    | error f =>
      rw [hp] at hok
      cases hok
    | ok p =>
      obtain ⟨p', hp', heq⟩ := (annotations_ignored.1
        (fun t ht => hpart t (List.mem_append_left _ ht)) hannotated hp).1 4 (by decide)
      exact ⟨p, p', rfl, hp', heq⟩
  · obtain ⟨f, hf, hfailure⟩ := annotations_ignored.2.1 2 crossedTokens
      fun _ => not_isType_of_prefix_crossedTokens
    cases hfailure with
    | issue issue mark => exact ⟨issue, mark, hf⟩
    | tooDeep hdeep =>
      obtain ⟨ts, hts, hopen⟩ := hdeep
      exact absurd hopen (not_isOpenType_of_prefix_crossedTokens hts)
  · refine annotations_ignored.2.2 1 [⟨.punct, "[", .start, none⟩] crossedTokens.tail
      (.list ⟨nofun, nofun, rfl⟩ .start) ?_ ⟨_, _, rfl, by decide⟩
    intro t ht
    refine (hpart t ?_).isPlain
    rw [List.mem_singleton.1 ht]
    decide

/-- Brackets that are opened and not closed, up to the end of input. -/
def openedTokens (count : Nat) : List Token :=
  List.replicate count ⟨.punct, "[", .start, none⟩ ++ [.eofAt .start]

theorem IsType.exists_ident {ts : List Token} : IsType ts → ∃ t ∈ ts, t.kind = .ident
  | .name ht => ⟨_, List.mem_cons_self, ht⟩
  | .generic ht _ _ _ => ⟨_, List.mem_cons_self, ht⟩
  | .list _ hts _ => by
    obtain ⟨t, ht, hkind⟩ := hts.exists_ident
    exact ⟨t, List.mem_cons_of_mem _ (List.mem_append_left _ ht), hkind⟩

theorem not_isType_of_prefix_openedTokens {count : Nat} {ts : List Token}
    (hts : ts <+: openedTokens count) : ¬ IsType ts := by
  intro htype
  obtain ⟨t, ht, hkind⟩ := htype.exists_ident
  obtain hmem | hmem := List.mem_append.1 (hts.subset ht)
  · rw [List.eq_of_mem_replicate hmem] at hkind
    cases hkind
  · rw [List.mem_singleton.1 hmem] at hkind
    cases hkind

theorem isOpenType_replicate (count : Nat) :
    IsOpenType count (List.replicate count ⟨.punct, "[", .start, none⟩) := by
  induction count with
  | zero => exact .start
  | succ n ih => exact .list ⟨nofun, nofun, rfl⟩ ih

/-- Where no type starts, it is not always an error of the grammar that reading one fails
with. -/
theorem not_parseType_grammar_error :
    ¬ ∀ tokens, (∀ ts, ts <+: tokens → ¬ IsType ts) →
      ∃ issue mark, parseType nestingLimit tokens = .error (.error ⟨.grammar issue, mark⟩) := by
  intro h
  obtain ⟨issue, mark, hissue⟩ :=
    h (openedTokens nestingLimit) fun _ => not_isType_of_prefix_openedTokens
  have hplain : ∀ t ∈ List.replicate nestingLimit (⟨.punct, "[", .start, none⟩ : Token),
      t.IsPlain := by
    intro t ht _
    rw [List.eq_of_mem_replicate ht]
    exact ⟨nofun, nofun⟩
  cases hissue.symm.trans
    (parseType_of_isOpenType (isOpenType_replicate nestingLimit) hplain ⟨_, _, rfl, by decide⟩)

end Orus.Syntax
