import Orus.Proofs.Annotations.Types
import Orus.Proofs.Readings.Rules

/-! # Places where a type may stand

A type may follow the name of a variable, the name of a parameter and the parameters of a
function. The tokens before such a place, from the word that opens the declaration on, are
read the same whatever follows them.
-/

namespace Orus.Syntax

open Cursor Grammar

inductive LeadingParameters : List Token → List Name → Prop where
  | nil : LeadingParameters [] []
  | cons {ts rest : List Token} {comma : Token} {name : Name} {names : List Name} :
      DerivesParameter ts name → comma.Is "," → LeadingParameters rest names →
      LeadingParameters (ts ++ comma :: rest) (name :: names)

/-- The tokens of a declaration up to a place where a type with the given mark may stand. -/
inductive IsSlot : (mark : String) → List Token → Prop where
  | letName {word name : Token} {mutable : List Token} : word.Is "let" →
      IsOptional "mut" mutable → name.kind = .ident → IsSlot ":" (word :: (mutable ++ [name]))
  | constName {word name : Token} : word.Is "const" → name.kind = .ident →
      IsSlot ":" [word, name]
  | parameter {word name opened param : Token} {ts : List Token} {names : List Name} :
      word.Is "fn" → name.kind = .ident → opened.Is "(" → LeadingParameters ts names →
      param.kind = .ident → IsSlot ":" (word :: name :: opened :: (ts ++ [param]))
  | result {word name opened closed : Token} {ts : List Token} {names : List Name} :
      word.Is "fn" → name.kind = .ident → opened.Is "(" → CommaList DerivesParameter ts names →
      closed.Is ")" → IsSlot "->" (word :: name :: opened :: (ts ++ [closed]))

variable {g : Grammar} {c d : Cursor} {ts us after : List Token} {t : Token}

/-! ## Types after a mark -/

theorem optionalAscription_of_unseen {mark : String} (h : c.sees [mark] = false) :
    optionalAscription g mark c = .ok ((), c) :=
  accept_bind_of_unseen h

theorem IsTypeOf.optionalAscription_eq {n : Nat} {mark : String} (h : IsTypeOf n ts)
    (hplain : ∀ u ∈ ts, u.IsPlain) (ht : t.Is mark) (hafter : Opens after)
    (hless : (ofList after).sees ["<"] = false) (depth : Nat) :
    optionalAscription (ofDepth depth) mark (ofList (t :: (ts ++ after))) =
      if n ≤ depth then .ok ((), ofList after) else .error (.fault .tooDeep) := by
  rw [optionalAscription, accept_ofList ht (h.opens hplain after), if_pos rfl]
  exact h.ascription_eq hafter hless hplain depth

/-! ## Variables -/

theorem letRule_of_let {word name : Token} {mutable : List Token} (hword : word.Is "let")
    (hmutable : IsOptional "mut" mutable) (hname : name.kind = .ident) (hplain : name.IsPlain)
    (hplain' : ∀ u ∈ mutable, u.IsPlain) (g : Grammar) (after : List Token) :
    letRule g (ofList (word :: (mutable ++ name :: after))) =
      (consumeIdent "a variable name" >>= fun name => optionalAscription g ":" >>= fun _ =>
        declared g word name.name (!mutable.isEmpty)) (ofList (name :: after)) := by
  have hopens := opens_of_ident hname after
  obtain rfl | ⟨t, ht, rfl⟩ := hmutable
  · have hne := text_ne_of_ident hname hplain (by decide : "mut" ∈ _)
    rw [letRule_eq, List.nil_append, bind_eq_of_ok (advance_ofList hword.not_eof hopens),
      mutability, if_pos hword.text_eq]
    exact accept_ofList_of_ne hne
  · have hopens' := opens_of_is ht (hplain' t (by simp)) (by decide) (name :: after)
    rw [letRule_eq, List.singleton_append, bind_eq_of_ok (advance_ofList hword.not_eof hopens'),
      mutability, if_pos hword.text_eq]
    exact accept_ofList ht hopens

theorem letRule_of_const {word name : Token} (hword : word.Is "const") (hname : name.kind = .ident)
    (g : Grammar) (after : List Token) :
    letRule g (ofList (word :: name :: after)) =
      (consumeIdent "a variable name" >>= fun name => optionalAscription g ":" >>= fun _ =>
        declared g word name.name false) (ofList (name :: after)) := by
  rw [letRule_eq, bind_eq_of_ok (advance_ofList hword.not_eof (opens_of_ident hname after)),
    mutability, if_neg (by rw [hword.text_eq]; decide)]
  rfl

/-! ## Parameters -/

theorem parameters_of_ok (hg : g.IsSound) (hclose : c.sees [")"] = false) {a : Name}
    (hitem : parameterRule g c = .ok (a, d)) (done : List Name) :
    parameters g done c = (accept "," >>= fun isThere =>
      if isThere = true then parameters g (a :: done) else pure (a :: done).reverse) d := by
  have hleft := (reads_parameterRule hg c).left_le hitem
  have hbudget := c.left_lt_budget
  change commaList ")" (parameterRule g) (c.rest.length + 2) done c = _
  rw [commaList, ite_sees, hclose, if_neg Bool.false_ne_true, bind_eq_of_ok hitem]
  unfold budget at hbudget
  exact accept_eq_accept (fun e he => commaList_budget ")" (reads_parameterRule hg) (by omega)
    e.left_lt_budget _) rfl

theorem parameters_of_error (hclose : c.sees [")"] = false) {f : Failure}
    (hitem : parameterRule g c = .error f) (done : List Name) :
    parameters g done c = .error f := by
  change commaList ")" (parameterRule g) (c.rest.length + 2) done c = _
  rw [commaList, ite_sees, hclose, if_neg Bool.false_ne_true, bind_eq_of_error hitem]

theorem parameters_of_ite (hg : g.IsSound) (hclose : c.sees [")"] = false) {a : Name} {f : Failure}
    {P : Prop} [Decidable P] (hitem : parameterRule g c = if P then .ok (a, d) else .error f)
    (done : List Name) :
    parameters g done c = if P then (accept "," >>= fun isThere =>
      if isThere = true then parameters g (a :: done) else pure (a :: done).reverse) d
      else .error f := by
  split
  next h => exact parameters_of_ok hg hclose (hitem.trans (if_pos h)) done
  next h => exact parameters_of_error hclose (hitem.trans (if_neg h)) done

theorem parameters_of_closed (hclose : c.sees [")"] = true) (done : List Name) :
    parameters g done c = .ok (done.reverse, c) := by
  change commaList ")" (parameterRule g) (c.rest.length + 2) done c = _
  rw [commaList, ite_sees, if_pos hclose]
  rfl

theorem parameterRule_of_name (ht : t.kind = .ident) (hafter : Opens after) :
    parameterRule g (ofList (t :: after)) =
      (optionalAscription g ":" >>= fun _ => pure t.name) (ofList after) :=
  bind_eq_of_ok (consumeIdent_ofList ht hafter)

theorem DerivesParameter.parameterRule_eq {name : Name} (h : DerivesParameter ts name)
    (hplain : ∀ u ∈ ts, u.IsPlain) :
    ∃ n, ∀ depth after, Opens after → (ofList after).sees [":"] = false →
      (ofList after).sees ["<"] = false →
      parameterRule (ofDepth depth) (ofList (ts ++ after)) =
        if n ≤ depth then .ok (name, ofList after) else .error (.fault .tooDeep) := by
  obtain @⟨t, _, ht, rfl | ⟨mark, type, hmark, htype, rfl⟩⟩ := h
  · refine ⟨0, fun depth after hafter hcolon _ => ?_⟩
    rw [List.singleton_append, parameterRule_of_name ht hafter,
      bind_eq_of_ok (optionalAscription_of_unseen hcolon), if_pos (Nat.zero_le _)]
    rfl
  · obtain ⟨n, hn⟩ := htype.exists_levels
    refine ⟨n, fun depth after hafter _ hless => ?_⟩
    have hopens := opens_of_is hmark (hplain mark (by simp)) (by decide) (type ++ after)
    rw [List.cons_append, List.cons_append, parameterRule_of_name ht hopens,
      bind_eq_of_ite (hn.optionalAscription_eq (fun u hu => hplain u (by simp [hu])) hmark hafter
        hless depth)]
    rfl

theorem DerivesParameter.opens {name : Name} (h : DerivesParameter ts name) (us : List Token) :
    Opens (ts ++ us) := by
  obtain ⟨ht, -⟩ := h
  exact opens_of_ident ht _

theorem DerivesParameter.unclosed {name : Name} (h : DerivesParameter ts name)
    (hplain : ∀ u ∈ ts, u.IsPlain) (us : List Token) :
    (ofList (ts ++ us)).sees [")"] = false := by
  obtain ⟨ht, -⟩ := h
  have hne := text_ne_of_ident ht (hplain _ (by simp)) (by decide : ")" ∈ _)
  exact unseen_ofList (by simpa using hne) _

theorem DerivesParameter.parameters_eq {name : Name} {comma : Token} (h : DerivesParameter ts name)
    (hcomma : comma.Is ",") (hplain : ∀ u ∈ ts ++ [comma], u.IsPlain) :
    ∃ n, ∀ depth after done, Opens after →
      parameters (ofDepth depth) done (ofList (ts ++ comma :: after)) =
        if n ≤ depth then parameters (ofDepth depth) (name :: done) (ofList after)
        else .error (.fault .tooDeep) := by
  have hparam (u : Token) (hu : u ∈ ts) : u.IsPlain := hplain u (by simp [hu])
  obtain ⟨n, hn⟩ := h.parameterRule_eq hparam
  refine ⟨n, fun depth after done hafter => ?_⟩
  have hopens := opens_of_is hcomma (hplain comma (by simp)) (by decide) after
  have hitem := hn depth (comma :: after) hopens (unseen_of_is hcomma (by decide) _)
    (unseen_of_is hcomma (by decide) _)
  have hclose := h.unclosed hparam (comma :: after)
  rw [parameters_of_ite (isSound_ofDepth depth) hclose hitem, accept_ofList hcomma hafter,
    if_pos rfl]

theorem LeadingParameters.opens {names : List Name} (h : LeadingParameters ts names)
    (hus : Opens us) : Opens (ts ++ us) := by
  cases h with
  | nil => exact hus
  | cons h =>
    rw [List.append_assoc]
    exact h.opens _

theorem LeadingParameters.parameters_eq {names : List Name} (h : LeadingParameters ts names)
    (hplain : ∀ u ∈ ts, u.IsPlain) :
    ∃ n, ∀ depth after done, Opens after →
      parameters (ofDepth depth) done (ofList (ts ++ after)) =
        if n ≤ depth then parameters (ofDepth depth) (names.reverse ++ done) (ofList after)
        else .error (.fault .tooDeep) := by
  induction h with
  | nil => exact ⟨0, fun depth after done _ => by rw [if_pos (Nat.zero_le _)]; rfl⟩
  | @cons ts rest comma name names hparam hcomma hrest ih =>
    obtain ⟨n, hn⟩ := hparam.parameters_eq hcomma fun u hu => hplain u (by grind)
    obtain ⟨m, hm⟩ := ih fun u hu => hplain u (by grind)
    refine ⟨max n m, fun depth after done hafter => ?_⟩
    rw [List.append_assoc, List.cons_append, hn _ _ _ (hrest.opens hafter), hm _ _ _ hafter,
      List.reverse_cons, List.append_assoc, List.singleton_append]
    simp only [Nat.max_le, ite_and]

theorem opens_of_parameters {names : List Name} (h : CommaList DerivesParameter ts names)
    (hus : Opens us) : Opens (ts ++ us) := by
  cases h with
  | nil => exact hus
  | last h => exact h.opens _
  | cons h =>
    rw [List.append_assoc]
    exact h.opens _

theorem parameters_of_commaList {names : List Name} (h : CommaList DerivesParameter ts names)
    (hplain : ∀ u ∈ ts, u.IsPlain) {closed : Token} (hclosed : closed.Is ")")
    (hplain' : closed.IsPlain) :
    ∃ n, ∀ depth after done,
      parameters (ofDepth depth) done (ofList (ts ++ closed :: after)) =
        if n ≤ depth then .ok (done.reverse ++ names, ofList (closed :: after))
        else .error (.fault .tooDeep) := by
  have hsees (after : List Token) : (ofList (closed :: after)).sees [")"] = true :=
    sees_ofList_of_text ⟨hclosed.not_string, hclosed.not_eof⟩ hclosed.text_eq after
  have hopens (after : List Token) : Opens (closed :: after) :=
    opens_of_is hclosed hplain' (by decide) after
  induction h with
  | nil =>
    refine ⟨0, fun depth after done => ?_⟩
    rw [if_pos (Nat.zero_le _), List.append_nil, List.nil_append]
    exact parameters_of_closed (hsees after) done
  | @last ts name hparam =>
    obtain ⟨n, hn⟩ := hparam.parameterRule_eq hplain
    refine ⟨n, fun depth after done => ?_⟩
    have hitem := hn depth (closed :: after) (hopens after) (unseen_of_is hclosed (by decide) _)
      (unseen_of_is hclosed (by decide) _)
    have hclose := hparam.unclosed hplain (closed :: after)
    rw [parameters_of_ite (isSound_ofDepth depth) hclose hitem,
      accept_bind_of_unseen (unseen_of_is hclosed (by decide) after), ← List.reverse_cons]
    rfl
  | @cons ts rest comma name names hparam hcomma hrest ih =>
    obtain ⟨n, hn⟩ := hparam.parameters_eq hcomma fun u hu => hplain u (by grind)
    obtain ⟨m, hm⟩ := ih fun u hu => hplain u (by grind)
    refine ⟨max n m, fun depth after done => ?_⟩
    rw [List.append_assoc, List.cons_append, hn _ _ _ (opens_of_parameters hrest (hopens after)),
      hm, List.reverse_cons, List.append_assoc, List.singleton_append]
    simp only [Nat.max_le, ite_and]

/-! ## Functions -/

theorem functionRule_of_opened {word name opened : Token} (hword : word.Is "fn")
    (hname : name.kind = .ident) (hopened : opened.Is "(") (hplain : opened.IsPlain)
    (hts : Opens ts) (g : Grammar) :
    functionRule g (ofList (word :: name :: opened :: ts)) =
      (parameters g [] >>= fun params => signed g word name.name params) (ofList ts) := by
  have hopens := opens_of_is hopened hplain (by decide) ts
  rw [functionRule_eq, bind_eq_of_ok (consume_ofList hword (opens_of_ident hname _)),
    bind_eq_of_ok (consumeIdent_ofList hname hopens), bind_eq_of_ok (consume_ofList hopened hts)]

end Orus.Syntax
