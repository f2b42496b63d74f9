import Mathlib.Logic.Basic
import Orus.Proofs.Contracts.Parsing
import Orus.Proofs.Readings.Budgets
import Orus.Proofs.Scanning.Kinds

/-! # Reading a type

A type is read up to its end and no further, whatever follows it, as long as that does not
go on with angle brackets and there is depth enough for its nesting. Where no type starts,
reading one fails with an error of the grammar, unless as many brackets are open before the
error as there is depth for.
-/

namespace Orus.Syntax

open Cursor Grammar

variable {α β : Type} {ts us after : List Token} {t : Token}

/-! ## Tokens of a list -/

theorem consume_ofList {text : String} (ht : t.Is text) (hts : Opens ts) :
    consume text (ofList (t :: ts)) = .ok (t, ofList ts) := by
  change (if (ofList (t :: ts)).sees [text] = true then advance else _) _ = _
  rw [if_pos (sees_ofList_of_text ⟨ht.not_string, ht.not_eof⟩ ht.text_eq ts)]
  exact advance_ofList ht.not_eof hts

theorem consumeIdent_ofList {what : String} (ht : t.kind = .ident) (hts : Opens ts) :
    consumeIdent what (ofList (t :: ts)) = .ok (t, ofList ts) := by
  change (if t.kind = .ident then advance else _) _ = _
  rw [if_pos ht]
  exact advance_ofList (by rw [ht]; exact nofun) hts

theorem consumeIdent_of_not_opens (what : String) (ht : t.kind = .ident) (hne : ts ≠ [])
    (hts : ¬ Opens ts) : ∃ f, consumeIdent what (ofList (t :: ts)) = .error f := by
  change ∃ f, (if t.kind = .ident then advance else _) _ = _
  rw [if_pos ht]
  exact advance_of_not_opens (by rw [ht]; exact nofun) hne hts

theorem consume_of_not_opens {text : String} (ht : t.Is text) (hne : ts ≠ [])
    (hts : ¬ Opens ts) : ∃ f, consume text (ofList (t :: ts)) = .error f := by
  change ∃ f, (if (ofList (t :: ts)).sees [text] = true then advance else _) _ = _
  rw [if_pos (sees_ofList_of_text ⟨ht.not_string, ht.not_eof⟩ ht.text_eq ts)]
  exact advance_of_not_opens ht.not_eof hne hts

theorem accept_ofList {text : String} {k : Bool → Parse β} (ht : t.Is text) (hts : Opens ts) :
    (accept text >>= k) (ofList (t :: ts)) = k true (ofList ts) := by
  rw [accept_bind, if_pos (sees_ofList_of_text ⟨ht.not_string, ht.not_eof⟩ ht.text_eq ts)]
  exact bind_eq_of_ok (advance_ofList ht.not_eof hts)

theorem accept_ofList_of_ne {text : String} {k : Bool → Parse β} (ht : t.text ≠ text) :
    (accept text >>= k) (ofList (t :: ts)) = k false (ofList (t :: ts)) :=
  accept_bind_of_unseen (unseen_ofList (by simpa using ht) ts)

theorem opens_of_is {text : String} (ht : t.Is text) (hplain : t.IsPlain)
    (htext : text ∈ Token.fixedTexts) (ts : List Token) : Opens (t :: ts) :=
  opens_cons (hplain (ht.text_eq ▸ htext)).2 ts

theorem opens_of_ident (ht : t.kind = .ident) (ts : List Token) : Opens (t :: ts) :=
  opens_cons (by rw [ht]; exact nofun) ts

theorem text_ne_of_ident {text : String} (ht : t.kind = .ident) (hplain : t.IsPlain)
    (htext : text ∈ Token.fixedTexts) : t.text ≠ text :=
  fun heq => (hplain (heq ▸ htext)).1 ht

theorem unseen_of_is {text : String} {texts : List String} (ht : t.Is text) (htext : text ∉ texts)
    (ts : List Token) : (ofList (t :: ts)).sees texts = false :=
  unseen_ofList (by rwa [ht.text_eq]) ts

/-! ## Nesting of types -/

mutual

/-- A type with so many levels, those of its names and brackets. -/
inductive IsTypeOf : (levels : Nat) → List Token → Prop where
  | name {t : Token} : t.kind = .ident → IsTypeOf 1 [t]
  | list {n : Nat} {opened closed : Token} {ts : List Token} : opened.Is "[" → IsTypeOf n ts →
      closed.Is "]" → IsTypeOf (n + 1) (opened :: (ts ++ [closed]))
  | generic {n : Nat} {t opened closed : Token} {ts : List Token} : t.kind = .ident →
      opened.Is "<" → AreTypesOf n ts → closed.Is ">" →
      IsTypeOf (n + 1) (t :: opened :: (ts ++ [closed]))

inductive AreTypesOf : (levels : Nat) → List Token → Prop where
  | last {n : Nat} {ts : List Token} : IsTypeOf n ts → AreTypesOf n ts
  | cons {n m : Nat} {ts rest : List Token} {comma : Token} : IsTypeOf n ts → comma.Is "," →
      AreTypesOf m rest → AreTypesOf (max n m) (ts ++ comma :: rest)

end

mutual

theorem IsType.exists_levels {ts : List Token} : IsType ts → ∃ n, IsTypeOf n ts
  | .name ht => ⟨1, .name ht⟩
  | .list hopened hts hclosed => by
    obtain ⟨n, hn⟩ := hts.exists_levels
    exact ⟨n + 1, .list hopened hn hclosed⟩
  | .generic ht hopened hts hclosed => by
    obtain ⟨n, hn⟩ := hts.exists_levels
    exact ⟨n + 1, .generic ht hopened hn hclosed⟩

theorem IsTypeList.exists_levels {ts : List Token} : IsTypeList ts → ∃ n, AreTypesOf n ts
  | .last h => by
    obtain ⟨n, hn⟩ := h.exists_levels
    exact ⟨n, .last hn⟩
  | .cons h hcomma hrest => by
    obtain ⟨n, hn⟩ := h.exists_levels
    obtain ⟨m, hm⟩ := hrest.exists_levels
    exact ⟨max n m, .cons hn hcomma hm⟩

end

/-! ## Reading a whole type -/

theorem IsTypeOf.opens {n : Nat} (h : IsTypeOf n ts) (hplain : ∀ t ∈ ts, t.IsPlain)
    (us : List Token) : Opens (ts ++ us) := by
  cases h with
  | name ht => exact opens_of_ident ht _
  | list hopened => exact opens_of_is hopened (hplain _ (by simp)) (by decide) _
  | generic ht => exact opens_of_ident ht _

theorem AreTypesOf.opens {n : Nat} (h : AreTypesOf n ts) (hplain : ∀ t ∈ ts, t.IsPlain)
    (us : List Token) : Opens (ts ++ us) := by
  cases h with
  | last h => exact h.opens hplain us
  | cons h =>
    rw [List.append_assoc]
    exact h.opens (fun t ht => hplain t (List.mem_append_left _ ht)) _

/-- Types between angle brackets. -/
def ascriptions (g : Grammar) : Parse Unit := do
  g.ascription
  moreAscriptions g.ascription (← get).budget

theorem moreAscriptions_of_unseen {ascription : Parse Unit} {c : Cursor}
    (h : c.sees [","] = false) (n : Nat) : moreAscriptions ascription n c = .ok ((), c) := by
  cases n with
  | zero => rfl
  | succ n => exact accept_bind_of_unseen h

theorem moreAscriptions_of_comma {g : Grammar} (hg : g.IsSound) {comma : Token}
    (hcomma : comma.Is ",") (hts : Opens ts) :
    moreAscriptions g.ascription (ofList (comma :: ts)).budget (ofList (comma :: ts)) =
      ascriptions g (ofList ts) := by
  change moreAscriptions g.ascription (ts.length + 2) _ = _
  rw [moreAscriptions, accept_ofList hcomma hts, if_pos rfl]
  refine bind_eq_bind fun _ d hd => ?_
  have hleft := (hg.ascription _).left_le hd
  have hlist : (ofList ts).left ≤ ts.length := by
    obtain ⟨u, us, rfl, -⟩ := hts
    have hbudget := (ofList (u :: us)).left_lt_budget
    change _ < us.length + 2 at hbudget
    simp only [List.length_cons]
    omega
  exact moreAscriptions_budget hg (by omega) d.left_lt_budget

theorem ascriptionRule_list {g : Grammar} {opened closed : Token} {f : Failure} {P : Prop}
    [Decidable P] (hopened : opened.Is "[") (hclosed : closed.Is "]")
    (hts : Opens (ts ++ closed :: after)) (hafter : Opens after)
    (htype : g.ascription (ofList (ts ++ closed :: after)) =
      if P then .ok ((), ofList (closed :: after)) else .error f) :
    ascriptionRule g (ofList (opened :: (ts ++ closed :: after))) =
      if P then .ok ((), ofList after) else .error f := by
  rw [ascriptionRule, accept_ofList hopened hts, if_pos rfl, bind_eq_of_ite htype,
    bind_eq_of_ok (consume_ofList hclosed hafter)]
  rfl

theorem ascriptionRule_generic {g : Grammar} {opened closed : Token} {f : Failure} {P : Prop}
    [Decidable P] (ht : t.kind = .ident) (hname : t.text ≠ "[") (hopened : opened.Is "<")
    (hclosed : closed.Is ">") (hstart : Opens (opened :: (ts ++ closed :: after)))
    (hts : Opens (ts ++ closed :: after)) (hafter : Opens after)
    (htypes : ascriptions g (ofList (ts ++ closed :: after)) =
      if P then .ok ((), ofList (closed :: after)) else .error f) :
    ascriptionRule g (ofList (t :: opened :: (ts ++ closed :: after))) =
      if P then .ok ((), ofList after) else .error f := by
  have h := bind_eq_of_ite (k := fun _ => consume ">" >>= fun _ => pure ()) htypes
  rw [bind_eq_of_ok (consume_ofList hclosed hafter)] at h
  rw [ascriptionRule, accept_ofList_of_ne hname, if_neg Bool.false_ne_true,
    bind_eq_of_ok (consumeIdent_ofList ht hstart), accept_ofList hopened hts, if_pos rfl]
  simp only [ascriptions, bind_assoc] at h
  exact h

mutual

/-- With enough depth a type is read up to its end. -/
theorem IsTypeOf.ascription_eq {n : Nat} {ts after : List Token} (hafter : Opens after)
    (hless : (ofList after).sees ["<"] = false) : IsTypeOf n ts → (∀ t ∈ ts, t.IsPlain) →
    ∀ depth, (ofDepth depth).ascription (ofList (ts ++ after)) =
      if n ≤ depth then .ok ((), ofList after) else .error (.fault .tooDeep)
  | .name ht, hplain, 0 => rfl
  | .list .., hplain, 0 => rfl
  | .generic .., hplain, 0 => rfl
  | .name ht, hplain, depth + 1 => by
    have hname := text_ne_of_ident ht (hplain _ (by simp)) (by decide : "[" ∈ _)
    change ascriptionRule _ (ofList (_ :: after)) = _
    rw [ascriptionRule, accept_ofList_of_ne hname, if_neg Bool.false_ne_true,
      bind_eq_of_ok (consumeIdent_ofList ht hafter), accept_bind_of_unseen hless,
      if_pos (Nat.le_add_left 1 depth)]
    rfl
  | @IsTypeOf.list _ opened closed ts hopened hts hclosed, hplain, depth + 1 => by
    have hinside (u : Token) (hu : u ∈ ts) : u.IsPlain := hplain u (by simp [hu])
    have hopens := opens_of_is hclosed (hplain _ (by simp)) (by decide) after
    rw [List.cons_append, List.append_assoc]
    simp only [Nat.add_le_add_iff_right]
    exact ascriptionRule_list hopened hclosed (hts.opens hinside _) hafter
      (hts.ascription_eq hopens (unseen_of_is hclosed (by decide) after) hinside depth)
  | @IsTypeOf.generic _ t opened closed ts ht hopened hts hclosed, hplain, depth + 1 => by
    have hinside (u : Token) (hu : u ∈ ts) : u.IsPlain := hplain u (by simp [hu])
    have hopens := opens_of_is hclosed (hplain _ (by simp)) (by decide) after
    have hname := text_ne_of_ident ht (hplain _ (by simp)) (by decide : "[" ∈ _)
    rw [List.cons_append, List.cons_append, List.append_assoc]
    simp only [Nat.add_le_add_iff_right]
    exact ascriptionRule_generic ht hname hopened hclosed
      (opens_of_is hopened (hplain _ (by simp)) (by decide) _) (hts.opens hinside _) hafter
      (hts.ascriptions_eq hclosed hopens hinside depth)

theorem AreTypesOf.ascriptions_eq {n : Nat} {ts after : List Token} {closed : Token}
    (hclosed : closed.Is ">") (hopens : Opens (closed :: after)) : AreTypesOf n ts →
    (∀ t ∈ ts, t.IsPlain) → ∀ depth, ascriptions (ofDepth depth) (ofList (ts ++ closed :: after)) =
      if n ≤ depth then .ok ((), ofList (closed :: after)) else .error (.fault .tooDeep)
  | .last h, hplain, depth => by
    have hless := unseen_of_is hclosed (by decide : ">" ∉ ["<"]) after
    have hcomma := unseen_of_is hclosed (by decide : ">" ∉ [","]) after
    rw [ascriptions, bind_eq_of_ite (h.ascription_eq hopens hless hplain depth)]
    exact congrArg (if _ ≤ depth then · else _) (moreAscriptions_of_unseen hcomma _)
  | @AreTypesOf.cons _ _ ts rest comma h hcomma hrest, hplain, depth => by
    have hfirst (u : Token) (hu : u ∈ ts) : u.IsPlain := hplain u (by simp [hu])
    have hothers (u : Token) (hu : u ∈ rest) : u.IsPlain := hplain u (by simp [hu])
    have hless := unseen_of_is hcomma (by decide : "," ∉ ["<"]) (rest ++ closed :: after)
    have hopens' := opens_of_is hcomma (hplain _ (by simp)) (by decide) (rest ++ closed :: after)
    have hmore := (moreAscriptions_of_comma (isSound_ofDepth depth) hcomma
      (hrest.opens hothers _)).trans (hrest.ascriptions_eq hclosed hopens hothers depth)
    rw [List.append_assoc, List.cons_append, ascriptions,
      bind_eq_of_ite (h.ascription_eq hopens' hless hfirst depth)]
    simp only [Nat.max_le, ite_and]
    exact congrArg (if _ ≤ depth then · else _) hmore

end

/-! ## Where no type starts -/

/-- The start of a type with so many brackets open at its end. -/
inductive IsOpenType : (brackets : Nat) → List Token → Prop where
  | start : IsOpenType 0 []
  | list {n : Nat} {opened : Token} {ts : List Token} : opened.Is "[" → IsOpenType n ts →
      IsOpenType (n + 1) (opened :: ts)
  | first {n : Nat} {t opened : Token} {ts : List Token} : t.kind = .ident → opened.Is "<" →
      IsOpenType n ts → IsOpenType (n + 1) (t :: opened :: ts)
  | later {n : Nat} {t opened comma : Token} {us ts : List Token} : t.kind = .ident →
      opened.Is "<" → IsTypeList us → comma.Is "," → IsOpenType n ts →
      IsOpenType (n + 1) (t :: opened :: (us ++ comma :: ts))

inductive IsTypeFailure (isDeep : Prop) : Failure → Prop where
  | issue (issue : SyntaxIssue) (mark : Option Mark) :
      IsTypeFailure isDeep (.error ⟨.grammar issue, mark⟩)
  | tooDeep : isDeep → IsTypeFailure isDeep (.fault .tooDeep)

theorem IsTypeFailure.imp {P Q : Prop} {f : Failure} (h : IsTypeFailure P f) (hPQ : P → Q) :
    IsTypeFailure Q f := by
  cases h with
  | issue issue mark => exact .issue issue mark
  | tooDeep hP => exact .tooDeep (hPQ hP)

theorem suits_isTypeFailure (isDeep : Prop) : Suits (fun _ => True) (IsTypeFailure isDeep) :=
  ⟨fun _ => trivial, fun _ _ => .issue _ _⟩

/-- A parser at a cursor fails with an error of the grammar, or from too much nesting once it
has passed over tokens with a property. -/
def FailsAfter (R : List Token → Prop) (p : Parse α) (c : Cursor) : Prop :=
  ∀ f, p c = .error f → IsTypeFailure (∃ ts d, c.Passes ts d ∧ R ts) f

section Failures

variable {c : Cursor} {R : List Token → Prop}

theorem failsAfter_pure (a : α) : FailsAfter R (pure a) c := nofun

theorem failsAfter_of_delivers {P : α → Prop} {p : Parse α}
    (hp : ∀ isDeep, Delivers (fun _ => True) (IsTypeFailure isDeep) P p) : FailsAfter R p c := by
  intro f hf
  have hresult := hp (∃ ts d, c.Passes ts d ∧ R ts) c ⟨trivial, fun _ _ => trivial⟩
  rwa [hf] at hresult

theorem FailsAfter.bind {S : List Token → α → Prop} {p : Parse α} {k : α → Parse β}
    (hp : FailsAfter R p c) (hreads : Reads S p c)
    (hk : ∀ ts a d, S ts a → FailsAfter (fun us => R (ts ++ us)) (k a) d) :
    FailsAfter R (p >>= k) c := by
  intro f hf
  cases hpc : p c with
  | error failure =>
    rw [bind_eq_of_error hpc] at hf
    cases hf
    exact hp _ hpc
  | ok r =>
    rw [bind_eq_of_ok hpc] at hf
    obtain ⟨ts, hpass, hts⟩ := hreads r.1 r.2 hpc
    refine (hk ts r.1 r.2 hts f hf).imp ?_
    rintro ⟨us, d, hpass', hus⟩
    exact ⟨ts ++ us, d, hpass.trans hpass', hus⟩

theorem failsAfter_get {k : Cursor → Parse β} (h : FailsAfter R (k c) c) :
    FailsAfter R (get >>= k) c := h

theorem failsAfter_consume (text : String) (b : β) :
    FailsAfter R (consume text >>= fun _ => pure b) c :=
  failsAfter_of_delivers (P := fun _ => True) fun isDeep =>
    (delivers_consume (suits_isTypeFailure isDeep) text).bind fun _ _ => delivers_pure trivial

theorem failsAfter_accept {text : String} {p q : Parse β}
    (hp : ∀ d, c.current.Is text → FailsAfter (fun us => R (c.current :: us)) p d)
    (hq : FailsAfter R q c) :
    FailsAfter R (accept text >>= fun isThere => if isThere = true then p else q) c := by
  have haccept : FailsAfter R (accept text) c :=
    failsAfter_of_delivers fun isDeep => delivers_accept (suits_isTypeFailure isDeep) text
  cases hsees : c.sees [text] with
  | false =>
    intro f hf
    rw [accept_bind_of_unseen hsees] at hf
    exact hq f hf
  | true =>
    refine haccept.bind (reads_isThere text c) ?_
    rintro _ _ d (⟨rfl, ht, rfl⟩ | ⟨-, hunseen, -⟩)
    · exact hp d ht
    · cases hunseen.symm.trans hsees

theorem failsAfter_consumeIdent {what : String} {k : Token → Parse β}
    (hk : ∀ t d, t.kind = .ident → FailsAfter (fun us => R (t :: us)) (k t) d) :
    FailsAfter R (consumeIdent what >>= k) c := by
  have hname : FailsAfter R (consumeIdent what) c :=
    failsAfter_of_delivers fun isDeep => delivers_consumeIdent (suits_isTypeFailure isDeep) what
  have hreads : Reads (fun ts t => ts = [t] ∧ t.kind = .ident)
      (consumeIdent what >>= fun t => pure t) c :=
    reads_consumeIdent fun _ _ ht => reads_pure ⟨rfl, ht⟩
  rw [bind_pure] at hreads
  refine hname.bind hreads ?_
  rintro _ t d ⟨rfl, ht⟩
  exact hk t d ht

section Nesting

variable {g : Grammar} (hg : g.IsSound) {n : Nat}
  (htype : ∀ c, FailsAfter (IsOpenType n) g.ascription c)
include hg htype

theorem failsAfter_moreAscriptions (budget : Nat) (c : Cursor) :
    FailsAfter (fun us => ∃ vs comma ts, us = vs ++ comma :: ts ∧
      (∀ ws, IsType ws → IsTypeList (ws ++ vs)) ∧ comma.Is "," ∧ IsOpenType n ts)
      (moreAscriptions g.ascription budget) c := by
  induction budget generalizing c with
  | zero => exact failsAfter_pure ()
  | succ budget ih =>
    refine failsAfter_accept (fun d hcomma => ?_) (failsAfter_pure ())
    intro f hf
    refine FailsAfter.bind (fun f hf => (htype d f hf).imp ?_) (hg.ascription d)
      (fun ts _ e hts f hf => (ih e f hf).imp ?_) f hf
    · rintro ⟨ts, e, hpass, hts⟩
      refine ⟨ts, e, hpass, [], c.current, ts, rfl, fun ws hws => ?_, hcomma, hts⟩
      rw [List.append_nil]
      exact .last hws
    · rintro ⟨_, k, hpass, vs, comma, us, rfl, hvs, hcomma', hus⟩
      refine ⟨_, k, hpass, c.current :: (ts ++ vs), comma, us, ?_, fun ws hws => ?_, hcomma', hus⟩
      · simp only [List.append_assoc, List.cons_append]
      · exact .cons hws hcomma (hvs ts hts)

theorem failsAfter_ascriptionRule (c : Cursor) :
    FailsAfter (IsOpenType (n + 1)) (ascriptionRule g) c := by
  refine failsAfter_accept (fun d hopened => ?_) (failsAfter_consumeIdent fun t d ht => ?_)
  · refine FailsAfter.bind (fun f hf => (htype d f hf).imp ?_) (hg.ascription d)
      fun _ _ _ _ => failsAfter_consume _ _
    rintro ⟨ts, e, hpass, hts⟩
    exact ⟨ts, e, hpass, .list hopened hts⟩
  · refine failsAfter_accept (fun e hopened => ?_) (failsAfter_pure ())
    refine FailsAfter.bind (fun f hf => (htype e f hf).imp ?_) (hg.ascription e)
      fun us _ k hus => ?_
    · rintro ⟨ts, k, hpass, hts⟩
      exact ⟨ts, k, hpass, .first ht hopened hts⟩
    · apply failsAfter_get
      refine FailsAfter.bind (fun f hf => (failsAfter_moreAscriptions hg htype _ k f hf).imp ?_)
        (reads_moreAscriptions hg _ k) fun _ _ _ _ => failsAfter_consume _ _
      rintro ⟨_, l, hpass, vs, comma, ts, rfl, hvs, hcomma, hts⟩
      refine ⟨_, l, hpass, ?_⟩
      rw [← List.append_assoc]
      exact .later ht hopened (hvs us hus) hcomma hts

end Nesting

end Failures

/-- A type is too deep only once as many brackets are open as there is depth for. -/
theorem failsAfter_ascription (n : Nat) (c : Cursor) :
    FailsAfter (IsOpenType n) (ofDepth n).ascription c := by
  induction n generalizing c with
  | zero =>
    rintro f ⟨⟩
    exact .tooDeep ⟨[], c, .nil c, .start⟩
  | succ n ih => exact failsAfter_ascriptionRule (isSound_ofDepth n) ih c

/-- Reads a type at the start of a token stream. -/
def parseType (depth : Nat) (tokens : List Token) : Except Failure (Unit × Cursor) := do
  (ofDepth depth).ascription (← Cursor.start tokens)

/-- The tokens passed after a step are the first ones of those that were left. -/
theorem Cursor.Passes.isPrefix_of_shift {c d e : Cursor} (hshift : c.shift = .ok d)
    (h : d.Passes ts e) : ts <+: c.rest := by
  induction h generalizing c with
  | nil => exact List.nil_prefix
  | @cons d _ e ts hkind hnext _ ih =>
    unfold Cursor.shift at hshift
    split at hshift
    next =>
      cases hshift
      exact absurd rfl hkind
    next hrest =>
      split at hshift
      · cases hshift
      · cases hshift
        rw [hrest]
        exact (List.prefix_cons_inj _).2 (ih hnext)

theorem parseType_of_no_type (depth : Nat) {tokens : List Token}
    (h : ∀ ts, ts <+: tokens → ¬ IsType ts) :
    ∃ f, parseType depth tokens = .error f ∧
      IsTypeFailure (∃ ts, ts <+: tokens ∧ IsOpenType depth ts) f := by
  unfold parseType
  cases hstart : Cursor.start tokens with
  | error f =>
    obtain ⟨_, hok, -⟩ | ⟨_, hfailed, hf⟩ := Cursor.shift_cases (c := ⟨.eofAt .start, tokens⟩)
      (suits_isTypeFailure _) (fun _ => trivial) fun _ _ => trivial
    · cases hok.symm.trans hstart
    · cases hfailed.symm.trans hstart
      exact ⟨f, rfl, hf⟩
  | ok c =>
    cases htype : (ofDepth depth).ascription c with
    | error f =>
      refine ⟨f, htype, (failsAfter_ascription depth c f htype).imp ?_⟩
      rintro ⟨ts, d, hpass, hts⟩
      exact ⟨ts, hpass.isPrefix_of_shift hstart, hts⟩
    | ok r =>
      obtain ⟨ts, hpass, hts⟩ := (isSound_ofDepth depth).ascription c r.1 r.2 htype
      exact absurd hts (h ts (hpass.isPrefix_of_shift hstart))

/-! ## Types with too many open brackets -/

theorem IsOpenType.opens {n : Nat} (h : IsOpenType n ts) (hplain : ∀ t ∈ ts, t.IsPlain)
    (hafter : Opens after) : Opens (ts ++ after) := by
  cases h with
  | start => exact hafter
  | list hopened => exact opens_of_is hopened (hplain _ (by simp)) (by decide) _
  | first ht | later ht => exact opens_of_ident ht _

/-- Types are read up to a comma, and then those behind it. -/
theorem AreTypesOf.ascriptions_comma {n : Nat} {ts after : List Token} {comma : Token}
    (hcomma : comma.Is ",") (hplain' : comma.IsPlain) (hafter : Opens after) :
    AreTypesOf n ts → (∀ t ∈ ts, t.IsPlain) → ∀ depth,
      ascriptions (ofDepth depth) (ofList (ts ++ comma :: after)) =
        if n ≤ depth then ascriptions (ofDepth depth) (ofList after)
        else .error (.fault .tooDeep)
  | .last h, hplain, depth => by
    have hless := unseen_of_is hcomma (by decide : "," ∉ ["<"]) after
    have hopens := opens_of_is hcomma hplain' (by decide) after
    rw [ascriptions, bind_eq_of_ite (h.ascription_eq hopens hless hplain depth)]
    exact congrArg (if n ≤ depth then · else _)
      (moreAscriptions_of_comma (isSound_ofDepth depth) hcomma hafter)
  | @AreTypesOf.cons _ _ ts rest between h hbetween hrest, hplain, depth => by
    have hfirst (u : Token) (hu : u ∈ ts) : u.IsPlain := hplain u (by simp [hu])
    have hothers (u : Token) (hu : u ∈ rest) : u.IsPlain := hplain u (by simp [hu])
    have hless := unseen_of_is hbetween (by decide : "," ∉ ["<"]) (rest ++ comma :: after)
    have hopens := opens_of_is hbetween (hplain _ (by simp)) (by decide) (rest ++ comma :: after)
    have hmore := (moreAscriptions_of_comma (isSound_ofDepth depth) hbetween
      (hrest.opens hothers _)).trans (hrest.ascriptions_comma hcomma hplain' hafter hothers depth)
    rw [List.append_assoc, List.cons_append, ascriptions,
      bind_eq_of_ite (h.ascription_eq hopens hless hfirst depth)]
    simp only [Nat.max_le, ite_and]
    exact congrArg (if _ ≤ depth then · else _) hmore

theorem ascriptionRule_of_error {g : Grammar} {opened : Token} {f : Failure}
    (ht : t.kind = .ident) (hname : t.text ≠ "[") (hopened : opened.Is "<")
    (hstart : Opens (opened :: ts)) (hts : Opens ts)
    (htypes : ascriptions g (ofList ts) = .error f) :
    ascriptionRule g (ofList (t :: opened :: ts)) = .error f := by
  have h := bind_eq_of_error (k := fun _ => consume ">" >>= fun _ => pure ()) htypes
  rw [ascriptionRule, accept_ofList_of_ne hname, if_neg Bool.false_ne_true,
    bind_eq_of_ok (consumeIdent_ofList ht hstart), accept_ofList hopened hts, if_pos rfl]
  simp only [ascriptions, bind_assoc] at h
  exact h

/-- Where as many brackets open as there is depth for, reading a type stops there. -/
theorem IsOpenType.ascription_eq {n : Nat} (h : IsOpenType n ts) (hplain : ∀ t ∈ ts, t.IsPlain)
    (hafter : Opens after) :
    (ofDepth n).ascription (ofList (ts ++ after)) = .error (.fault .tooDeep) := by
  induction h with
  | start => rfl
  | @list n opened ts hopened hts ih =>
    have hinside (u : Token) (hu : u ∈ ts) : u.IsPlain := hplain u (by simp [hu])
    change ascriptionRule _ (ofList (opened :: (ts ++ after))) = _
    rw [ascriptionRule, accept_ofList hopened (hts.opens hinside hafter), if_pos rfl]
    exact bind_eq_of_error (ih hinside)
  | @first n t opened ts ht hopened hts ih =>
    have hinside (u : Token) (hu : u ∈ ts) : u.IsPlain := hplain u (by simp [hu])
    have hname := text_ne_of_ident ht (hplain _ (by simp)) (by decide : "[" ∈ _)
    have hstart := opens_of_is hopened (hplain _ (by simp)) (by decide) (ts ++ after)
    exact ascriptionRule_of_error ht hname hopened hstart (hts.opens hinside hafter)
      (bind_eq_of_error (ih hinside))
  | @later n t opened comma us ts ht hopened hus hcomma hts ih =>
    have hinside (u : Token) (hu : u ∈ ts) : u.IsPlain := hplain u (by simp [hu])
    have hbefore (u : Token) (hu : u ∈ us) : u.IsPlain := hplain u (by simp [hu])
    have hname := text_ne_of_ident ht (hplain _ (by simp)) (by decide : "[" ∈ _)
    obtain ⟨m, hm⟩ := hus.exists_levels
    have hopens := hm.opens hbefore (comma :: (ts ++ after))
    have hstart := opens_of_is hopened (hplain _ (by simp)) (by decide)
      (us ++ comma :: (ts ++ after))
    have hread := hm.ascriptions_comma hcomma (hplain _ (by simp)) (hts.opens hinside hafter)
      hbefore n
    have hlast : ascriptions (ofDepth n) (ofList (ts ++ after)) = .error (.fault .tooDeep) :=
      bind_eq_of_error (ih hinside)
    rw [hlast, ite_self] at hread
    rw [List.cons_append, List.cons_append, List.append_assoc, List.cons_append]
    exact ascriptionRule_of_error ht hname hopened hstart hopens hread

theorem parseType_of_isOpenType {depth : Nat} (h : IsOpenType depth ts)
    (hplain : ∀ t ∈ ts, t.IsPlain) (hafter : Opens after) :
    parseType depth (ts ++ after) = .error (.fault .tooDeep) := by
  unfold parseType
  rw [start_eq_ofList (h.opens hplain hafter)]
  exact h.ascription_eq hplain hafter

end Orus.Syntax
