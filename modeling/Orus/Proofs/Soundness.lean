import Orus.Proofs.Derivations
import Orus.Proofs.Scanning.Lexemes
import Orus.Syntax.Program

/-! # The parser accepts only its grammar

Where a rule of the parser succeeds, the grammar derives the tree it gives from exactly
the tokens between the places of the cursor before and after it. A whole program is
derived from all tokens of its source text but the one that marks the end.
-/

namespace Orus.Syntax

variable {α β : Type} {c d e : Cursor} {ts us : List Token}

/-! ## Moving over tokens -/

inductive Cursor.Passes : Cursor → List Token → Cursor → Prop where
  | nil (c : Cursor) : Passes c [] c
  | cons {c d e : Cursor} {ts : List Token} : c.current.kind ≠ .eof → c.shift = .ok d →
      Passes d ts e → Passes c (c.current :: ts) e

theorem Cursor.Passes.trans (h : c.Passes ts d) (h' : d.Passes us e) : c.Passes (ts ++ us) e := by
  induction h with
  | nil c => exact h'
  | cons hkind hshift _ ih => exact .cons hkind hshift (ih h')

theorem Cursor.Passes.head (h : c.Passes ts d) (hts : ts ≠ []) :
    ∃ rest, ts = c.current :: rest := by
  cases h with
  | nil => exact absurd rfl hts
  | cons => exact ⟨_, rfl⟩

theorem Cursor.Passes.eq_of_nil (h : c.Passes [] d) : d = c := by
  cases h
  rfl

/-- The number of tokens before the end of input, as far as the cursor can see. -/
def Cursor.left (c : Cursor) : Nat :=
  if c.current.kind = .eof then 0 else c.rest.length + 1

theorem Cursor.left_lt_budget (c : Cursor) : c.left < c.budget := by
  unfold left budget
  split <;> omega

theorem Cursor.left_of_shift (h : c.shift = .ok d) : d.left ≤ c.rest.length := by
  unfold shift at h
  split at h
  · cases h
    exact Nat.zero_le _
  next t rest hrest =>
    split at h
    · cases h
    · cases h
      rw [hrest]
      unfold left
      split
      · exact Nat.zero_le _
      · exact Nat.le_refl _

theorem Cursor.Passes.left_add_length_le (h : c.Passes ts d) : d.left + ts.length ≤ c.left := by
  induction h with
  | nil => exact Nat.le_refl _
  | @cons c d e ts hkind hshift _ ih =>
    have hleft : c.left = c.rest.length + 1 := if_neg hkind
    have hd := left_of_shift hshift
    simp only [List.length_cons]
    omega

theorem Cursor.is_of_sees {texts : List String} (h : c.sees texts = true) :
    ∃ text ∈ texts, c.current.Is text := by
  simp only [sees, Bool.and_eq_true, bne_iff_ne, List.contains_iff_mem] at h
  obtain ⟨⟨hstring, heof⟩, hmem⟩ := h
  exact ⟨_, hmem, hstring, heof, rfl⟩

theorem Cursor.is_of_sees_singleton {text : String} (h : c.sees [text] = true) :
    c.current.Is text := by
  obtain ⟨text', hmem, his⟩ := is_of_sees h
  rwa [List.mem_singleton.1 hmem] at his

theorem Cursor.isWord_of_sees (h : c.sees ["let", "const"] = true) :
    c.current.Is "let" ∨ c.current.Is "const" := by
  obtain ⟨text, hmem, his⟩ := is_of_sees h
  simp only [List.mem_cons, List.not_mem_nil, or_false] at hmem
  obtain rfl | rfl := hmem
  · exact .inl his
  · exact .inr his

/-! ## What parsers read -/

/-- If the parser succeeds, it has passed over tokens that are related to its result. -/
def Reads (R : List Token → α → Prop) (p : Parse α) (c : Cursor) : Prop :=
  ∀ a d, p c = .ok (a, d) → ∃ ts, c.Passes ts d ∧ R ts a

variable {R : List Token → α → Prop} {Q : List Token → β → Prop}

theorem Reads.mono {R' : List Token → α → Prop} {p : Parse α} (hp : Reads R p c)
    (h : ∀ ts a, R ts a → R' ts a) : Reads R' p c := by
  intro a d hd
  obtain ⟨ts, hpass, hr⟩ := hp a d hd
  exact ⟨ts, hpass, h ts a hr⟩

theorem reads_pure {a : α} (h : R [] a) : Reads R (pure a) c := by
  rintro _ _ hd
  cases hd
  exact ⟨[], .nil c, h⟩

theorem reads_failAt (mark : Option Mark) (issue : SyntaxIssue) :
    Reads R (failAt mark issue) c :=
  fun _ _ h => nomatch h

theorem reads_throw (failure : Failure) : Reads R (throw failure) c :=
  fun _ _ h => nomatch h

theorem ok_of_bind_eq_ok {p : Parse α} {k : α → Parse β} {b : β} (h : (p >>= k) c = .ok (b, e)) :
    ∃ a d, p c = .ok (a, d) ∧ k a d = .ok (b, e) := by
  change StateT.bind p k c = _ at h
  unfold StateT.bind at h
  cases hpc : p c with
  | error failure =>
    rw [hpc] at h
    cases h
  | ok r =>
    rw [hpc] at h
    exact ⟨r.1, r.2, rfl, h⟩

theorem Reads.bind {p : Parse α} {k : α → Parse β} (hp : Reads R p c)
    (hk : ∀ ts a d, c.Passes ts d → R ts a → Reads (fun us => Q (ts ++ us)) (k a) d) :
    Reads Q (p >>= k) c := by
  intro b e h
  obtain ⟨a, d, hpc, hka⟩ := ok_of_bind_eq_ok h
  obtain ⟨ts, hpass, hr⟩ := hp a d hpc
  obtain ⟨us, hpass', hq⟩ := hk ts a d hpass hr b e hka
  exact ⟨ts ++ us, hpass.trans hpass', hq⟩

theorem Reads.bind_pure {p : Parse α} {f : α → β} (hp : Reads R p c)
    (h : ∀ ts a, R ts a → Q ts (f a)) : Reads Q (p >>= fun a => pure (f a)) c := by
  refine hp.bind fun ts a d _ hr => reads_pure ?_
  rw [List.append_nil]
  exact h ts a hr

theorem reads_get {k : Cursor → Parse β} (h : Reads Q (k c) c) : Reads Q (get >>= k) c := h

theorem reads_peek {k : Token → Parse β} (h : Reads Q (k c.current) c) : Reads Q (peek >>= k) c := h

theorem reads_sees {texts : List String} {p q : Parse β}
    (hp : c.sees texts = true → Reads Q p c) (hq : c.sees texts = false → Reads Q q c) :
    Reads Q (sees texts >>= fun isSeen => if isSeen = true then p else q) c := by
  change Reads Q (if c.sees texts = true then p else q) c
  split
  next h => exact hp h
  next h => exact hq (Bool.eq_false_iff.2 h)

theorem reads_advance {k : Token → Parse β} (hc : c.current.kind ≠ .eof)
    (hk : ∀ d, Reads (fun us => Q (c.current :: us)) (k c.current) d) :
    Reads Q (advance >>= k) c := by
  have hstep : Reads (fun ts t => ts = [c.current] ∧ t = c.current) advance c := by
    intro t d h
    change (if c.current.kind = .eof then (_ : Parse Token) else _) c = _ at h
    rw [if_neg hc] at h
    cases hshift : c.shift with
    | error failure =>
      rw [hshift] at h
      cases h
    | ok next =>
      rw [hshift] at h
      cases h
      exact ⟨[c.current], .cons hc hshift (.nil _), rfl, rfl⟩
  apply hstep.bind
  rintro _ _ d _ ⟨rfl, rfl⟩
  exact hk d

theorem reads_consume {text : String} {k : Token → Parse β}
    (hk : ∀ t d, t.Is text → Reads (fun us => Q (t :: us)) (k t) d) :
    Reads Q (consume text >>= k) c := by
  have hstep : Reads (fun ts t => ts = [t] ∧ t.Is text) (consume text) c := by
    apply reads_get
    split
    next hsees =>
      have his := Cursor.is_of_sees_singleton hsees
      have h : Reads (fun ts t => ts = [t] ∧ t.Is text) (advance >>= pure) c :=
        reads_advance his.not_eof fun _ => reads_pure ⟨rfl, his⟩
      rwa [bind_pure] at h
    · exact reads_failAt _ _
  apply hstep.bind
  rintro _ t d _ ⟨rfl, ht⟩
  exact hk t d ht

theorem reads_consumeIdent {what : String} {k : Token → Parse β}
    (hk : ∀ t d, t.kind = .ident → Reads (fun us => Q (t :: us)) (k t) d) :
    Reads Q (consumeIdent what >>= k) c := by
  have hstep : Reads (fun ts t => ts = [t] ∧ t.kind = .ident) (consumeIdent what) c := by
    apply reads_peek
    split
    next hkind =>
      have h : Reads (fun ts t => ts = [t] ∧ t.kind = .ident) (advance >>= pure) c :=
        reads_advance (by rw [hkind]; exact nofun) fun _ => reads_pure ⟨rfl, hkind⟩
      rwa [bind_pure] at h
    · exact reads_failAt _ _
  apply hstep.bind
  rintro _ t d _ ⟨rfl, ht⟩
  exact hk t d ht

theorem reads_isThere (text : String) (c : Cursor) :
    Reads (fun ts isThere =>
      (isThere = true ∧ c.current.Is text ∧ ts = [c.current]) ∨
      (isThere = false ∧ c.sees [text] = false ∧ ts = [])) (accept text) c := by
  apply reads_sees
  · intro hsees
    have his := Cursor.is_of_sees_singleton hsees
    apply reads_advance his.not_eof
    intro _
    exact reads_pure (.inl ⟨rfl, his, rfl⟩)
  · intro hsees
    exact reads_pure (.inr ⟨rfl, hsees, rfl⟩)

theorem reads_accept {text : String} {p q : Parse β}
    (hp : ∀ d, c.current.Is text → Reads (fun us => Q (c.current :: us)) p d)
    (hq : c.sees [text] = false → Reads Q q c) :
    Reads Q (accept text >>= fun isThere => if isThere = true then p else q) c := by
  apply (reads_isThere text c).bind
  rintro _ _ d hpass (⟨rfl, ht, rfl⟩ | ⟨rfl, hsees, rfl⟩)
  · exact hp d ht
  · cases hpass
    exact hq hsees

theorem reads_optional {text : String} {k : Bool → Parse β}
    (hk : ∀ ts d, IsOptional text ts → Reads (fun us => Q (ts ++ us)) (k !ts.isEmpty) d) :
    Reads Q (accept text >>= k) c := by
  have h : Reads Q
      (accept text >>= fun isThere => if isThere = true then k true else k false) c := by
    apply reads_accept
    · intro d ht
      exact hk [_] d (.inr ⟨_, ht, rfl⟩)
    · intro _
      exact hk [] c (.inl rfl)
  have heq : (fun isThere => if isThere = true then k true else k false) = k := by
    funext isThere
    cases isThere <;> rfl
  rwa [heq] at h

theorem reads_optional_last {text : String} {b : β} (h : ∀ ts, IsOptional text ts → Q ts b) :
    Reads Q (accept text >>= fun _ => pure b) c := by
  apply reads_optional
  intro ts d hts
  apply reads_pure
  rw [List.append_nil]
  exact h ts hts

theorem reads_commaList {item : Parse α} (close : String) (hitem : ∀ c, Reads R item c)
    (budget : Nat) (done : List α) (c : Cursor) :
    Reads (fun ts items => ∃ more, items = done.reverse ++ more ∧ CommaList R ts more)
      (commaList close item budget done) c := by
  induction budget generalizing done c with
  | zero => exact reads_pure ⟨[], (List.append_nil _).symm, .nil⟩
  | succ n ih =>
    apply reads_sees
    · intro _
      exact reads_pure ⟨[], (List.append_nil _).symm, .nil⟩
    · intro _
      apply (hitem c).bind
      intro ts a d _ ha
      apply reads_accept
      · intro e hcomma
        apply (ih (a :: done) e).mono
        rintro us items ⟨more, rfl, hmore⟩
        exact ⟨a :: more, by simp, .cons ha hcomma hmore⟩
      · intro _
        apply reads_pure
        rw [List.append_nil]
        exact ⟨[a], List.reverse_cons, .last ha⟩

/-! ## What a grammar reads -/

/-- An expression with at least one token. If it is a variable, it can be assigned to and
called. -/
structure DerivesExpression (phrase : Phrase) (ts : List Token) (e : Node) : Prop where
  derives : Derives phrase ts e
  target : ∀ name mark, e = .identifier name mark → IsTarget ts name mark
  nonempty : ts ≠ []

namespace Grammar

structure IsSound (g : Grammar) : Prop where
  expression : ∀ c, Reads (DerivesExpression .expression) g.expression c
  operators : ∀ ps c, Reads (DerivesExpression (.operators ps)) (g.operators ps) c
  ascription : ∀ c, Reads (fun ts _ => IsType ts) g.ascription c
  block : ∀ inLoop c, Reads (Derives (.block inLoop)) (g.block inLoop) c
  statement : ∀ inLoop c, Reads (Derives (.statement inLoop)) (g.statement inLoop) c
  conditional : ∀ word inLoop c, c.current.Is word →
    Reads (Derives (.conditional word inLoop)) (g.conditional inLoop) c

variable {deeper : Grammar} (hd : deeper.IsSound)

include hd

/-! ## Types -/

theorem reads_moreAscriptions (budget : Nat) (c : Cursor) :
    Reads (fun us _ => ∀ ts, IsType ts → IsTypeList (ts ++ us))
      (moreAscriptions deeper.ascription budget) c := by
  induction budget generalizing c with
  | zero =>
    apply reads_pure
    intro ts hts
    rw [List.append_nil]
    exact .last hts
  | succ n ih =>
    apply reads_accept
    · intro d hcomma
      apply (hd.ascription d).bind
      intro us _ e _ hus
      apply (ih e).mono
      intro vs _ hvs ts hts
      exact .cons hts hcomma (hvs us hus)
    · intro _
      apply reads_pure
      intro ts hts
      rw [List.append_nil]
      exact .last hts

theorem reads_ascriptionRule (c : Cursor) :
    Reads (fun ts _ => IsType ts) (ascriptionRule deeper) c := by
  apply reads_accept
  · intro d hopened
    apply (hd.ascription d).bind
    intro ts _ e _ hts
    apply reads_consume
    intro closed f hclosed
    exact reads_pure (.list hopened hts hclosed)
  · intro _
    apply reads_consumeIdent
    intro t d ht
    apply reads_accept
    · intro e hopened
      apply (hd.ascription e).bind
      intro ts _ f _ hts
      apply reads_get
      apply (reads_moreAscriptions hd _ f).bind
      intro us _ g _ hus
      apply reads_consume
      intro closed g' hclosed
      apply reads_pure
      have h := IsType.generic ht hopened (hus ts hts) hclosed
      rwa [List.append_assoc] at h
    · intro _
      exact reads_pure (.name ht)

theorem reads_optionalAscription {mark : String} {k : Unit → Parse β}
    (hk : ∀ ts d, IsAnnotation mark ts → Reads (fun us => Q (ts ++ us)) (k ()) d) :
    Reads Q (optionalAscription deeper mark >>= k) c := by
  have hstep : Reads (fun ts _ => IsAnnotation mark ts) (optionalAscription deeper mark) c := by
    apply reads_accept
    · intro d ht
      apply (hd.ascription d).mono
      intro ts _ hts
      exact .inr ⟨_, ts, ht, hts, rfl⟩
    · intro _
      exact reads_pure (.inl rfl)
  apply hstep.bind
  intro ts _ d _ hts
  exact hk ts d hts

/-! ## Expressions -/

theorem reads_expressions (close : String) (budget : Nat) (c : Cursor) :
    Reads (CommaList (Derives .expression)) (commaList close deeper.expression budget []) c := by
  have hitem (c : Cursor) : Reads (Derives .expression) deeper.expression c :=
    (hd.expression c).mono fun _ _ h => h.derives
  apply (reads_commaList close hitem budget [] c).mono
  rintro ts _ ⟨items, rfl, hitems⟩
  exact hitems

theorem reads_expressionRule (c : Cursor) :
    Reads (DerivesExpression .expression) (expressionRule deeper) c := by
  apply (hd.operators priorities c).bind
  intro ts left d _ hleft
  apply reads_sees
  · intro hsees
    have hequals := Cursor.is_of_sees_singleton hsees
    apply reads_advance hequals.not_eof
    intro e
    split
    next name mark =>
      apply (hd.expression e).bind_pure
      intro us value hvalue
      constructor
      · exact .assign (hleft.target name mark rfl) hequals hvalue.derives
      · exact nofun
      · simp
    · exact reads_failAt _ _
  · intro _
    apply reads_pure
    rw [List.append_nil]
    exact ⟨.operand hleft.derives, hleft.target, hleft.nonempty⟩

theorem reads_callRule (name : Name) (mark : Option Mark) (c : Cursor) :
    Reads (fun us e => ∀ ts, IsTarget ts name mark → DerivesExpression .suffixed (ts ++ us) e)
      (callRule deeper name mark) c := by
  unfold callRule
  split
  · exact reads_failAt _ _
  next hprint =>
    apply reads_consume
    intro opened d hopened
    apply reads_get
    apply (reads_expressions hd ")" _ d).bind
    intro us args e _ hargs
    apply reads_consume
    intro closed f hclosed
    split
    next hrange =>
      subst hrange
      split
      next first last =>
        apply reads_pure
        intro ts hts
        exact ⟨.range hts hopened hargs hclosed, nofun, by simp⟩
      · exact reads_failAt _ _
    next hrange =>
      apply reads_pure
      intro ts hts
      exact ⟨.call hts hprint hrange hopened hargs hclosed, nofun, by simp⟩

theorem reads_suffixes (budget : Nat) (node : Node) (c : Cursor) :
    Reads (fun us e => ∀ ts, DerivesExpression .suffixed ts node →
      DerivesExpression .suffixed (ts ++ us) e) (suffixes deeper budget node) c := by
  have hdone (c : Cursor) (node : Node) :
      Reads (fun us e => ∀ ts, DerivesExpression .suffixed ts node →
        DerivesExpression .suffixed (ts ++ us) e) (pure node) c := by
    apply reads_pure
    intro ts hts
    rwa [List.append_nil]
  induction budget generalizing node c with
  | zero => exact hdone c node
  | succ n ih =>
    apply reads_sees
    · intro hsees
      have hopened := Cursor.is_of_sees_singleton hsees
      apply reads_advance hopened.not_eof
      intro d
      apply (hd.expression d).bind
      intro us position e _ hposition
      apply reads_consume
      intro closed f hclosed
      apply (ih _ f).mono
      intro vs result hvs ts hts
      have h := hvs _ ⟨.index hts.derives hopened hposition.derives hclosed, nofun, by simp⟩
      simpa using h
    · intro _
      apply reads_accept
      · intro d hdot
        apply reads_consumeIdent
        intro name e hname
        apply (ih _ e).mono
        intro vs result hvs ts hts
        have h := hvs _ ⟨.field hts.derives hdot hname, nofun, by simp⟩
        simpa using h
      · intro _
        apply reads_sees
        · intro _
          split
          next name mark =>
            apply (reads_callRule hd name mark c).bind
            intro us call d _ hcall
            apply (ih call d).mono
            intro vs result hvs ts hts
            have h := hvs _ (hcall ts (hts.target name mark rfl))
            rwa [List.append_assoc] at h
          · exact hdone c _
        · intro _
          exact hdone c node

theorem reads_primaryRule (c : Cursor) :
    Reads (DerivesExpression .primary) (primaryRule deeper) c := by
  apply reads_peek
  split
  next hkind =>
    apply reads_advance (by rw [hkind]; exact nofun)
    intro d
    unfold numberLiteral
    split
    next x hx => exact reads_pure ⟨.number hkind hx, nofun, by simp⟩
    · exact reads_throw _
  split
  next hkind =>
    apply reads_advance (by rw [hkind]; exact nofun)
    intro d
    exact reads_pure ⟨.string hkind, nofun, by simp⟩
  split
  next hkind =>
    apply reads_advance (by rw [hkind]; exact nofun)
    intro d
    apply reads_pure
    constructor
    · exact .identifier hkind
    · rintro _ _ ⟨⟩
      exact .name hkind
    · simp
  apply reads_sees
  · intro hsees
    obtain ⟨text, hmem, his⟩ := Cursor.is_of_sees hsees
    apply reads_advance his.not_eof
    intro d
    apply reads_pure
    constructor
    · have htext := his.text_eq
      simp only [List.mem_cons, List.not_mem_nil, or_false] at hmem
      obtain rfl | rfl := hmem
      · rw [if_pos htext]
        exact .truth true his
      · rw [if_neg (by rw [htext]; decide)]
        exact .truth false his
    · exact nofun
    · simp
  intro _
  apply reads_accept
  · intro d hnil
    exact reads_pure ⟨.nilLiteral hnil, nofun, by simp⟩
  intro _
  apply reads_accept
  · intro d hopened
    apply (hd.expression d).bind
    intro ts inside e _ hinside
    apply reads_consume
    intro closed f hclosed
    apply reads_pure
    constructor
    · exact .group hopened hinside.derives hclosed
    · intro name mark h
      exact .group hopened (hinside.target name mark h) hclosed
    · simp
  intro _
  apply reads_accept
  · intro d hopened
    apply reads_get
    apply (reads_expressions hd "]" _ d).bind
    intro ts elements e _ helements
    apply reads_consume
    intro closed f hclosed
    exact reads_pure ⟨.array hopened helements hclosed, nofun, by simp⟩
  intro _
  split
  · exact reads_failAt _ _
  · exact reads_failAt _ _

theorem reads_unaryRule (c : Cursor) :
    Reads (DerivesExpression (.operators [])) (unaryRule deeper) c := by
  apply reads_sees
  · intro hsees
    obtain ⟨text, hmem, his⟩ := Cursor.is_of_sees hsees
    apply reads_advance his.not_eof
    intro d
    apply (hd.operators [] d).bind_pure
    intro ts operand hoperand
    exact ⟨.unary his hmem hoperand.derives, nofun, by simp⟩
  · intro _
    apply (reads_primaryRule hd c).bind
    intro ts node d _ hnode
    apply reads_get
    apply (reads_suffixes hd _ node d).mono
    intro us e he
    have h := he ts ⟨.primary hnode.derives, hnode.target, hnode.nonempty⟩
    exact ⟨.suffixed h.derives, h.target, h.nonempty⟩

theorem reads_chain (loosest : List String) (tighter : List (List String)) (budget : Nat)
    (left : Node) (c : Cursor) :
    Reads (fun us e => ∀ ts, DerivesExpression (.operators (loosest :: tighter)) ts left →
      DerivesExpression (.operators (loosest :: tighter)) (ts ++ us) e)
      (chain loosest (deeper.operators tighter) budget left) c := by
  have hdone (c : Cursor) (left : Node) :
      Reads (fun us e => ∀ ts, DerivesExpression (.operators (loosest :: tighter)) ts left →
        DerivesExpression (.operators (loosest :: tighter)) (ts ++ us) e) (pure left) c := by
    apply reads_pure
    intro ts hts
    rwa [List.append_nil]
  induction budget generalizing left c with
  | zero => exact hdone c left
  | succ n ih =>
    apply reads_sees
    · intro hsees
      obtain ⟨text, hmem, his⟩ := Cursor.is_of_sees hsees
      apply reads_advance his.not_eof
      intro d
      apply (hd.operators tighter d).bind
      intro us right e _ hright
      apply (ih _ e).mono
      intro vs result hvs ts hts
      have h := hvs _ ⟨.binary hts.derives his hmem hright.derives, nofun, by simp⟩
      simpa using h
    · intro _
      exact hdone c left

theorem reads_operatorsRule (ps : List (List String)) (c : Cursor) :
    Reads (DerivesExpression (.operators ps)) (operatorsRule deeper ps) c := by
  cases ps with
  | nil => exact reads_unaryRule hd c
  | cons loosest tighter =>
    apply (hd.operators tighter c).bind
    intro ts first d _ hfirst
    apply reads_get
    apply (reads_chain hd loosest tighter _ first d).mono
    intro us e he
    exact he ts ⟨.tighter hfirst.derives, hfirst.target, hfirst.nonempty⟩

/-! ## Statements -/

theorem reads_initializer (keyword : Token) (c : Cursor) :
    Reads (fun us value =>
      (us = [] ∧ value = .nilLiteral keyword.mark ∧ keyword.text ≠ "const") ∨
      ∃ equals ts, us = equals :: ts ∧ equals.Is "=" ∧ Derives .expression ts value)
      (initializer deeper keyword) c := by
  change Reads _ (if keyword.text = "const" ∨ c.sees ["="] = true then _ else _) c
  split
  · apply reads_consume
    intro equals d hequals
    apply (hd.expression d).mono
    intro ts value hvalue
    exact .inr ⟨equals, ts, rfl, hequals, hvalue.derives⟩
  next h => exact reads_pure (.inl ⟨rfl, rfl, fun htext => h (.inl htext)⟩)

theorem reads_letRule (c : Cursor) (hword : c.current.Is "let" ∨ c.current.Is "const") :
    Reads (Derives .declaration) (letRule deeper) c := by
  apply reads_advance (hword.elim (·.not_eof) (·.not_eof))
  intro d
  obtain hword | hword := hword
  · rw [mutability, if_pos hword.text_eq]
    apply reads_optional
    intro mutable e hmutable
    apply reads_consumeIdent
    intro name f hname
    apply reads_optionalAscription hd
    intro ascription g hascription
    apply (reads_initializer hd _ g).bind
    rintro us value _ _ hvalue
    apply reads_optional_last
    intro semicolon hsemicolon
    obtain ⟨rfl, rfl, _⟩ | ⟨equals, ts, rfl, hequals, hvalue⟩ := hvalue
    · exact .letOnly hword hmutable hname hascription hsemicolon
    · exact .letValue hword hmutable hname hascription hequals hvalue hsemicolon
  · rw [mutability, if_neg (by rw [hword.text_eq]; decide), pure_bind]
    apply reads_consumeIdent
    intro name e hname
    apply reads_optionalAscription hd
    intro ascription f hascription
    apply (reads_initializer hd _ f).bind
    rintro us value _ _ hvalue
    apply reads_optional_last
    intro semicolon hsemicolon
    obtain ⟨_, _, hconst⟩ | ⟨equals, ts, rfl, hequals, hvalue⟩ := hvalue
    · exact absurd hword.text_eq hconst
    · exact .constant hword hname hascription hequals hvalue hsemicolon

theorem reads_expressionUnless (texts : List String) (c : Cursor) :
    Reads (fun ts e => (ts = [] ∧ e = .absent) ∨ Derives .expression ts e)
      (expressionUnless deeper texts) c := by
  apply reads_sees
  · intro _
    exact reads_pure (.inl ⟨rfl, rfl⟩)
  · intro _
    apply (hd.expression c).mono
    intro ts e he
    exact .inr he.derives

theorem reads_printRule (inLoop : Bool) (c : Cursor) (hprint : c.current.IsPrint) :
    Reads (Derives (.statement inLoop)) (printRule deeper) c := by
  apply reads_advance (by rw [hprint.1]; exact nofun)
  intro d
  apply reads_consume
  intro opened e hopened
  apply (reads_expressionUnless hd _ e).bind
  rintro ts value f _ hvalue
  apply reads_consume
  intro closed g hclosed
  apply reads_optional_last
  intro semicolon hsemicolon
  obtain ⟨rfl, rfl⟩ | hvalue := hvalue
  · exact .printEmpty hprint hopened hclosed hsemicolon
  · exact .printValue hprint hopened hvalue hclosed hsemicolon

theorem reads_elseRule (inLoop : Bool) (c : Cursor) :
    Reads (Derives (.otherwise inLoop)) (elseRule deeper inLoop) c := by
  apply reads_sees
  · intro hsees
    apply (hd.conditional "elif" inLoop c (Cursor.is_of_sees_singleton hsees)).mono
    intro ts n hn
    exact .elif hn
  · intro _
    apply reads_accept
    · intro d helse
      apply reads_sees
      · intro hsees
        apply (hd.conditional "if" inLoop d (Cursor.is_of_sees_singleton hsees)).mono
        intro ts n hn
        exact .elseIf helse hn
      · intro _
        apply (hd.block inLoop d).mono
        intro ts n hn
        exact .elseBlock helse hn
    · intro _
      exact reads_pure (.nothing inLoop)

theorem reads_conditionalRule (word : String) (inLoop : Bool) (c : Cursor)
    (hword : c.current.Is word) :
    Reads (Derives (.conditional word inLoop)) (conditionalRule deeper inLoop) c := by
  apply reads_advance hword.not_eof
  intro d
  apply (hd.expression d).bind
  intro ts cond e _ hcond
  apply (hd.block inLoop e).bind
  intro us thenPart f _ hthen
  apply (reads_elseRule hd inLoop f).bind_pure
  intro vs elsePart helse
  exact .conditional hword hcond.derives hthen helse

theorem reads_forRule (inLoop : Bool) (c : Cursor) :
    Reads (Derives (.statement inLoop)) (forRule deeper) c := by
  apply reads_consume
  intro word d hword
  apply reads_consumeIdent
  intro name e hname
  apply reads_consume
  intro joint f hjoint
  apply (hd.expression f).bind
  intro ts iterable g _ hiterable
  apply (hd.block true g).bind_pure
  intro us body hbody
  exact .forIn hword hname hjoint hiterable.derives hbody

theorem reads_whileRule (inLoop : Bool) (c : Cursor) :
    Reads (Derives (.statement inLoop)) (whileRule deeper) c := by
  apply reads_consume
  intro word d hword
  apply (hd.expression d).bind
  intro ts cond e _ hcond
  apply (hd.block true e).bind_pure
  intro us body hbody
  exact .whileLoop hword hcond.derives hbody

omit hd in
theorem reads_loopControlRule (inLoop : Bool) (c : Cursor)
    (hword : c.current.Is "break" ∨ c.current.Is "continue") :
    Reads (Derives (.statement inLoop)) (loopControlRule inLoop) c := by
  apply reads_advance (hword.elim (·.not_eof) (·.not_eof))
  intro d
  cases inLoop with
  | false => exact reads_failAt _ _
  | true =>
    apply reads_optional_last
    intro semicolon hsemicolon
    obtain hword | hword := hword
    · rw [if_pos hword.text_eq]
      exact .breakLoop hword hsemicolon
    · rw [if_neg (by rw [hword.text_eq]; decide)]
      exact .continueLoop hword hsemicolon

theorem reads_returnRule (inLoop : Bool) (c : Cursor) :
    Reads (Derives (.statement inLoop)) (returnRule deeper) c := by
  apply reads_consume
  intro word d hword
  apply (reads_expressionUnless hd _ d).bind
  intro ts value e _ hvalue
  apply reads_optional_last
  intro semicolon hsemicolon
  obtain ⟨rfl, rfl⟩ | hvalue := hvalue
  · exact .returnOnly hword hsemicolon
  · exact .returnValue hword hvalue hsemicolon

theorem reads_expressionStatementRule (inLoop : Bool) (c : Cursor)
    (hprint : ¬ c.current.IsPrint) :
    Reads (Derives (.statement inLoop)) (expressionStatementRule deeper) c := by
  apply reads_peek
  apply (hd.expression c).bind
  intro ts expr d hpass hexpr
  obtain ⟨rest, rfl⟩ := hpass.head hexpr.nonempty
  apply reads_optional
  intro semicolon e hsemicolon
  split
  · apply reads_pure
    rw [List.append_nil]
    exact .assignment hexpr.derives hprint hsemicolon
  next hnot =>
    apply reads_pure
    rw [List.append_nil]
    exact .expression hexpr.derives hnot hprint hsemicolon

theorem reads_statements (inLoop : Bool) (opened : Position) (budget : Nat) (done : List Node)
    (c : Cursor) :
    Reads (fun ts ns => ∃ more, ns = done.reverse ++ more ∧ DerivesAll inLoop ts more)
      (statements (deeper.statement inLoop) opened budget done) c := by
  induction budget generalizing done c with
  | zero => exact reads_pure ⟨[], (List.append_nil _).symm, .nil inLoop⟩
  | succ n ih =>
    apply reads_sees
    · intro _
      exact reads_pure ⟨[], (List.append_nil _).symm, .nil inLoop⟩
    intro _
    apply reads_peek
    split
    · exact reads_failAt _ _
    apply reads_accept
    · intro d hsemicolon
      apply (ih done d).mono
      rintro ts ns ⟨more, hns, hmore⟩
      exact ⟨more, hns, .semicolon hsemicolon hmore⟩
    · intro _
      apply (hd.statement inLoop c).bind
      intro ts next d _ hnext
      apply (ih (next :: done) d).mono
      rintro us ns ⟨more, rfl, hmore⟩
      exact ⟨next :: more, by simp, .cons hnext hmore⟩

theorem reads_blockRule (inLoop : Bool) (c : Cursor) :
    Reads (Derives (.block inLoop)) (blockRule deeper inLoop) c := by
  apply reads_consume
  intro opened d hopened
  apply reads_get
  apply (reads_statements hd inLoop _ _ [] d).bind
  rintro ts _ e _ ⟨inside, rfl, hinside⟩
  apply reads_consume
  intro closed f hclosed
  exact reads_pure (.block hopened hinside hclosed)

theorem reads_statementRule (inLoop : Bool) (c : Cursor) :
    Reads (Derives (.statement inLoop)) (statementRule deeper inLoop) c := by
  have hword {word : String} (h : c.current.kind = .keyword ∧ c.current.text = word) :
      c.current.Is word := by
    constructor
    · rw [h.1]
      exact nofun
    · rw [h.1]
      exact nofun
    · exact h.2
  apply reads_peek
  dsimp only
  split
  next h =>
    apply (reads_letRule hd c (h.imp hword hword)).mono
    intro ts n hn
    exact .declared hn
  split
  next h =>
    apply (hd.conditional "if" inLoop c (hword h)).mono
    intro ts n hn
    exact .decided hn
  split
  · exact reads_forRule hd inLoop c
  split
  · exact reads_whileRule hd inLoop c
  split
  next h => exact reads_loopControlRule inLoop c (h.imp hword hword)
  split
  · exact reads_returnRule hd inLoop c
  split
  · exact reads_failAt _ _
  apply reads_sees
  · intro _
    apply (hd.block inLoop c).mono
    intro ts n hn
    exact .nested hn
  intro _
  split
  next hprint => exact reads_printRule hd inLoop c hprint
  next hprint => exact reads_expressionStatementRule hd inLoop c hprint

/-! ## Depth -/

theorem IsSound.above : (above deeper).IsSound where
  expression := reads_expressionRule hd
  operators := reads_operatorsRule hd
  ascription := reads_ascriptionRule hd
  block := reads_blockRule hd
  statement := reads_statementRule hd
  conditional := reads_conditionalRule hd

omit hd in
theorem isSound_ofDepth (depth : Nat) : (ofDepth depth).IsSound := by
  induction depth with
  | zero => constructor <;> intros <;> exact reads_throw _
  | succ n ih => exact ih.above

/-! ## Programs -/

theorem reads_parameterRule (c : Cursor) : Reads DerivesParameter (parameterRule deeper) c := by
  apply reads_consumeIdent
  intro t d ht
  apply reads_optionalAscription hd
  intro ascription e hascription
  apply reads_pure
  rw [List.append_nil]
  exact .name ht hascription

theorem reads_functionRule (c : Cursor) : Reads DerivesFunction (functionRule deeper) c := by
  apply reads_consume
  intro word d hword
  apply reads_consumeIdent
  intro name e hname
  apply reads_consume
  intro opened f hopened
  apply reads_get
  apply (reads_commaList ")" (reads_parameterRule hd) _ [] f).bind
  rintro ts _ g _ ⟨params, rfl, hparams⟩
  apply reads_consume
  intro closed c' hclosed
  apply reads_optionalAscription hd
  intro ascription d' hascription
  apply (hd.block false d').bind_pure
  intro us body hbody
  exact .function hword hname hopened hparams hclosed hascription hbody

/-- With enough budget the declarations go on to the end of input. -/
theorem declarations_ok {functions globals : List Node} {r : List Node × List Node} {n : Nat}
    (hn : c.left < n) (h : declarations deeper n functions globals c = .ok (r, e)) :
    e.current.kind = .eof ∧ ∃ ts fs gs, c.Passes ts e ∧
      r = (functions.reverse ++ fs, globals.reverse ++ gs) ∧ DerivesDeclarations ts fs gs := by
  induction n generalizing functions globals c with
  | zero => exact absurd hn (Nat.not_lt_zero _)
  | succ n ih =>
    -- every declaration takes a token, so the rest of the budget is enough for the rest
    have hnext {ts : List Token} {d : Cursor} (hpass : c.Passes ts d) (hts : ts ≠ []) :
        d.left < n := by
      have hleft := hpass.left_add_length_le
      have hlength := List.length_pos_iff.2 hts
      omega
    change (if c.current.kind = .eof then (_ : Parse (List Node × List Node)) else _) c = _ at h
    split at h
    next heof =>
      cases h
      exact ⟨heof, [], [], [], .nil _, by simp, .nil⟩
    obtain ⟨isThere, d, haccept, h⟩ := ok_of_bind_eq_ok h
    obtain ⟨ts, hpass, ⟨rfl, hsemicolon, rfl⟩ | ⟨rfl, _, rfl⟩⟩ := reads_isThere _ _ _ _ haccept
    · obtain ⟨heof, us, fs, gs, hpass', hr, hus⟩ := ih (hnext hpass (by simp)) h
      exact ⟨heof, _, fs, gs, hpass.trans hpass', hr, .semicolon hsemicolon hus⟩
    have hdc := hpass.eq_of_nil
    subst d
    change (if c.sees ["fn"] = true then (_ : Parse (List Node × List Node)) else _) c = _ at h
    split at h
    · obtain ⟨fn, d, hfn, h⟩ := ok_of_bind_eq_ok h
      obtain ⟨ts, hpass, hts⟩ := reads_functionRule hd c fn d hfn
      have hne : ts ≠ [] := by
        cases hts
        simp
      obtain ⟨heof, us, fs, gs, hpass', rfl, hus⟩ := ih (hnext hpass hne) h
      exact ⟨heof, _, fn :: fs, gs, hpass.trans hpass', by simp, .function hts hus⟩
    change (if c.sees ["let", "const"] = true then (_ : Parse (List Node × List Node)) else _) c = _
      at h
    split at h
    next hsees =>
      have hword := Cursor.isWord_of_sees hsees
      obtain ⟨decl, d, hdecl, h⟩ := ok_of_bind_eq_ok h
      obtain ⟨ts, hpass, hts⟩ := reads_letRule hd c hword decl d hdecl
      have hne : ts ≠ [] := by
        cases hts <;> simp
      obtain ⟨heof, us, fs, gs, hpass', rfl, hus⟩ := ih (hnext hpass hne) h
      exact ⟨heof, _, fs, decl :: gs, hpass.trans hpass', by simp, .global hts hus⟩
    split at h
    · cases h
    · cases h

theorem programRule_ok {p : Node} (h : programRule deeper c = .ok (p, e)) :
    e.current.kind = .eof ∧ ∃ ts, c.Passes ts e ∧
      DerivesProgram e.current.position.offset ts p := by
  obtain ⟨_, _, hget, h⟩ := ok_of_bind_eq_ok h
  cases hget
  obtain ⟨r, d, hdecls, h⟩ := ok_of_bind_eq_ok h
  obtain ⟨heof, ts, fs, gs, hpass, rfl, hts⟩ := declarations_ok hd c.left_lt_budget hdecls
  change (if fs.any isMain = true then (_ : Parse Node) else _) d = _ at h
  split at h
  next hmain =>
    cases h
    exact ⟨heof, ts, hpass, .program hts hmain⟩
  · cases h

end Grammar

/-! ## Token streams -/

/-- A cursor that gets from the first token of a stream to the end has passed all tokens but
the last, and none of them is an error. -/
theorem Cursor.Passes.eq_of_shift {tokens : List Token} {first eof : Token}
    (htokens : ∀ t ∈ tokens, t.kind ≠ .eof) (heof : eof.kind = .eof)
    (hshift : Cursor.shift ⟨first, tokens ++ [eof]⟩ = .ok c) (hpass : c.Passes ts d)
    (hd : d.current.kind = .eof) :
    ts = tokens ∧ d.current = eof ∧ ∀ t ∈ tokens, t.kind ≠ .error := by
  induction tokens generalizing first c ts with
  | nil =>
    have hc : (⟨eof, []⟩ : Cursor) = c := by
      simpa [shift, heof] using hshift
    subst hc
    cases hpass with
    | nil => exact ⟨rfl, rfl, by simp⟩
    | cons hkind => exact absurd heof hkind
  | cons t tokens ih =>
    have ht : t.kind ≠ .error := by
      intro h
      simp [shift, h] at hshift
    have hc : (⟨t, tokens ++ [eof]⟩ : Cursor) = c := by
      simpa [shift, ht] using hshift
    subst hc
    cases hpass with
    | nil => exact absurd hd (htokens t List.mem_cons_self)
    | cons hkind hnext hpass =>
      have hrest : ∀ t ∈ tokens, t.kind ≠ .eof := fun t h => htokens t (List.mem_cons_of_mem _ h)
      obtain ⟨rfl, hlast, herror⟩ := ih hrest hnext hpass
      exact ⟨rfl, hlast, by simpa using ⟨ht, herror⟩⟩

/-- A parsed stream is derived from all its tokens but the last, which marks the end. -/
theorem derives_of_parseTokens {depth : Nat} {tokens : List Token} {eof : Token} {p : Node}
    (htokens : ∀ t ∈ tokens, t.kind ≠ .eof) (heof : eof.kind = .eof)
    (h : parseTokens depth (tokens ++ [eof]) = .ok p) :
    (∀ t ∈ tokens, t.kind ≠ .error) ∧ DerivesProgram eof.position.offset tokens p := by
  unfold parseTokens Cursor.start at h
  cases hstart : Cursor.shift ⟨.eofAt .start, tokens ++ [eof]⟩ with
  | error failure =>
    rw [hstart] at h
    cases h
  | ok c =>
    rw [hstart] at h
    cases hrule : Grammar.programRule (Grammar.ofDepth depth) c with
    | error failure =>
      simp [bind, Except.bind, hrule] at h
    | ok r =>
      obtain ⟨q, d⟩ := r
      obtain rfl : q = p := by
        simpa [bind, Except.bind, hrule, pure, Except.pure] using h
      obtain ⟨hd, ts, hpass, hts⟩ :=
        Grammar.programRule_ok (Grammar.isSound_ofDepth depth) hrule
      obtain ⟨rfl, hlast, herror⟩ := hpass.eq_of_shift htokens heof hstart hd
      rw [hlast] at hts
      exact ⟨herror, hts⟩

theorem parseTokens_of_parse {source : String} {p : Node} (h : parse source = .ok p) :
    parseTokens nestingLimit (Token.scan source) = .ok p := by
  unfold parse parseWithin at h
  split at h
  · cases h
  · exact h

/-- A program that a source text is parsed to is derived by the grammar from the tokens of
the text, each of them once and in order, up to the one that marks the end. None of them is
an error. -/
theorem derives_of_parse {source : String} {p : Node} (h : parse source = .ok p) :
    ∃ (tokens : List Token) (eof : Token), Token.scan source = tokens ++ [eof] ∧
      eof.kind = .eof ∧ (∀ t ∈ tokens, t.kind ≠ .eof ∧ t.kind ≠ .error) ∧
      DerivesProgram eof.position.offset tokens p := by
  obtain ⟨tokens, eof, hscan, heof, htokens⟩ := Token.scan_eq_append source
  have hparse := parseTokens_of_parse h
  rw [hscan] at hparse
  obtain ⟨herror, hderives⟩ := derives_of_parseTokens htokens heof hparse
  exact ⟨tokens, eof, hscan, heof, fun t ht => ⟨htokens t ht, herror t ht⟩, hderives⟩

/-- A program with annotations, a trailing comma, a variable in parentheses that is called
and no semicolons after its simple statements. -/
def looseSource : String :=
  "let xs: [int] = [1, 2,] fn main() \x7b for x in (range)(0, 2,) \x7b break \x7d print(xs) \x7d"

theorem derives_looseSource : ∃ p, parse looseSource = .ok p ∧
    ∃ (tokens : List Token) (eof : Token), Token.scan looseSource = tokens ++ [eof] ∧
      eof.kind = .eof ∧ (∀ t ∈ tokens, t.kind ≠ .eof ∧ t.kind ≠ .error) ∧
      DerivesProgram eof.position.offset tokens p := by
  have hok : (parse looseSource).isOk = true := by decide +kernel
  cases hparse : parse looseSource with
  | error failure =>
    rw [hparse] at hok
    cases hok
  | ok p => exact ⟨p, rfl, derives_of_parse hparse⟩

end Orus.Syntax
