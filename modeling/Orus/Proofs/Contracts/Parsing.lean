import Orus.Syntax.Grammar

/-! # Parsers under a contract

A contract for a parser says what it may assume of the tokens, what it gives when it
succeeds and how it may fail. Looking at tokens, taking them and repeating a parser keep to
contracts; what is left to a proof are the rules of the grammar.
-/

namespace Orus.Syntax

variable {α β : Type} {T : Token → Prop} {E : Failure → Prop}

structure Cursor.All (T : Token → Prop) (c : Cursor) : Prop where
  current : T c.current
  rest : ∀ t ∈ c.rest, T t

/-- A result with a property, with tokens left that have one, or a failure with a property. -/
def DeliversResult (T : Token → Prop) (E : Failure → Prop) (P : α → Prop) :
    Except Failure (α × Cursor) → Prop
  | .ok (a, c) => P a ∧ c.All T
  | .error failure => E failure

/-- From tokens with a property a parser gives results with a property or fails as
allowed. -/
def Delivers (T : Token → Prop) (E : Failure → Prop) (P : α → Prop) (p : Parse α) : Prop :=
  ∀ c : Cursor, c.All T → DeliversResult T E P (p c)

theorem delivers_pure {P : α → Prop} {a : α} (h : P a) : Delivers T E P (pure a) :=
  fun _ hc => ⟨h, hc⟩

theorem delivers_throw {P : α → Prop} {failure : Failure} (h : E failure) :
    Delivers T E P (throw failure) :=
  fun _ _ => h

theorem Delivers.bind {P : α → Prop} {Q : β → Prop} {p : Parse α} {k : α → Parse β}
    (hp : Delivers T E P p) (hk : ∀ a, P a → Delivers T E Q (k a)) : Delivers T E Q (p >>= k) := by
  intro c hc
  have h := hp c hc
  change DeliversResult T E Q (StateT.bind p k c)
  unfold StateT.bind
  cases hpc : p c with
  | ok r =>
    rw [hpc] at h
    exact hk r.1 h.1 r.2 h.2
  | error failure =>
    rw [hpc] at h
    exact h

theorem Delivers.mono {P Q : α → Prop} {p : Parse α} (hp : Delivers T E P p)
    (h : ∀ a, P a → Q a) : Delivers T E Q p := by
  intro c hc
  have hpc := hp c hc
  cases hr : p c with
  | ok r =>
    rw [hr] at hpc
    exact ⟨h _ hpc.1, hpc.2⟩
  | error failure =>
    rw [hr] at hpc
    exact hpc

theorem delivers_get : Delivers T E (fun _ => True) (get : Parse Cursor) :=
  fun _ hc => ⟨trivial, hc⟩

theorem delivers_peek : Delivers T E T peek :=
  fun _ hc => ⟨hc.current, hc⟩

theorem delivers_sees (texts : List String) : Delivers T E (fun _ => True) (sees texts) :=
  fun _ hc => ⟨trivial, hc⟩

/-! ## Strings -/

section Strings

variable {P : Node → Prop} {mark : Option Mark} (htext : ∀ text, P (.raw (.str text)))
include htext

theorem forall_mem_flush (text : List Char) {done : List Node} (h : ∀ n ∈ done, P n) :
    ∀ n ∈ flush text done, P n := by
  unfold flush
  split
  · exact h
  · exact List.forall_mem_cons.2 ⟨htext _, h⟩

/-- The segments of a string have a property that texts and the trees of markers have. -/
theorem forall_mem_segmentsFrom
    (hmarked : ∀ {rest names count}, marker? rest = some (names, count) → P (markerNode mark names))
    (text : List Char) {done : List Node} (cs : List Char) (h : ∀ n ∈ done, P n) :
    ∀ n ∈ segmentsFrom mark text done cs, P n := by
  fun_induction segmentsFrom mark text done cs with
  | case1 text done hdone => exact List.forall_mem_singleton.2 (htext _)
  | case2 text done hdone =>
    intro n hn
    exact forall_mem_flush htext text h n (List.mem_reverse.1 hn)
  | case3 text done c rest ih => exact ih h
  | case4 text done c rest hc names count hmarker ih =>
    refine ih (List.forall_mem_cons.2 ⟨?_, forall_mem_flush htext text h⟩)
    split at hmarker
    · exact hmarked hmarker
    · cases hmarker
  | case5 text done c rest hc hmarker ih => exact ih h

end Strings

/-! ## Taking tokens -/

/-- Tokens that go with failures: the end of input has the property of the token it follows,
and what is wrong at a token may fail a parser. Too much nesting is not wrong at a token. -/
structure Suits (T : Token → Prop) (E : Failure → Prop) : Prop where
  eof {t : Token} : T t → T (.eofAt t.position)
  failed {t : Token} {issue : SyntaxIssue} : T t → issue ≠ .nestedTooDeeply →
    E (.error ⟨.grammar issue, t.mark⟩)

variable (hT : Suits T E)
include hT

theorem delivers_failAt {P : α → Prop} {t : Token} (ht : T t) {issue : SyntaxIssue}
    (hissue : issue ≠ .nestedTooDeeply) : Delivers T E P (failAt t.mark issue) :=
  delivers_throw (hT.failed ht hissue)

theorem Cursor.shift_cases {c : Cursor} (hcurrent : c.rest = [] → T c.current)
    (hrest : ∀ t ∈ c.rest, T t) :
    (∃ next, c.shift = .ok next ∧ next.All T) ∨
      ∃ failure, c.shift = .error failure ∧ E failure := by
  unfold Cursor.shift
  split
  next hnil => exact .inl ⟨_, rfl, hT.eof (hcurrent hnil), nofun⟩
  next t rest hcons =>
    rw [hcons] at hrest
    obtain ⟨ht, hrest⟩ := List.forall_mem_cons.1 hrest
    split
    · exact .inr ⟨_, rfl, hT.failed ht nofun⟩
    · exact .inl ⟨_, rfl, ht, hrest⟩

theorem delivers_advance : Delivers T E T advance := by
  intro c hc
  change DeliversResult T E _ ((if c.current.kind = .eof then (_ : Parse Token) else _) c)
  split
  · exact ⟨hc.current, hc⟩
  · rcases Cursor.shift_cases hT (fun _ => hc.current) hc.rest with
      ⟨next, h, hnext⟩ | ⟨failure, h, hfailure⟩ <;> rw [h]
    · exact ⟨hc.current, hnext⟩
    · exact hfailure

theorem delivers_consume (text : String) : Delivers T E T (consume text) := by
  intro c hc
  change DeliversResult T E _ ((if c.sees [text] = true then (_ : Parse Token) else _) c)
  split
  · exact delivers_advance hT c hc
  · exact hT.failed hc.current nofun

theorem delivers_consumeIdent (what : String) : Delivers T E T (consumeIdent what) := by
  refine delivers_peek.bind fun token htoken => ?_
  split
  · exact delivers_advance hT
  · exact delivers_failAt hT htoken nofun

theorem delivers_accept (text : String) : Delivers T E (fun _ => True) (accept text) := by
  refine (delivers_sees _).bind fun isSeen _ => ?_
  split
  · exact (delivers_advance hT).bind fun _ _ => delivers_pure trivial
  · exact delivers_pure trivial

/-! ## Repeating a parser -/

theorem delivers_commaList {P : α → Prop} (close : String) {item : Parse α}
    (hitem : Delivers T E P item) (budget : Nat) {done : List α} (hdone : ∀ a ∈ done, P a) :
    Delivers T E (fun items => ∀ a ∈ items, P a) (commaList close item budget done) := by
  have hreverse : ∀ {items : List α}, (∀ a ∈ items, P a) → ∀ a ∈ items.reverse, P a :=
    fun h a ha => h a (List.mem_reverse.1 ha)
  induction budget generalizing done with
  | zero => exact delivers_pure (hreverse hdone)
  | succ n ih =>
    refine (delivers_sees _).bind fun isClosed _ => ?_
    split
    · exact delivers_pure (hreverse hdone)
    · refine hitem.bind fun value hvalue => (delivers_accept hT _).bind fun hasMore _ => ?_
      have hall : ∀ a ∈ value :: done, P a := List.forall_mem_cons.2 ⟨hvalue, hdone⟩
      split
      · exact ih hall
      · exact delivers_pure (hreverse hall)

theorem delivers_statements {P : Node → Prop} {statement : Parse Node}
    (hstatement : Delivers T E P statement)
    (opened : Position) (budget : Nat) {done : List Node} (hdone : ∀ n ∈ done, P n) :
    Delivers T E (fun all => ∀ n ∈ all, P n) (statements statement opened budget done) := by
  have hreverse : ∀ n ∈ done.reverse, P n := fun n hn => hdone n (List.mem_reverse.1 hn)
  induction budget generalizing done with
  | zero => exact delivers_pure hreverse
  | succ k ih =>
    refine (delivers_sees _).bind fun isClosed _ => ?_
    split
    · exact delivers_pure hreverse
    · refine delivers_peek.bind fun token htoken => ?_
      split
      · exact delivers_failAt hT htoken nofun
      · refine (delivers_accept hT _).bind fun isEmpty _ => ?_
        split
        · exact ih hdone hreverse
        · refine hstatement.bind fun next hnext => ?_
          have hall : ∀ n ∈ next :: done, P n := List.forall_mem_cons.2 ⟨hnext, hdone⟩
          exact ih hall fun n hn => hall n (List.mem_reverse.1 hn)

theorem delivers_moreAscriptions {ascription : Parse Unit}
    (h : Delivers T E (fun _ => True) ascription) (budget : Nat) :
    Delivers T E (fun _ => True) (moreAscriptions ascription budget) := by
  induction budget with
  | zero => exact delivers_pure trivial
  | succ n ih =>
    refine (delivers_accept hT _).bind fun hasMore _ => ?_
    split
    · exact h.bind fun _ _ => ih
    · exact delivers_pure trivial

/-! ## Types -/

theorem delivers_ascriptionRule {deeper : Grammar}
    (h : Delivers T E (fun _ => True) deeper.ascription) :
    Delivers T E (fun _ => True) deeper.ascriptionRule := by
  refine (delivers_accept hT _).bind fun isList _ => ?_
  split
  · exact h.bind fun _ _ => (delivers_consume hT _).bind fun _ _ => delivers_pure trivial
  · refine (delivers_consumeIdent hT _).bind fun _ _ => ?_
    refine (delivers_accept hT _).bind fun hasInside _ => ?_
    split
    · refine h.bind fun _ _ => delivers_get.bind fun c _ => ?_
      refine (delivers_moreAscriptions hT h _).bind fun _ _ => ?_
      exact (delivers_consume hT _).bind fun _ _ => delivers_pure trivial
    · exact delivers_pure trivial

theorem delivers_optionalAscription {deeper : Grammar}
    (h : Delivers T E (fun _ => True) deeper.ascription) (mark : String) :
    Delivers T E (fun _ => True) (deeper.optionalAscription mark) := by
  refine (delivers_accept hT _).bind fun isSeen _ => ?_
  split
  · exact h
  · exact delivers_pure trivial

theorem delivers_mutability (keyword : Token) :
    Delivers T E (fun _ => True) (Grammar.mutability keyword) := by
  unfold Grammar.mutability
  split
  · exact delivers_accept hT _
  · exact delivers_pure trivial

/-! ## Whole programs -/

/-- A token stream is read under the contract of the rule for programs. -/
theorem parseTokens_of_delivers {P : Node → Prop} {depth : Nat} {tokens : List Token}
    (hstart : tokens = [] → T (.eofAt .start)) (htokens : ∀ t ∈ tokens, T t)
    (hprogram : Delivers T E P (Grammar.programRule (.ofDepth depth))) :
    (∃ program, parseTokens depth tokens = .ok program ∧ P program) ∨
      ∃ failure, parseTokens depth tokens = .error failure ∧ E failure := by
  rcases Cursor.shift_cases (c := ⟨.eofAt .start, tokens⟩) hT hstart htokens with
    ⟨cursor, hshift, hcursor⟩ | ⟨failure, hshift, hfailure⟩
  · have hresult := hprogram cursor hcursor
    simp only [parseTokens, Cursor.start, hshift, bind, Except.bind]
    cases hr : Grammar.programRule (.ofDepth depth) cursor with
    | ok r =>
      rw [hr] at hresult
      exact .inl ⟨r.1, rfl, hresult.1⟩
    | error failure =>
      rw [hr] at hresult
      exact .inr ⟨failure, rfl, hresult⟩
  · refine .inr ⟨failure, ?_, hfailure⟩
    simp only [parseTokens, Cursor.start, hshift, bind, Except.bind]

end Orus.Syntax
