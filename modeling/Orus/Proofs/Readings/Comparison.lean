import Mathlib.Data.List.Forall2
import Orus.Proofs.Readings.Budgets

/-! # Two readings side by side

Two grammars read two token streams. As long as their cursors stay at tokens that stand for
one another, every rule goes the same way in both: either both give values that stand for
one another, or they fail in ways that do. What stands for what is left open here, and so is
how the streams are related. The streams may part for a while behind the word that opens a
declaration; then it is up to that declaration to bring the cursors together again.
-/

namespace Orus

structure Token.Alike (t t' : Token) : Prop where
  kind : t.kind = t'.kind
  text : t.text = t'.text
  value : t.value = t'.value

namespace Token.Alike

variable {t t' : Token} (h : t.Alike t')

include h

theorem name_eq : t.name = t'.name := by
  rw [Token.name, Token.name, h.text]

end Token.Alike

theorem Token.Alike.refl (t : Token) : t.Alike t :=
  ⟨rfl, rfl, rfl⟩

/-- Tokens that are read alike. The text of a token for the end of input is never asked
for. -/
structure Token.ReadsAlike (t t' : Token) : Prop where
  kind : t.kind = t'.kind
  alike : t.kind ≠ .eof → t.Alike t'

theorem Token.Alike.readsAlike {t t' : Token} (h : t.Alike t') : t.ReadsAlike t' :=
  ⟨h.kind, fun _ => h⟩

theorem Token.ReadsAlike.describe_eq {t t' : Token} (h : t.ReadsAlike t') :
    t.describe = t'.describe := by
  by_cases heof : t.kind = .eof
  · rw [Token.describe, Token.describe, ← h.kind, heof]
  · rw [Token.describe, Token.describe, ← h.kind, (h.alike heof).text]

namespace Syntax

variable {α β α' β' : Type} {c c' : Cursor}

def openings : List String := ["let", "const", "fn"]

theorem Cursor.sees_of_eof (h : c.current.kind = .eof) (texts : List String) :
    c.sees texts = false := by
  rw [Cursor.sees, h]
  rfl

theorem Cursor.ne_eof_of_sees {texts : List String} (h : c.sees texts = true) :
    c.current.kind ≠ .eof := by
  obtain ⟨_, _, his⟩ := Cursor.is_of_sees h
  exact his.not_eof

theorem current_of_advance {t : Token} {d : Cursor} (h : advance c = .ok (t, d)) :
    t = c.current := by
  change (if c.current.kind = .eof then (_ : Parse Token) else _) c = _ at h
  split at h
  · cases h
    rfl
  · cases hshift : c.shift with
    | error failure =>
      rw [hshift] at h
      cases h
    | ok next =>
      rw [hshift] at h
      cases h
      rfl

theorem Cursor.text_not_mem_of_sees {texts : List String} (h : c.sees texts = true)
    (htexts : ∀ text ∈ texts, text ∉ openings) : c.current.text ∉ openings := by
  obtain ⟨text, hmem, his⟩ := Cursor.is_of_sees h
  exact his.text_eq ▸ htexts text hmem

/-- A cursor at the operator `<`, with which no statement starts. -/
def Cursor.IsAtLess (c : Cursor) : Prop :=
  c.current.kind = .op ∧ c.current.text = "<"

theorem Cursor.IsAtLess.sees_eq_false (h : c.IsAtLess) {texts : List String}
    (htexts : "<" ∉ texts) : c.sees texts = false := by
  rw [Cursor.sees, h.2]
  simp [htexts]

structure Comparison where
  tokens : Token → Token → Prop
  marks : Option Mark → Option Mark → Prop
  nodes : Node → Node → Prop
  cursors : Cursor → Cursor → Prop
  failures : Failure → Failure → Prop
  /-- Failures of the first reading after which nothing is asked of the second. -/
  excused : Failure → Prop
  /-- Cursors at the word behind which the streams part. -/
  parting : Cursor → Cursor → Prop
  /-- Cursors at which the first reading has ended a statement but cannot go on. -/
  lost : Cursor → Prop

namespace Comparison

variable {X : Comparison} {R : α → α' → Prop} {S : β → β' → Prop}

inductive Agree (X : Comparison) (R : α → α' → Prop) :
    Except Failure (α × Cursor) → Except Failure (α' × Cursor) → Prop where
  | ok {a : α} {a' : α'} {c c' : Cursor} : R a a' → X.cursors c c' →
      Agree X R (.ok (a, c)) (.ok (a', c'))
  | error {f f' : Failure} : X.failures f f' → Agree X R (.error f) (.error f')
  | excused {f : Failure} (r : Except Failure (α' × Cursor)) : X.excused f →
      Agree X R (.error f) r

/-- Tokens that stand for one another and have the same text. -/
def words (X : Comparison) (t t' : Token) : Prop :=
  X.tokens t t' ∧ t.Alike t'

/-- From two cursors on, two parsers have results that go together. -/
def Follows (X : Comparison) (R : α → α' → Prop) (p : Parse α) (p' : Parse α') (c c' : Cursor) :
    Prop :=
  X.Agree R (p c) (p' c')

/-- A parser ends where the first reading cannot go on. -/
def EndsLost (X : Comparison) (p : Parse α) (c : Cursor) : Prop :=
  ∃ a d, p c = .ok (a, d) ∧ X.lost d

/-- Trees that are built alike from what stands for one another stand for one another, and
they are variables, assignments or main functions together. -/
structure IsCongruence (X : Comparison) : Prop where
  absent : X.nodes .absent .absent
  number (x : Float) {m m' : Option Mark} : X.marks m m' →
    X.nodes (.number x m) (.number x m')
  string (body : String) {m m' : Option Mark} : X.marks m m' →
    X.nodes (stringLiteral body m) (stringLiteral body m')
  nilLiteral {m m' : Option Mark} : X.marks m m' → X.nodes (.nilLiteral m) (.nilLiteral m')
  identifier (name : Name) {m m' : Option Mark} : X.marks m m' →
    X.nodes (.identifier name m) (.identifier name m')
  array {ns ns' : List Node} {m m' : Option Mark} : List.Forall₂ X.nodes ns ns' →
    X.marks m m' → X.nodes (.array ns m) (.array ns' m')
  range {a a' b b' : Node} {m m' : Option Mark} : X.nodes a a' → X.nodes b b' →
    X.marks m m' → X.nodes (.range a b m) (.range a' b' m')
  call (name : Name) {ns ns' : List Node} {m m' : Option Mark} : List.Forall₂ X.nodes ns ns' →
    X.marks m m' → X.nodes (.call name ns m) (.call name ns' m')
  index {a a' b b' : Node} {m m' : Option Mark} : X.nodes a a' → X.nodes b b' →
    X.marks m m' → X.nodes (.index a b m) (.index a' b' m')
  field (name : Name) {e e' : Node} {m m' : Option Mark} : X.nodes e e' → X.marks m m' →
    X.nodes (.field e name m) (.field e' name m')
  unary (op : Name) {e e' : Node} {m m' : Option Mark} : X.nodes e e' → X.marks m m' →
    X.nodes (.unary op e m) (.unary op e' m')
  binary (op : Name) {a a' b b' : Node} {m m' : Option Mark} : X.nodes a a' → X.nodes b b' →
    X.marks m m' → X.nodes (.binary op a b m) (.binary op a' b' m')
  assignment (name : Name) {e e' : Node} {m m' : Option Mark} : X.nodes e e' → X.marks m m' →
    X.nodes (.assignment name e m) (.assignment name e' m')
  letDecl (name : Name) (isMutable : Bool) {e e' : Node} {m m' : Option Mark} : X.nodes e e' →
    X.marks m m' → X.nodes (.letDecl name e isMutable m) (.letDecl name e' isMutable m')
  printLine {e e' : Node} {m m' : Option Mark} : X.nodes e e' → X.marks m m' →
    X.nodes (.printLine e m) (.printLine e' m')
  ifElse {e e' a a' b b' : Node} {m m' : Option Mark} : X.nodes e e' → X.nodes a a' →
    X.nodes b b' → X.marks m m' → X.nodes (.ifElse e a b m) (.ifElse e' a' b' m')
  forIn (name : Name) {e e' body body' : Node} {m m' : Option Mark} : X.nodes e e' →
    X.nodes body body' → X.marks m m' → X.nodes (.forIn name e body m) (.forIn name e' body' m')
  whileLoop {e e' body body' : Node} {m m' : Option Mark} : X.nodes e e' → X.nodes body body' →
    X.marks m m' → X.nodes (.whileLoop e body m) (.whileLoop e' body' m')
  breakLoop {m m' : Option Mark} : X.marks m m' → X.nodes (.breakLoop m) (.breakLoop m')
  continueLoop {m m' : Option Mark} : X.marks m m' →
    X.nodes (.continueLoop m) (.continueLoop m')
  returnWith {e e' : Node} {m m' : Option Mark} : X.nodes e e' → X.marks m m' →
    X.nodes (.returnWith e m) (.returnWith e' m')
  expression {e e' : Node} {m m' : Option Mark} : X.nodes e e' → X.marks m m' →
    X.nodes (.expression e m) (.expression e' m')
  block {ns ns' : List Node} {m m' : Option Mark} : List.Forall₂ X.nodes ns ns' →
    X.marks m m' → X.nodes (.block ns m) (.block ns' m')
  fnDecl (name : Name) (params : List Name) {body body' : Node} {m m' : Option Mark} :
    X.nodes body body' → X.marks m m' →
    X.nodes (.fnDecl name params body m) (.fnDecl name params body' m')
  program {fs fs' gs gs' : List Node} {last last' : Token} : List.Forall₂ X.nodes fs fs' →
    List.Forall₂ X.nodes gs gs' → X.tokens last last' →
    X.nodes (.program fs gs last.position.offset none) (.program fs' gs' last'.position.offset none)
  identifier_cases {e e' : Node} : X.nodes e e' →
    (∃ name m m', e = .identifier name m ∧ e' = .identifier name m' ∧ X.marks m m') ∨
      (∀ name m, e ≠ .identifier name m) ∧ ∀ name m, e' ≠ .identifier name m
  assignment_cases {e e' : Node} : X.nodes e e' →
    (∃ name v v' m m', e = .assignment name v m ∧ e' = .assignment name v' m') ∨
      (∀ name v m, e ≠ .assignment name v m) ∧ ∀ name v m, e' ≠ .assignment name v m
  isMain {e e' : Node} : X.nodes e e' → Grammar.isMain e = Grammar.isMain e'

structure IsLawful (X : Comparison) : Prop extends IsCongruence X where
  current {c c' : Cursor} : X.cursors c c' → X.tokens c.current c'.current
  alike {t t' : Token} : X.tokens t t' → t.ReadsAlike t'
  mark {t t' : Token} : X.tokens t t' → X.marks t.mark t'.mark
  same (f : Failure) : X.failures f f
  failAt (issue : SyntaxIssue) {m m' : Option Mark} : X.marks m m' →
    X.failures (.error ⟨.grammar issue, m⟩) (.error ⟨.grammar issue, m'⟩)
  unclosed {opened opened' t t' : Token} : X.tokens opened opened' → X.tokens t t' →
    X.failures (.error ⟨.grammar (.unclosedBrace opened.position), t.mark⟩)
      (.error ⟨.grammar (.unclosedBrace opened'.position), t'.mark⟩)
  parting {c c' : Cursor} : X.parting c c' →
    c.current.kind = .keyword ∧ c.current.text ∈ openings
  advance {c c' : Cursor} : X.cursors c c' → ¬ X.parting c c' →
    X.Agree X.tokens (advance c) (advance c')
  lost {c : Cursor} : X.lost c → c.IsAtLess
  excused {c : Cursor} (f : Failure) : X.lost c → X.excused f

/-! ## Sequences -/

theorem follows_pure {a : α} {a' : α'} (h : R a a') (hc : X.cursors c c') :
    X.Follows R (pure a) (pure a') c c' :=
  .ok h hc

theorem Follows.bind_of_ok {p : Parse α} {p' : Parse α'} {k : α → Parse β} {k' : α' → Parse β'}
    (hp : X.Follows R p p' c c') (hk : ∀ a a' d d', p c = .ok (a, d) → R a a' → X.cursors d d' →
      X.Follows S (k a) (k' a') d d') : X.Follows S (p >>= k) (p' >>= k') c c' := by
  unfold Follows at hp ⊢
  change X.Agree S (p c >>= fun r => k r.1 r.2) (p' c' >>= fun r => k' r.1 r.2)
  generalize hr : p c = r, p' c' = r' at hp
  cases hp with
  | ok ha hd => exact hk _ _ _ _ hr ha hd
  | error hf => exact .error hf
  | excused _ hf => exact .excused _ hf

theorem Follows.bind {p : Parse α} {p' : Parse α'} {k : α → Parse β} {k' : α' → Parse β'}
    (hp : X.Follows R p p' c c') (hk : ∀ a a' d d', R a a' → X.cursors d d' →
      X.Follows S (k a) (k' a') d d') : X.Follows S (p >>= k) (p' >>= k') c c' :=
  hp.bind_of_ok fun a a' d d' _ => hk a a' d d'

theorem Follows.bind_pure {p : Parse α} {p' : Parse α'} {f : α → β} {f' : α' → β'}
    (hp : X.Follows R p p' c c') (h : ∀ a a', R a a' → S (f a) (f' a')) :
    X.Follows S (p >>= fun a => pure (f a)) (p' >>= fun a => pure (f' a)) c c' :=
  hp.bind fun a a' _ _ ha hd => follows_pure (h a a' ha) hd

theorem Follows.ite {cond : Prop} [Decidable cond] {p q : Parse α} {p' q' : Parse α'}
    (hp : cond → X.Follows R p p' c c') (hq : ¬ cond → X.Follows R q q' c c') :
    X.Follows R (if cond then p else q) (if cond then p' else q') c c' := by
  split
  next h => exact hp h
  next h => exact hq h

theorem follows_get {k : Cursor → Parse β} {k' : Cursor → Parse β'}
    (h : X.Follows S (k c) (k' c') c c') : X.Follows S (get >>= k) (get >>= k') c c' := h

/-- Loops with the budgets of their cursors follow one another if they do with any budget
that is large enough. -/
theorem follows_of_budgets {loop : Nat → Parse α} {loop' : Nat → Parse α'}
    (hloop : ∀ n m, c.left < n → c.left < m → loop n c = loop m c)
    (hloop' : ∀ n m, c'.left < n → c'.left < m → loop' n c' = loop' m c')
    (h : ∀ n, c.left < n → X.Follows R (loop n) (loop' n) c c') :
    X.Follows R (loop c.budget) (loop' c'.budget) c c' := by
  have hlt := c.left_lt_budget
  have hlt' := c'.left_lt_budget
  have hcommon := h (max c.budget c'.budget) (by omega)
  unfold Follows at hcommon ⊢
  rwa [hloop _ c.budget (by omega) hlt, hloop' _ c'.budget (by omega) hlt'] at hcommon

section Tokens

variable (hX : X.IsLawful) (hc : X.cursors c c')
include hX

theorem follows_throw (f : Failure) : X.Follows R (throw f : Parse α) (throw f : Parse α') c c' :=
  .error (hX.same f)

theorem follows_failAt (issue : SyntaxIssue) {m m' : Option Mark} (hm : X.marks m m') :
    X.Follows R (failAt m issue) (failAt m' issue) c c' :=
  .error (hX.failAt issue hm)

theorem not_parting_of_kind (h : c.current.kind ≠ .keyword) : ¬ X.parting c c' :=
  fun hparting => h (hX.parting hparting).1

theorem not_parting_of_text (h : c.current.text ∉ openings) : ¬ X.parting c c' :=
  fun hparting => h (hX.parting hparting).2

theorem not_parting_of_sees {texts : List String} (h : c.sees texts = true)
    (htexts : ∀ text ∈ texts, text ∉ openings) : ¬ X.parting c c' :=
  not_parting_of_text hX (Cursor.text_not_mem_of_sees h htexts)

include hc

theorem sees_eq_of_cursors (texts : List String) : c.sees texts = c'.sees texts := by
  have halike := hX.alike (hX.current hc)
  by_cases heof : c.current.kind = .eof
  · rw [Cursor.sees_of_eof heof, Cursor.sees_of_eof (halike.kind ▸ heof)]
  · rw [Cursor.sees, Cursor.sees, halike.kind, (halike.alike heof).text]

theorem follows_peek {k : Token → Parse β} {k' : Token → Parse β'}
    (h : X.tokens c.current c'.current → X.Follows S (k c.current) (k' c'.current) c c') :
    X.Follows S (peek >>= k) (peek >>= k') c c' :=
  h (hX.current hc)

theorem follows_sees {texts : List String} {p q : Parse α} {p' q' : Parse α'}
    (hp : c.sees texts = true → X.Follows R p p' c c')
    (hq : c.sees texts = false → X.Follows R q q' c c') :
    X.Follows R (sees texts >>= fun isSeen => if isSeen = true then p else q)
      (sees texts >>= fun isSeen => if isSeen = true then p' else q') c c' := by
  change X.Follows R (if c.sees texts = true then p else q)
    (if c'.sees texts = true then p' else q') c c'
  rw [← sees_eq_of_cursors hX hc texts]
  exact .ite hp fun h => hq (Bool.eq_false_iff.2 h)

theorem follows_advance (hparting : ¬ X.parting c c') {k : Token → Parse β} {k' : Token → Parse β'}
    (hk : ∀ t t' d d', X.tokens t t' → X.cursors d d' → X.Follows S (k t) (k' t') d d') :
    X.Follows S (advance >>= k) (advance >>= k') c c' :=
  Follows.bind (hX.advance hc hparting) hk

theorem follows_word (hne : c.current.kind ≠ .eof) (hparting : ¬ X.parting c c') :
    X.Follows X.words advance advance c c' := by
  have hadvance := hX.advance hc hparting
  unfold Follows
  generalize hr : advance c = r, advance c' = r' at hadvance ⊢
  cases hadvance with
  | ok ht hd =>
    refine .ok ⟨ht, (hX.alike ht).alike ?_⟩ hd
    rwa [current_of_advance hr]
  | error hf => exact .error hf
  | excused _ hf => exact .excused _ hf

theorem follows_seen {texts : List String} (hsees : c.sees texts = true)
    (htexts : ∀ text ∈ texts, text ∉ openings) :
    X.Follows X.words advance advance c c' :=
  follows_word hX hc (Cursor.ne_eof_of_sees hsees) (not_parting_of_sees hX hsees htexts)

theorem follows_consume_of_not_parting (text : String) (hparting : ¬ X.parting c c') :
    X.Follows X.tokens (consume text) (consume text) c c' := by
  have halike := hX.alike (hX.current hc)
  change X.Follows X.tokens (if c.sees [text] = true then _ else failAt _ _)
    (if c'.sees [text] = true then _ else failAt _ _) c c'
  rw [← sees_eq_of_cursors hX hc, halike.describe_eq]
  exact .ite (fun _ => hX.advance hc hparting)
    fun _ => follows_failAt hX _ (hX.mark (hX.current hc))

theorem follows_consume (text : String) (htext : text ∉ openings) :
    X.Follows X.tokens (consume text) (consume text) c c' := by
  by_cases hsees : c.sees [text] = true
  · refine follows_consume_of_not_parting hX hc text (not_parting_of_sees hX hsees ?_)
    simpa using htext
  · have halike := hX.alike (hX.current hc)
    change X.Follows X.tokens (if c.sees [text] = true then _ else failAt _ _)
      (if c'.sees [text] = true then _ else failAt _ _) c c'
    rw [← sees_eq_of_cursors hX hc, halike.describe_eq, if_neg hsees, if_neg hsees]
    exact follows_failAt hX _ (hX.mark (hX.current hc))

theorem follows_consumeIdent (what : String) :
    X.Follows X.words (consumeIdent what) (consumeIdent what) c c' := by
  refine follows_peek hX hc fun htoken => ?_
  have halike := hX.alike htoken
  rw [← halike.kind, halike.describe_eq]
  refine .ite (fun hkind => follows_word hX hc ?_ (not_parting_of_kind hX ?_))
    fun _ => follows_failAt hX _ (hX.mark htoken) <;>
  · rw [hkind]
    exact nofun

theorem follows_isThere (text : String) (htext : text ∉ openings) :
    X.Follows Eq (accept text) (accept text) c c' := by
  refine follows_sees hX hc (fun hsees => ?_) fun _ => follows_pure rfl hc
  have hparting : ¬ X.parting c c' := not_parting_of_sees hX hsees (by simpa using htext)
  exact follows_advance hX hc hparting fun _ _ _ _ _ hd => follows_pure rfl hd

theorem follows_accept (text : String) (htext : text ∉ openings) {p q : Parse α} {p' q' : Parse α'}
    (hp : ∀ d d', d.left < c.left → X.cursors d d' → X.Follows R p p' d d')
    (hq : X.Follows R q q' c c') :
    X.Follows R (accept text >>= fun isThere => if isThere = true then p else q)
      (accept text >>= fun isThere => if isThere = true then p' else q') c c' := by
  unfold Follows
  rw [accept_bind, accept_bind, ← sees_eq_of_cursors hX hc]
  split
  next hsees =>
    have hparting : ¬ X.parting c c' := not_parting_of_sees hX hsees (by simpa using htext)
    refine Follows.bind_of_ok (hX.advance hc hparting) fun t t' d d' hadvance _ hd => ?_
    have hleft := left_lt_of_advance (Cursor.is_of_sees_singleton hsees).not_eof hadvance
    exact hp d d' hleft hd
  · exact hq

end Tokens

end Comparison

end Syntax

end Orus
