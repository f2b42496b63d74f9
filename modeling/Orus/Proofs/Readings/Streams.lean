import Orus.Proofs.Readings.Rules

/-! # Streams that are read the same

Readings that go together give equal trees here. More depth changes nothing but the failures
from too much nesting.
-/

namespace Orus.Syntax

variable {cursors parting : Cursor → Cursor → Prop} {excused : Failure → Prop}
  {lost : Cursor → Prop}

/-! ## Equal trees -/

/-- Readings of two streams in which only equal things stand for one another. -/
def Comparison.exact (cursors : Cursor → Cursor → Prop) (excused : Failure → Prop)
    (parting : Cursor → Cursor → Prop) (lost : Cursor → Prop) : Comparison where
  tokens := Eq
  marks := Eq
  nodes := Eq
  cursors
  failures := Eq
  excused
  parting
  lost

open Comparison

theorem isCongruence_exact : (exact cursors excused parting lost).IsCongruence := by
  constructor
  case absent => rfl
  case identifier_cases =>
    rintro e _ rfl
    cases e with
    | identifier name m => exact .inl ⟨name, m, m, rfl, rfl, rfl⟩
    | _ => exact .inr ⟨nofun, nofun⟩
  case assignment_cases =>
    rintro e _ rfl
    cases e with
    | assignment name v m => exact .inl ⟨name, v, v, m, m, rfl, rfl⟩
    | _ => exact .inr ⟨nofun, nofun⟩
  all_goals
    simp only [exact, List.forall₂_eq_eq_eq]
    intros
    subst_vars
    rfl

/-- The laws of an exact comparison are about its cursors alone. -/
theorem isLawful_exact (hcurrent : ∀ {c c'}, cursors c c' → c.current = c'.current)
    (hparting : ∀ {c c'}, parting c c' → c.current.kind = .keyword ∧ c.current.text ∈ openings)
    (hadvance : ∀ {c c'}, cursors c c' → ¬ parting c c' →
      (exact cursors excused parting lost).Agree Eq (advance c) (advance c'))
    (hlost : ∀ {c}, lost c → c.IsAtLess) (hexcused : ∀ {c f}, lost c → excused f) :
    (exact cursors excused parting lost).IsLawful where
  toIsCongruence := isCongruence_exact
  current := hcurrent
  alike := by
    rintro t _ rfl
    exact (Token.Alike.refl t).readsAlike
  mark := by
    rintro t _ rfl
    rfl
  same _ := rfl
  failAt := by
    rintro issue m _ rfl
    rfl
  unclosed := by
    rintro opened _ t _ rfl rfl
    rfl
  parting := hparting
  advance := hadvance
  lost := hlost
  excused _ := hexcused

/-- Both cursors move on to cursors that stand for one another, or both fail the same. -/
def MoveAlike (cursors : Cursor → Cursor → Prop) (c c' : Cursor) : Prop :=
  (∃ f, c.shift = .error f ∧ c'.shift = .error f) ∨
    ∃ d d', c.shift = .ok d ∧ c'.shift = .ok d' ∧ cursors d d'

theorem moveAlike_self (hself : ∀ d, cursors d d) (c : Cursor) : MoveAlike cursors c c := by
  unfold MoveAlike
  cases c.shift with
  | error f => exact .inl ⟨f, rfl, rfl⟩
  | ok d => exact .inr ⟨d, d, rfl, rfl, hself d⟩

theorem agree_advance_exact {c c' : Cursor} (hcurrent : c.current = c'.current)
    (hc : cursors c c') (hmove : MoveAlike cursors c c') :
    (exact cursors excused parting lost).Agree Eq (advance c) (advance c') := by
  change (exact cursors excused parting lost).Agree Eq
    ((if c.current.kind = .eof then (_ : Parse Token) else _) c)
    ((if c'.current.kind = .eof then (_ : Parse Token) else _) c')
  rw [hcurrent]
  split
  · exact .ok rfl hc
  · obtain ⟨f, hf, hf'⟩ | ⟨d, d', hd, hd', hcursors⟩ := hmove
    · rw [hf, hf']
      exact .error rfl
    · rw [hd, hd']
      exact .ok rfl hcursors

theorem parseTokens_of_start_error (depth : Nat) {tokens : List Token} {f : Failure}
    (h : Cursor.start tokens = .error f) : parseTokens depth tokens = .error f := by
  rw [parseTokens, h]
  rfl

theorem parseTokens_of_start (depth : Nat) {tokens : List Token} {c : Cursor}
    (h : Cursor.start tokens = .ok c) :
    parseTokens depth tokens = (Grammar.programRule (.ofDepth depth) c).map Prod.fst := by
  rw [parseTokens, h]
  rfl

/-- Streams that start alike are two names of one program, or the first has an excuse, if
trees and failures stand only for themselves. -/
theorem parseTokens_of_lawful {X : Comparison} (hX : X.IsLawful)
    (hnodes : ∀ n n', X.nodes n n' → n = n') (hfailures : ∀ f f', X.failures f f' → f = f')
    (more : Nat) (hdeep : more = 0 ∨ X.excused (.fault .tooDeep))
    (hdeclares : ∀ n, X.Grammars (.ofDepth n) (.ofDepth (n + more)) →
      X.Declares (.ofDepth n) (.ofDepth (n + more))) (depth : Nat) {tokens tokens' : List Token}
    (hstart : MoveAlike X.cursors ⟨.eofAt .start, tokens⟩ ⟨.eofAt .start, tokens'⟩) :
    (∃ f, parseTokens depth tokens = .error f ∧ X.excused f) ∨
      parseTokens depth tokens = parseTokens (depth + more) tokens' := by
  obtain ⟨f, hf, hf'⟩ | ⟨c, c', hc, hc', hcursors⟩ := hstart
  · rw [parseTokens_of_start_error _ hf, parseTokens_of_start_error _ hf']
    exact .inr rfl
  rw [parseTokens_of_start _ hc, parseTokens_of_start _ hc']
  have hg := grammars_ofDepth hX more hdeep hdeclares depth
  have hrule := follows_programRule hX hg hcursors (hdeclares depth hg)
  unfold Follows at hrule
  generalize Grammar.programRule (.ofDepth depth) c = r at hrule ⊢
  generalize Grammar.programRule (.ofDepth (depth + more)) c' = r' at hrule ⊢
  cases hrule with
  | ok hp _ =>
    obtain rfl := hnodes _ _ hp
    exact .inr rfl
  | error hf =>
    obtain rfl := hfailures _ _ hf
    exact .inr rfl
  | @excused f _ hf => exact .inl ⟨f, rfl, hf⟩

theorem parseTokens_of_exact (hX : (exact cursors excused parting lost).IsLawful) (more : Nat)
    (hdeep : more = 0 ∨ excused (.fault .tooDeep))
    (hdeclares : ∀ n, (exact cursors excused parting lost).Grammars (.ofDepth n)
      (.ofDepth (n + more)) → (exact cursors excused parting lost).Declares (.ofDepth n)
        (.ofDepth (n + more))) (depth : Nat) {tokens tokens' : List Token}
    (hstart : MoveAlike cursors ⟨.eofAt .start, tokens⟩ ⟨.eofAt .start, tokens'⟩) :
    (∃ f, parseTokens depth tokens = .error f ∧ excused f) ∨
      parseTokens depth tokens = parseTokens (depth + more) tokens' :=
  parseTokens_of_lawful hX (fun _ _ h => h) (fun _ _ h => h) more hdeep hdeclares depth hstart

/-! ## Depth -/

/-- One stream, read with less depth and with more. -/
def Comparison.deepening : Comparison :=
  exact Eq (· = .fault .tooDeep) (fun _ _ => False) fun _ => False

theorem isLawful_deepening : deepening.IsLawful := by
  refine isLawful_exact (fun h => congrArg _ h) nofun ?_ nofun nofun
  rintro c _ rfl -
  exact agree_advance_exact rfl rfl (moveAlike_self (fun _ => rfl) c)

theorem declares_deepening (g g' : Grammar) : deepening.Declares g g' :=
  ⟨fun _ => nofun, fun _ => nofun⟩

/-- With more depth a stream gives the same, unless it was nested too deeply before. -/
theorem parseTokens_deeper (depth more : Nat) (tokens : List Token) :
    parseTokens depth tokens = .error (.fault .tooDeep) ∨
      parseTokens depth tokens = parseTokens (depth + more) tokens := by
  obtain ⟨_, hf, rfl⟩ | h := parseTokens_of_exact isLawful_deepening more (.inr rfl)
    (fun _ _ => declares_deepening _ _) depth (moveAlike_self (fun _ => rfl) _)
  · exact .inl hf
  · exact .inr h

end Orus.Syntax
