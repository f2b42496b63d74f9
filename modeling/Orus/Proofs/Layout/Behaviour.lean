import Orus.Proofs.Escapes
import Orus.Proofs.Layout.Parsing
import Orus.Proofs.Likeness.Running

/-! # Layout never changes behaviour

Source texts with the same tokens up to places differ only in blanks and comments. Both
give the same program or are rejected for the same reason, and in normal mode both runs
show the same.
-/

namespace Orus

def Cause.issue? : Cause → Option SyntaxIssue
  | .grammar issue => some issue
  | _ => none

/-- Causes of one kind that ask for the same, find the same and say the same, except that
the wording for an unclosed brace tells where the brace is. -/
structure SameCause (c c' : Cause) : Prop where
  kind : c.kind = c'.kind
  expectation : c.issue?.map SyntaxIssue.expectation = c'.issue?.map SyntaxIssue.expectation
  found : c.issue?.map SyntaxIssue.found = c'.issue?.map SyntaxIssue.found
  message : c.message = c'.message ∨ ∃ p p' : Position,
    c = .grammar (.unclosedBrace p) ∧ c' = .grammar (.unclosedBrace p')

theorem Cause.Alike.sameCause {c c' : Cause} (h : c.Alike c') : SameCause c c' := by
  cases h with
  | same => exact ⟨rfl, rfl, rfl, .inl rfl⟩
  | unclosedBrace p p' => exact ⟨rfl, rfl, rfl, .inr ⟨p, p', rfl, rfl⟩⟩

theorem Token.alike_of_content_eq {tokens tokens' : List Token}
    (h : tokens.map Token.content = tokens'.map Token.content) :
    List.Forall₂ Token.Alike tokens tokens' := by
  rw [← List.forall₂_eq_eq_eq, List.forall₂_map_left_iff, List.forall₂_map_right_iff] at h
  apply h.imp
  intro t t' ht
  simp only [Token.content, Prod.mk.injEq] at ht
  exact ⟨ht.1, ht.2.1, ht.2.2⟩

/-- Texts with the same tokens up to places are both programs, equal up to places, or are both
rejected for alike causes. -/
theorem Syntax.parse_alike_of_content_eq {source source' : String}
    (h : (Token.scan source).map Token.content = (Token.scan source').map Token.content) :
    (∃ p p', parse source = .ok p ∧ parse source' = .ok p' ∧ p.Alike p') ∨
    ∃ e e', parse source = .error (.error e) ∧ parse source' = .error (.error e') ∧
      e.cause.Alike e'.cause := by
  have hparsed := agreeParsed_parse (Token.alike_of_content_eq h)
  obtain ⟨p, hp, _⟩ | ⟨e, he⟩ := Run.parse_cases source
  · obtain ⟨p', hp', halike⟩ := hparsed.ok_of_ok hp
    exact .inl ⟨p, p', hp, hp', halike⟩
  · rw [he] at hparsed
    generalize hparse : parse source' = r at hparsed
    cases hparsed with
    | error hf =>
      cases hf with
      | error hcause => exact .inr ⟨_, _, he, rfl, hcause⟩

namespace Run

inductive SameWarning : String → String → Prop where
  | same (warning : String) : SameWarning warning warning
  | moved (message : String) (p p' : Position) :
      SameWarning (message ++ p.mark.note) (message ++ p'.mark.note)

theorem WarningAlike.sameWarning {w w' : String} (h : WarningAlike .layout w w') :
    SameWarning w w' := by
  obtain ⟨message, rfl | ⟨p, p', rfl, rfl⟩⟩ := h
  · exact .same _
  · exact .moved message p p'

/-- The same fault, or results that print the same, warn of the same up to places and fail,
if they fail, for related causes. -/
inductive SameRun (Same : Cause → Cause → Prop) :
    Except Fault Result → Except Fault Result → Prop where
  | fault (fault : Fault) : SameRun Same (.error fault) (.error fault)
  | result {r r' : Result} : r.output = r'.output → r.partialOutput = r'.partialOutput →
      Option.Rel Same (r.error.map Error.cause) (r'.error.map Error.cause) →
      List.Forall₂ SameWarning r.diagnostics r'.diagnostics → SameRun Same (.ok r) (.ok r')

theorem sameRun_resultOf (length length' : Int) {s s' : State} (hs : s.Alike .layout s')
    {error error' : Option Error} (h : error.map Error.cause = error'.map Error.cause) :
    SameRun Eq (resultOf .normal length s error) (resultOf .normal length' s' error') := by
  have houtput := congrArg Array.toList hs.output
  have hdiagnostics := hs.diagnostics.imp fun _ _ => WarningAlike.sameWarning
  cases error with
  | none =>
    cases error' with
    | none => exact .result houtput rfl .none hdiagnostics
    | some e' => cases h
  | some e =>
    cases error' with
    | none => cases h
    | some e' =>
      have hcause : e.cause = e'.cause := Option.some.inj h
      apply SameRun.result
      · rfl
      · exact houtput
      · apply Option.Rel.some
        rw [cause_placed, cause_placed, hcause]
      · exact hdiagnostics

theorem sameRun_outcomeOf (cfg : Config) (length length' : Int)
    {r r' : EStateM.Result Stop State Unit} (h : Agree .layout Eq r r') :
    SameRun Eq (outcomeOf cfg .normal length r).result
      (outcomeOf cfg .normal length' r').result := by
  cases h with
  | ok _ hs => exact sameRun_resultOf length length' hs rfl
  | error he hs =>
    cases he with
    | error h => exact sameRun_resultOf length length' hs (congrArg some h.cause)
    | _ => exact .fault _

/-- Two source texts whose tokens agree on kind, text and value are both programs that are
equal up to places and the length of the text, or are both rejected for the same reason.
Simulating them in normal mode, with the same limits, time and cancellation, shows the same
on both; errors of a running program have the same cause on both. -/
theorem simulate_of_content_eq {source source' : String}
    (h : (Token.scan source).map Token.content = (Token.scan source').map Token.content)
    (cfg : Config) :
    (∃ p p', Syntax.parse source = .ok p ∧ Syntax.parse source' = .ok p' ∧
      p.unplaced = p'.unplaced ∧
      SameRun Eq (simulate cfg (.str "normal") source).result
        (simulate cfg (.str "normal") source').result) ∨
    ∃ e e', Syntax.parse source = .error (.error e) ∧ Syntax.parse source' = .error (.error e') ∧
      SameCause e.cause e'.cause ∧
      SameRun SameCause (simulate cfg (.str "normal") source).result
        (simulate cfg (.str "normal") source').result := by
  have hparsed := Syntax.agreeParsed_parse (Token.alike_of_content_eq h)
  obtain ⟨p, hp, _⟩ | ⟨e, he⟩ := parse_cases source
  · obtain ⟨p', hp', halike⟩ : ∃ p', Syntax.parse source' = .ok p' ∧ p.Alike p' := by
      rw [hp] at hparsed
      generalize Syntax.parse source' = r at hparsed ⊢
      cases hparsed with
      | ok halike => exact ⟨_, rfl, halike⟩
    apply Or.inl
    refine ⟨p, p', hp, hp', halike.unplaced_eq, ?_⟩
    rw [simulate_of_parse cfg rfl hp, simulate_of_parse cfg rfl hp']
    exact sameRun_outcomeOf cfg _ _ (agree_execute cfg nestingLimit halike)
  · obtain ⟨e', he', halike⟩ : ∃ e', Syntax.parse source' = .error (.error e') ∧
        e.cause.Alike e'.cause := by
      rw [he] at hparsed
      generalize Syntax.parse source' = r at hparsed ⊢
      cases hparsed with
      | error hf =>
        cases hf with
        | error hcause => exact ⟨_, rfl, hcause⟩
    apply Or.inr
    refine ⟨e, e', he, he', halike.sameCause, ?_⟩
    simp only [simulate, he, he']
    exact .result rfl rfl (.some halike.sameCause) .nil

/-- A program that warns of a name without a value and then fails, on one line. -/
def crampedSource : String :=
  "fn main() \x7b print(\"\x7bx\x7d\"); y = 1 / 0; \x7d"

def spaciousSource : String :=
  "fn main() \x7b\n  // no x here\n  print(\"\x7bx\x7d\");\n\n  y = 1 / 0;\n\x7d\n"

theorem simulate_spaciousSource :
    crampedSource ≠ spaciousSource ∧
    (Token.scan crampedSource).map Token.content = (Token.scan spaciousSource).map Token.content ∧
    ((∃ p p', Syntax.parse crampedSource = .ok p ∧ Syntax.parse spaciousSource = .ok p' ∧
      p.unplaced = p'.unplaced ∧
      SameRun Eq (simulate {} (.str "normal") crampedSource).result
        (simulate {} (.str "normal") spaciousSource).result) ∨
    ∃ e e', Syntax.parse crampedSource = .error (.error e) ∧
      Syntax.parse spaciousSource = .error (.error e') ∧ SameCause e.cause e'.cause ∧
      SameRun SameCause (simulate {} (.str "normal") crampedSource).result
        (simulate {} (.str "normal") spaciousSource).result) := by
  have hcontent : (Token.scan crampedSource).map Token.content =
      (Token.scan spaciousSource).map Token.content := by decide +kernel
  exact ⟨by decide, hcontent, simulate_of_content_eq hcontent {}⟩

end Run

end Orus
