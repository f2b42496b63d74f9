import Orus.Proofs.Escapes
import Orus.Proofs.Places.Running
import Orus.Proofs.Soundness

/-! # The places of reported errors

Parsing a source text gives trees at the places of its tokens, and a run of these reports
its errors there. So an error is reported at a token, unless it is not about any place.
-/

namespace Orus

def IsTokenMark (source : String) (mark : Option Mark) : Prop :=
  ∃ t ∈ Token.scan source, mark = t.mark

variable {source : String}

theorem IsTokenMark.ne_none {mark : Option Mark} (h : IsTokenMark source mark) : mark ≠ none := by
  obtain ⟨t, -, rfl⟩ := h
  nofun

theorem Error.IsPlaced.mark_eq_none_iff {e : Error} (h : e.IsPlaced (IsTokenMark source)) :
    e.mark = none ↔ e.cause.kind.isPlaceless = true := by
  unfold IsPlaced at h
  split at h
  next hkind => exact ⟨fun _ => hkind, fun _ => h⟩
  next hkind => exact ⟨fun hnone => absurd hnone h.ne_none, fun hk => absurd hk hkind⟩

theorem Error.IsPlaced.mark_eq_none_iff_of_ne {e : Error} (h : e.IsPlaced (IsTokenMark source))
    (hcause : e.cause ≠ .grammar .nestedTooDeeply) :
    e.mark = none ↔ e.cause.kind = .missingMain ∨ e.cause.kind = .resourceExhausted ∨
      e.cause.kind = .cancelled ∨ e.cause = .grammar .nestedTooDeeply := by
  rw [h.mark_eq_none_iff, ErrorKind.isPlaceless_iff]
  simp only [hcause, or_false]

theorem Error.IsPlaced.isTokenMark {e : Error} (h : e.IsPlaced (IsTokenMark source))
    (hmark : e.mark ≠ none) : IsTokenMark source e.mark := by
  unfold IsPlaced at h
  split at h
  · exact absurd h hmark
  · exact h

/-! ## Parsing -/

namespace Syntax

theorem parseTokens_isPlaced (source : String) :
    (∃ program, parseTokens nestingLimit (Token.scan source) = .ok program ∧
      ∀ n ∈ program.children, n.IsPlaced (IsTokenMark source)) ∨
    ∃ failure, parseTokens nestingLimit (Token.scan source) = .error failure ∧
      IsPlacedFailure (IsTokenMark source) failure := by
  refine parseTokens_of_delivers suits_placed (fun hnil => ?_) (fun t ht => ⟨t, ht, rfl⟩)
    (Grammar.places_programRule (Grammar.isPlacing_ofDepth nestingLimit))
  -- even an empty text has the token that marks its end
  obtain ⟨tokens, eof, hscan, -⟩ := Token.scan_eq_append source
  exact absurd (hscan.symm.trans hnil) (List.append_ne_nil_of_right_ne_nil tokens nofun)

theorem isPlaced_of_parse {program : Node} (h : parse source = .ok program) :
    ∀ n ∈ program.children, n.IsPlaced (IsTokenMark source) := by
  rcases parseTokens_isPlaced source with ⟨program', hparse, hplaced⟩ | ⟨failure, hparse, -⟩
  · cases (parseTokens_of_parse h).symm.trans hparse
    exact hplaced
  · cases (parseTokens_of_parse h).symm.trans hparse

/-- The parser reports an error at a token or that there is too much nesting. -/
theorem error_of_parse {e : Error} (h : parse source = .error (.error e)) :
    e = ⟨.grammar .nestedTooDeeply, none⟩ ∨
      e.IsPlaced (IsTokenMark source) ∧ e.cause ≠ .grammar .nestedTooDeeply := by
  unfold parse parseWithin at h
  split at h
  · cases h
    exact .inl rfl
  · rcases parseTokens_isPlaced source with ⟨program, hparse, -⟩ | ⟨failure, hparse, hfailure⟩
    · cases hparse.symm.trans h
    · cases hparse.symm.trans h
      exact .inr (hfailure e rfl)

end Syntax

/-! ## Running -/

namespace Run

/-- Errors of a run have their places before it ends: that of the last statement is never
asked for. -/
theorem placed_of_isPlaced (s : State) {e : Error} (h : e.IsPlaced (IsTokenMark source)) :
    placed s e = e := by
  unfold placed
  split
  · rfl
  · rfl
  · rfl
  next hmain hexhausted hcancelled =>
    have hplace : e.mark ≠ none := by
      rw [Ne, h.mark_eq_none_iff, ErrorKind.isPlaceless_iff]
      rintro (hkind | hkind | hkind)
      · exact hmain hkind
      · exact hexhausted hkind
      · exact hcancelled hkind
    obtain ⟨mark, hmark⟩ := Option.ne_none_iff_exists'.1 hplace
    obtain ⟨cause, _⟩ := e
    cases hmark
    rfl

theorem isPlaced_of_outcomeOf (cfg : Config) (mode : Mode) (length : Int)
    {c : EStateM.Result Stop State Unit}
    (h : EnsuresResult (Node.IsPlaced (IsTokenMark source))
      (Stop.IsPlaced (IsTokenMark source)) (fun _ => True) c)
    {r : Result} {e : Error} (hr : (outcomeOf cfg mode length c).result = .ok r)
    (he : r.error = some e) : e.IsPlaced (IsTokenMark source) := by
  cases c with
  | ok a t =>
    obtain ⟨e', he', -⟩ := error_of_resultOf hr he
    cases he'
  | error stop t =>
    cases h.1 with
    | error hplaced =>
      obtain ⟨e', he', rfl⟩ := error_of_resultOf hr he
      cases he'
      rw [placed_of_isPlaced t hplaced]
      exact hplaced
    | _ => cases hr

/-- A run of a parsed program reports its errors at tokens, and none of them is about its
syntax. -/
theorem isPlaced_of_run {cfg : Config} {mode : Name} {program : Node}
    (hparse : Syntax.parse source = .ok program) {r : Result} {e : Error}
    (hr : (run cfg mode program).result = .ok r) (he : r.error = some e) :
    e.IsPlaced (IsTokenMark source) ∧ e.cause.kind ≠ .badSyntax := by
  have hprogram : IsProgram program := by
    rcases parse_cases source with ⟨program', hparse', hshape⟩ | ⟨e', hparse'⟩
    · cases hparse.symm.trans hparse'
      exact hshape
    · cases hparse.symm.trans hparse'
  unfold run at hr
  split at hr
  · cases hr
  · have hplaced := points_runProgram (Evaluator.isPlacing_ofDepth cfg nestingLimit)
      (Syntax.isPlaced_of_parse hparse) {} Chain.holds_initial
    have hsafe : SafeResult false false (fun _ => True) (execute cfg nestingLimit program) :=
      safe_runProgram (Evaluator.isSafe_ofDepth cfg nestingLimit) hprogram
    exact ⟨isPlaced_of_outcomeOf cfg _ _ hplaced hr he,
      ((outcomeOf_of_safeResult cfg _ _ hsafe).2 r e hr he).1⟩

/-- An error of a source text is reported at one of its tokens, unless it is that `main` is
missing, that the run was cut short or that the text is nested too deeply to be parsed. -/
theorem errors_reported_at_tokens (cfg : Config) (mode : Name) (source : String) (r : Result)
    (e : Error) (hr : (simulate cfg mode source).result = .ok r) (he : r.error = some e) :
    (e.mark = none ↔ e.cause.kind = .missingMain ∨ e.cause.kind = .resourceExhausted ∨
      e.cause.kind = .cancelled ∨ e.cause = .grammar .nestedTooDeeply) ∧
    (e.mark ≠ none → ∃ t ∈ Token.scan source, e.mark = t.mark) := by
  unfold simulate at hr
  split at hr
  next e' hparse =>
    cases hr
    cases he
    rcases Syntax.error_of_parse hparse with rfl | ⟨h, hcause⟩
    · exact ⟨by simp, fun hmark => absurd rfl hmark⟩
    · exact ⟨h.mark_eq_none_iff_of_ne hcause, h.isTokenMark⟩
  next => cases hr
  next program hparse =>
    obtain ⟨h, hkind⟩ := isPlaced_of_run hparse hr he
    have hcause : e.cause ≠ .grammar .nestedTooDeeply := by
      intro hcause
      rw [hcause] at hkind
      exact hkind rfl
    exact ⟨h.mark_eq_none_iff_of_ne hcause, h.isTokenMark⟩

/-- A builtin that fails in a function, which is called in another line. -/
def sizeOfNumber : String :=
  "fn size(x) \x7b return len(x); \x7d\nfn main() \x7b\n  print(size(4));\n\x7d"

theorem errors_reported_at_tokens_sizeOfNumber : ∃ r e,
    (simulate {} (.str "normal") sizeOfNumber).result = .ok r ∧ r.error = some e ∧
    e = ⟨.noLength .number, some ⟨.int 1, .int 21, .int 20⟩⟩ ∧
    ∃ t ∈ Token.scan sizeOfNumber, e.mark = t.mark := by
  have hr : (simulate {} (.str "normal") sizeOfNumber).result =
      .ok { error := some ⟨.noLength .number, some ⟨.int 1, .int 21, .int 20⟩⟩ } := by
    decide +kernel
  exact ⟨_, _, hr, rfl, rfl, (errors_reported_at_tokens _ _ _ _ _ hr rfl).2 nofun⟩

end Run

end Orus
