import Mathlib.Data.List.Basic
import Orus.Proofs.Effects
import Orus.Proofs.Shape

/-! # Markers in strings

A marker stands for the value of a variable or of a field of one. A marker without a value is shown
as the placeholder, and one warning tells why. Apart from these warnings the value of a string
literal leaves the state as it is, and nothing but nesting stops it.
-/

namespace Orus.Run

open Syntax

/-! ## What is shown -/

def fieldValue (name : Name) (mark : Option Mark) (v : Value) : Except String Value :=
  match fieldOf? v name with
  | some item => .ok item
  | none =>
    .error (noted s!"{(Cause.noField v.type name).message} in string interpolation" mark)

/-- The value of a variable with fields taken from it, or the warning that there is none. -/
def pathValue (scopes : Chain) : Node → Except String Value
  | .identifier name mark =>
    match scopes.lookup? name with
    | some v => .ok v
    | none => .error (noted s!"undefined variable '{name.text}' in string interpolation" mark)
  | .field target name mark => pathValue scopes target >>= fieldValue name mark
  -- no marker has another tree
  | _ => .error ""

/-- The value that a marker shows, which is no function, or the warning that there is none. -/
def markerValue (scopes : Chain) (node : Node) : Except String Value := do
  let functionWarning (name : String) : String :=
    noted s!"'{name}' is a function, not a value, in string interpolation" node.mark
  match ← pathValue scopes node with
  | .builtin b => .error (functionWarning b.name)
  | .function decl => .error (functionWarning (Value.functionName decl).text)
  | v => .ok v

def shownFor : Except String Value → String × Option String
  | .ok v => (v.display, none)
  | .error warning => (placeholder, some warning)

/-- The text that a segment shows in some scopes, and the warning about it if it has no value. -/
def rendered (scopes : Chain) : Node → String × Option String
  | .raw (.str text) => (text, none)
  | node => shownFor (markerValue scopes node)

theorem rendered_path {node : Node} (h : IsPath node) (scopes : Chain) :
    rendered scopes node = shownFor (markerValue scopes node) := by
  cases h <;> rfl

/-! ## Nesting -/

def pathLength : Node → Nat
  | .field target _ _ => pathLength target + 1
  | _ => 1

def valueNesting : Except String Value → Nat
  | .ok v => v.height + 1
  | .error _ => 0

/-- The nesting that is needed to show a segment in some scopes. -/
def nesting (scopes : Chain) : Node → Nat
  | .raw _ => 0
  | node => max (pathLength node) (valueNesting (markerValue scopes node))

theorem nesting_path {node : Node} (h : IsPath node) (scopes : Chain) :
    nesting scopes node = max (pathLength node) (valueNesting (markerValue scopes node)) := by
  cases h <;> rfl

namespace Evaluator

variable (cfg : Config)

/-- A path is resolved without an error, and one warning tells that it has no value. -/
theorem resolve_path {node : Node} (h : IsPath node) (depth : Nat) (s : State) :
    (ofDepth cfg depth).resolve node s =
      if pathLength node ≤ depth then
        match pathValue s.scopes node with
        | .ok v => .ok (some v) s
        | .error warning => .ok none (s.warned [warning])
      else tooDeep s := by
  induction h generalizing depth with
  | identifier name mark =>
    cases depth with
    | zero => rfl
    | succ depth =>
      have hlookup : lookup (.str name) s = .ok (s.scopes.lookup? (.str name)) s := by
        rw [lookup_eq, if_pos (isUsable_str name)]
      change (lookup (.str name) >>= _) s = _
      rw [bind_of_ok hlookup, pathValue, if_pos (by simp [pathLength])]
      cases s.scopes.lookup? (.str name) with
      | some v => rfl
      | none => exact bind_of_ok (warn_eq mark _ s)
  | @field target name mark htarget ih =>
    cases depth with
    | zero => rfl
    | succ depth =>
      change ((ofDepth cfg depth).resolve target >>= _) s = _
      have hresolve := ih depth
      simp only [pathLength, Nat.add_le_add_iff_right]
      by_cases hroom : pathLength target ≤ depth
      · rw [if_pos hroom] at hresolve ⊢
        rw [pathValue]
        cases hvalue : pathValue s.scopes target with
        | error warning =>
          rw [hvalue] at hresolve
          exact bind_of_ok hresolve
        | ok v =>
          rw [hvalue] at hresolve
          rw [bind_of_ok hresolve]
          change _ = match fieldValue (.str name) mark v with | .ok _ => _ | .error _ => _
          dsimp only
          rw [fieldValue]
          cases fieldOf? v (.str name) with
          | some item => rfl
          | none => exact bind_of_ok (warn_eq mark _ s)
      · rw [if_neg hroom] at hresolve ⊢
        exact bind_of_error hresolve

theorem textOf_eq (depth : Nat) (v : Value) (s : State) :
    textOf (ofDepth cfg depth) v s = if v.height < depth then .ok v.display s else tooDeep s := by
  unfold textOf Builtin.shown Value.displayWithin
  rw [depth_ofDepth]
  by_cases hroom : v.height < depth
  · rw [if_pos hroom, if_pos hroom]
    rfl
  · rw [if_neg hroom, if_neg hroom]
    rfl

theorem markerText_path {node : Node} (h : IsPath node) (depth : Nat) (s : State) :
    markerText (ofDepth cfg depth) node s =
      if nesting s.scopes node ≤ depth then
        .ok (rendered s.scopes node).1 (s.warned (rendered s.scopes node).2.toList)
      else tooDeep s := by
  have hresolve := resolve_path cfg h depth s
  rw [nesting_path h, rendered_path h]
  unfold markerText
  by_cases hroom : pathLength node ≤ depth
  · have hzero : max (pathLength node) 0 ≤ depth := Nat.max_le.2 ⟨hroom, Nat.zero_le depth⟩
    have hshown (v : Value) : textOf (ofDepth cfg depth) v s =
        if max (pathLength node) (v.height + 1) ≤ depth then .ok v.display (s.warned [])
        else tooDeep s := by
      simp only [textOf_eq, Nat.max_le, hroom, true_and, Nat.add_one_le_iff, State.warned_nil]
    rw [if_pos hroom] at hresolve
    rw [markerValue]
    cases hvalue : pathValue s.scopes node with
    | error warning =>
      rw [hvalue] at hresolve
      rw [bind_of_ok hresolve]
      exact (if_pos hzero).symm
    | ok v =>
      rw [hvalue] at hresolve
      rw [bind_of_ok hresolve]
      cases v with
      | builtin b => exact (bind_of_ok (warn_eq node.mark _ s)).trans (if_pos hzero).symm
      | function decl => exact (bind_of_ok (warn_eq node.mark _ s)).trans (if_pos hzero).symm
      | _ => exact hshown _
  · rw [if_neg hroom] at hresolve
    rw [if_neg fun hle => hroom (Nat.max_le.1 hle).1]
    exact bind_of_error hresolve

theorem segmentText_eq {node : Node} (h : IsSegment node) (depth : Nat) (s : State) :
    segmentText (ofDepth cfg depth) node s =
      if nesting s.scopes node ≤ depth then
        .ok (rendered s.scopes node).1 (s.warned (rendered s.scopes node).2.toList)
      else tooDeep s := by
  rcases h with ⟨text, rfl⟩ | hpath
  · simp [nesting, rendered]
    rfl
  · rw [← markerText_path cfg hpath]
    cases hpath <;> rfl

/-- Segments are shown one after the other, up to one that is nested too deeply. -/
theorem mapM_segmentText {segments : List Node} (h : ∀ n ∈ segments, IsSegment n) (depth : Nat)
    (s : State) :
    (segments.mapM (segmentText (ofDepth cfg depth)) : Eval (List String)) s =
      if ∀ n ∈ segments, nesting s.scopes n ≤ depth then
        .ok (segments.map fun n => (rendered s.scopes n).1)
          (s.warned (segments.filterMap fun n => (rendered s.scopes n).2))
      else
        tooDeep (s.warned ((segments.takeWhile fun n => nesting s.scopes n ≤ depth).filterMap
          fun n => (rendered s.scopes n).2)) := by
  simp only [List.filterMap_eq_flatMap_toList]
  induction segments generalizing s with
  | nil =>
    simp
    rfl
  | cons n segments ih =>
    obtain ⟨hn, hsegments⟩ := List.forall_mem_cons.1 h
    have hfirst := segmentText_eq cfg hn depth s
    rw [List.mapM_cons]
    by_cases hroom : nesting s.scopes n ≤ depth
    · have hmore := ih hsegments (s.warned (rendered s.scopes n).2.toList)
      simp only [State.scopes_warned, State.warned_warned] at hmore
      rw [if_pos hroom] at hfirst
      rw [bind_of_ok hfirst]
      by_cases hall : ∀ n ∈ segments, nesting s.scopes n ≤ depth
      · have hboth : ∀ m ∈ n :: segments, nesting s.scopes m ≤ depth :=
          List.forall_mem_cons.2 ⟨hroom, hall⟩
        rw [if_pos hall] at hmore
        rw [bind_of_ok hmore, if_pos hboth]
        rfl
      · rw [if_neg hall] at hmore
        rw [bind_of_error hmore, if_neg fun h => hall (List.forall_mem_cons.1 h).2]
        simp [hroom]
        rfl
    · rw [if_neg hroom] at hfirst
      rw [bind_of_error hfirst, if_neg fun hall => hroom (hall n List.mem_cons_self)]
      simp [hroom]
      rfl

theorem eval_string {segments : List Node} (h : ∀ n ∈ segments, IsSegment n) (mark : Option Mark)
    (depth : Nat) (s : State) :
    (ofDepth cfg (depth + 1)).eval (.string segments mark) s =
      if ∀ n ∈ segments, nesting s.scopes n ≤ depth then
        .ok (.text (String.join (segments.map fun n => (rendered s.scopes n).1)))
          (s.warned (segments.filterMap fun n => (rendered s.scopes n).2))
      else
        tooDeep (s.warned ((segments.takeWhile fun n => nesting s.scopes n ≤ depth).filterMap
          fun n => (rendered s.scopes n).2)) := by
  have hmapM := mapM_segmentText cfg h depth s
  change ((segments.mapM _ : Eval (List String)) >>= _) s = _
  split
  next hall =>
    rw [if_pos hall] at hmapM
    exact bind_of_ok hmapM
  next hall =>
    rw [if_neg hall] at hmapM
    exact bind_of_error hmapM

end Evaluator

/-- The value of a string literal is a text, in which a marker with a value is shown as that value
and every other one as the placeholder. Of the state it changes only the warnings, to which it adds
one for each marker without a value, and only nesting stops it. -/
theorem eval_stringLiteral (cfg : Config) (body : String) (mark : Option Mark) (depth : Nat)
    (s : State) :
    let segments := segmentsFrom mark [] [] body.toList
    (Evaluator.ofDepth cfg (depth + 1)).eval (stringLiteral body mark) s =
      if ∀ n ∈ segments, nesting s.scopes n ≤ depth then
        .ok (.text (String.join (segments.map fun n => (rendered s.scopes n).1)))
          (s.warned (segments.filterMap fun n => (rendered s.scopes n).2))
      else
        tooDeep (s.warned ((segments.takeWhile fun n => nesting s.scopes n ≤ depth).filterMap
          fun n => (rendered s.scopes n).2)) := by
  have hsegments : ∀ n ∈ segmentsFrom mark [] [] body.toList, IsSegment n := by
    cases isExpression_stringLiteral body mark with
    | string mark h => exact h
  exact Evaluator.eval_string cfg hsegments mark depth s

-- a failure inside a path is told once, and nothing about the fields after it
example : rendered { globals := ⟨[(.str "x", .text "ab")]⟩ }
    (.field (.field (.identifier (.str "x") none) (.str "size") none) (.str "len") none) =
      ("[undefined]", some "Text has no field 'size' in string interpolation") := by
  decide

end Orus.Run
