import Orus.Proofs.Failures
import Orus.Proofs.Numbers.Patterns

/-! # Equality of values

Values are equal when they are built in the same way from equal Numbers, the same texts and
nothing else, so equality is symmetric and transitive. What is equal to nothing, a function or
the Number that is no number, may stand anywhere in a value and keeps it from being equal to
itself. Equal values cannot be told apart by what programs show of them, although the two zeros
are different Numbers.
-/

namespace Orus

/-! ## Numbers -/

namespace Number

variable {x y z : Float}

theorem beq_symm (h : (x == y) = true) : (y == x) = true := by
  obtain ⟨rfl, hnumber⟩ | ⟨hx, hy⟩ := (beq_iff x y).1 h
  · exact (beq_iff x x).2 (.inl ⟨rfl, hnumber⟩)
  · exact (beq_iff y x).2 (.inr ⟨hy, hx⟩)

theorem beq_trans (h : (x == y) = true) (h' : (y == z) = true) : (x == z) = true := by
  obtain ⟨rfl, -⟩ | ⟨hx, hy⟩ := (beq_iff x y).1 h
  · exact h'
  · obtain ⟨rfl, -⟩ | ⟨-, hz⟩ := (beq_iff y z).1 h'
    · exact h
    · exact (beq_iff x z).2 (.inr ⟨hx, hz⟩)

theorem beq_self_iff (x : Float) : (x == x) = true ↔ x.isNaN = false := by
  rw [Float.beq_self_iff, Float.isNaN_eq_decide_eq_nan, decide_eq_false_iff_not]

/-- The two zeros look alike. -/
theorem of_magnitudeBits_eq_zero (h : magnitudeBits x = 0) :
    display x = "0" ∧ (Value.number x).isTruthy = false := by
  have hparts := assemble_parts x
  rw [h] at hparts
  rw [← hparts]
  cases isNegative x with
  | true => exact ⟨by decide +kernel, by decide +kernel⟩
  | false => exact ⟨by decide +kernel, by decide +kernel⟩

theorem display_eq_of_beq (h : (x == y) = true) : display x = display y := by
  obtain ⟨rfl, -⟩ | ⟨hx, hy⟩ := (beq_iff x y).1 h
  · rfl
  · rw [(of_magnitudeBits_eq_zero hx).1, (of_magnitudeBits_eq_zero hy).1]

theorem isTruthy_eq_of_beq (h : (x == y) = true) :
    (Value.number x).isTruthy = (Value.number y).isTruthy := by
  obtain ⟨rfl, -⟩ | ⟨hx, hy⟩ := (beq_iff x y).1 h
  · rfl
  · rw [(of_magnitudeBits_eq_zero hx).2, (of_magnitudeBits_eq_zero hy).2]

end Number

namespace Value

/-! ## Values with the same content -/

/-- Values with the same content. Nothing is said of functions, so no value with one in it has
the content of another, or its own. -/
inductive Equals : Value → Value → Prop where
  | number {x y : Float} : (x == y) = true → Equals (.number x) (.number y)
  | text (s : String) : Equals (.text s) (.text s)
  | array {as bs : List Value} : List.Forall₂ Equals as bs → Equals (.array as) (.array bs)
  | undefined : Equals .undefined .undefined

mutual

theorem equals_of_equal {a b : Value} (h : a.equal b = true) : a.Equals b := by
  cases a with
  | number x =>
    cases b with
    | number y => exact .number h
    | _ => cases h
  | text s =>
    cases b with
    | text t =>
      obtain rfl : s = t := by simpa [equal] using h
      exact .text s
    | _ => cases h
  | array as =>
    cases b with
    | array bs =>
      rw [equal] at h
      exact .array (forall₂_of_equalItems h)
    | _ => cases h
  | undefined =>
    cases b with
    | undefined => exact .undefined
    | _ => cases h
  | builtin | function => cases b <;> cases h

theorem forall₂_of_equalItems {as bs : List Value} (h : equalItems as bs = true) :
    List.Forall₂ Equals as bs := by
  cases as with
  | nil =>
    cases bs with
    | nil => exact .nil
    | cons => cases h
  | cons a as =>
    cases bs with
    | nil => cases h
    | cons b bs =>
      rw [equalItems, Bool.and_eq_true] at h
      exact .cons (equals_of_equal h.1) (forall₂_of_equalItems h.2)

end

namespace Equals

variable {a b c : Value}

mutual

theorem equal_eq_true {a b : Value} (h : a.Equals b) : a.equal b = true := by
  cases h with
  | number h => exact h
  | text => simp [equal]
  | array h => rw [equal, equalItems_eq_true h]
  | undefined => rfl

theorem equalItems_eq_true {as bs : List Value} (h : List.Forall₂ Equals as bs) :
    equalItems as bs = true := by
  cases h with
  | nil => rfl
  | cons h hs => rw [equalItems, equal_eq_true h, equalItems_eq_true hs, Bool.and_self]

end

mutual

theorem symm {a b : Value} (h : a.Equals b) : b.Equals a := by
  cases h with
  | number h => exact .number (Number.beq_symm h)
  | text s => exact .text s
  | array h => exact .array (forall₂_symm h)
  | undefined => exact .undefined

theorem forall₂_symm {as bs : List Value} (h : List.Forall₂ Equals as bs) :
    List.Forall₂ Equals bs as := by
  cases h with
  | nil => exact .nil
  | cons h hs => exact .cons (symm h) (forall₂_symm hs)

end

mutual

theorem trans {a b c : Value} (h : a.Equals b) (h' : b.Equals c) : a.Equals c := by
  cases h with
  | number h =>
    cases h' with
    | number h' => exact .number (Number.beq_trans h h')
  | text => exact h'
  | array h =>
    cases h' with
    | array h' => exact .array (forall₂_trans h h')
  | undefined => exact h'

theorem forall₂_trans {as bs cs : List Value} (h : List.Forall₂ Equals as bs)
    (h' : List.Forall₂ Equals bs cs) : List.Forall₂ Equals as cs := by
  cases h with
  | nil => exact h'
  | cons h hs =>
    cases h' with
    | cons h' hs' => exact .cons (trans h h') (forall₂_trans hs hs')

end

theorem type_eq (h : a.Equals b) : a.type = b.type := by
  cases h <;> rfl

mutual

theorem display_eq {a b : Value} (h : a.Equals b) : a.display = b.display := by
  cases h with
  | number h => exact Number.display_eq_of_beq h
  | array h => rw [display, display, displayItems_eq h]
  | _ => rfl

theorem displayItems_eq {as bs : List Value} (h : List.Forall₂ Equals as bs) :
    displayItems as = displayItems bs := by
  cases h with
  | nil => rfl
  | cons h hs => rw [displayItems, displayItems, display_eq h, displayItems_eq hs]

end

theorem isTruthy_eq (h : a.Equals b) : a.isTruthy = b.isTruthy := by
  cases h with
  | number h => exact Number.isTruthy_eq_of_beq h
  | array h => cases h <;> rfl
  | _ => rfl

end Equals

theorem equal_eq_true_iff (a b : Value) : a.equal b = true ↔ a.Equals b :=
  ⟨equals_of_equal, Equals.equal_eq_true⟩

/-! ## Values that are equal to themselves -/

inductive IsPart (u : Value) : Value → Prop where
  | self : IsPart u u
  | item {v : Value} {items : List Value} : v ∈ items → IsPart u v → IsPart u (.array items)

/-- What is equal to nothing. -/
def isIncomparable : Value → Bool
  | .number x => x.isNaN
  | .builtin _ | .function _ => true
  | _ => false

theorem forall_isPart_array {items : List Value} {P : Value → Prop} (h : P (.array items)) :
    (∀ u, u.IsPart (.array items) → P u) ↔ ∀ v ∈ items, ∀ u, u.IsPart v → P u := by
  refine ⟨fun hall v hv u hu => hall u (.item hv hu), fun hall u hu => ?_⟩
  cases hu with
  | self => exact h
  | item hv hu => exact hall _ hv u hu

theorem forall_isPart_of_leaf {P : Value → Prop} (a : Value)
    (hleaf : ∀ items, a ≠ .array items) : (∀ u, u.IsPart a → P u) ↔ P a := by
  refine ⟨fun hall => hall a .self, fun h u hu => ?_⟩
  cases hu with
  | self => exact h
  | item => exact absurd rfl (hleaf _)

theorem equals_self_iff (a : Value) :
    a.Equals a ↔ ∀ u : Value, u.IsPart a → u.isIncomparable = false := by
  cases a with
  | array items =>
    rw [forall_isPart_array (P := fun u => u.isIncomparable = false) rfl]
    have hitems : (Value.array items).Equals (.array items) ↔ ∀ v ∈ items, v.Equals v := by
      rw [← List.forall₂_same]
      refine ⟨fun h => ?_, .array⟩
      cases h with
      | array h => exact h
    rw [hitems]
    exact forall₂_congr fun v _ => equals_self_iff v
  | number x =>
    rw [forall_isPart_of_leaf (.number x) nofun, ← equal_eq_true_iff]
    exact Number.beq_self_iff x
  | text s =>
    rw [forall_isPart_of_leaf (.text s) nofun]
    exact ⟨fun _ => rfl, fun _ => .text s⟩
  | undefined =>
    rw [forall_isPart_of_leaf .undefined nofun]
    exact ⟨fun _ => rfl, fun _ => .undefined⟩
  | builtin f =>
    rw [forall_isPart_of_leaf (.builtin f) nofun]
    exact ⟨nofun, nofun⟩
  | function decl =>
    rw [forall_isPart_of_leaf (.function decl) nofun]
    exact ⟨nofun, nofun⟩
termination_by a

end Value

namespace Run

open Value

theorem applyOperator_equality {depth : Nat} {a : Value} (h : a.height < depth) (b : Value) :
    applyOperator depth (.str "==") a b = .ok (.ofBool (a.equal b)) ∧
      applyOperator depth (.str "!=") a b = .ok (.ofBool (!a.equal b)) := by
  obtain ⟨verdict, hverdict⟩ := Option.ne_none_iff_exists'.1 (equalWithin_ne_none (b := b) h)
  obtain rfl := equalWithin_eq_some hverdict
  change equality depth true a b = _ ∧ equality depth false a b = _
  rw [equality, equality, hverdict]
  cases a.equal b <;> exact ⟨rfl, rfl⟩

/-- Equality is symmetric and transitive, and exactly the values without functions and without
the Number that is no number, at any depth, are equal to themselves. Equal values have the same
type, the same text and the same truth value, and it is equality that `==` and `!=` tell of
values that are not nested too deeply. -/
theorem equality_is_congruence :
    (∀ a b : Value, a.equal b = b.equal a) ∧
    (∀ a b c : Value, a.equal b = true → b.equal c = true → a.equal c = true) ∧
    (∀ a : Value, a.equal a = true ↔ ∀ u : Value, u.IsPart a → u.isIncomparable = false) ∧
    (∀ a b : Value, a.equal b = true →
      a.type = b.type ∧ a.display = b.display ∧ a.isTruthy = b.isTruthy) ∧
    ∀ (depth : Nat) (a b : Value), a.height < depth →
      applyOperator depth (.str "==") a b = .ok (.ofBool (a.equal b)) ∧
        applyOperator depth (.str "!=") a b = .ok (.ofBool (!a.equal b)) := by
  simp only [equal_eq_true_iff, Bool.eq_iff_iff (b := Value.equal _ _)]
  refine ⟨fun a b => ⟨.symm, .symm⟩, fun a b c => .trans, equals_self_iff, fun a b h => ?_,
    fun depth a b h => applyOperator_equality h b⟩
  exact ⟨h.type_eq, h.display_eq, h.isTruthy_eq⟩

/-- Arrays that differ in the sign of a zero are equal and are displayed alike. -/
theorem equality_is_congruence_zeros :
    let a : Value := .array [.number (Number.assemble false 0), .text "a"]
    let b : Value := .array [.number (Number.assemble true 0), .text "a"]
    a.equal b = true ∧ a.display = b.display ∧ b.equal a = true := by
  have hequal : (Value.array [.number (Number.assemble false 0), .text "a"]).equal
      (.array [.number (Number.assemble true 0), .text "a"]) = true := by decide +kernel
  obtain ⟨hsymm, -, -, hcongr, -⟩ := equality_is_congruence
  exact ⟨hequal, (hcongr _ _ hequal).2.1, (hsymm _ _).symm.trans hequal⟩

end Run

end Orus
