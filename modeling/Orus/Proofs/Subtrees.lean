import Orus.Syntax.Node

/-! # The trees inside a tree

The parts of a tree that are trees themselves, properties of all of them, and how deep
they are nested.
-/

namespace Orus.Node

def children : Node → List Node
  | .raw _ | .breakLoop _ | .continueLoop _ | .identifier .. | .number .. | .nilLiteral _ => []
  | .program functions globals _ _ => functions ++ globals
  | .block parts _ | .array parts _ | .string parts _ | .call _ parts _ => parts
  | .fnDecl _ _ part _ | .letDecl _ part _ _ | .assignment _ part _ | .printLine part _
  | .returnWith part _ | .expression part _ | .unary _ part _ | .field part _ _ => [part]
  | .forIn _ first second _ | .whileLoop first second _ | .range first second _
  | .binary _ first second _ | .index first second _ => [first, second]
  | .ifElse cond thenPart elsePart _ => [cond, thenPart, elsePart]

inductive Everywhere (P : Node → Prop) : Node → Prop where
  | intro {n : Node} : P n → (∀ c ∈ n.children, Everywhere P c) → Everywhere P n

/-- Whether fewer than the given number of trees stand inside one another. -/
def nestsWithin : Nat → Node → Bool
  | 0, _ => false
  | depth + 1, n => n.children.all (nestsWithin depth)

variable {P : Node → Prop} {n : Node}

theorem Everywhere.here (h : n.Everywhere P) : P n := by
  cases h with
  | intro hn _ => exact hn

theorem Everywhere.inside (h : n.Everywhere P) : ∀ c ∈ n.children, c.Everywhere P := by
  cases h with
  | intro _ hc => exact hc

theorem nestsWithin_succ {depth : Nat} :
    n.nestsWithin (depth + 1) = true ↔ ∀ c ∈ n.children, c.nestsWithin depth = true := by
  rw [nestsWithin, List.all_eq_true]

end Orus.Node
