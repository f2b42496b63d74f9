import Mathlib.Data.List.Forall2
import Orus.Error

/-! # Likeness of trees

Trees can differ and still mean the same. A likeness says which trees are alike and which of
their marks are: alike trees have the same constructor over alike parts and the same names.
One thing more is allowed, since it makes no difference: that the second tree has a condition
in the else part of another as the only statement of a block.
-/

namespace Orus

theorem isEmpty_eq_of_forall₂ {α β : Type} {R : α → β → Prop} {as : List α} {bs : List β}
    (h : List.Forall₂ R as bs) : as.isEmpty = bs.isEmpty := by
  cases h <;> rfl

/-- The same constructor over related parts, with related marks. -/
inductive Node.Matches (N : Node → Node → Prop) (M : Option Mark → Option Mark → Prop) :
    Node → Node → Prop where
  | raw (value : Json) : Matches N M (.raw value) (.raw value)
  | program {fs fs' gs gs' : List Node} {n n' : Int} {m m' : Option Mark} :
      List.Forall₂ N fs fs' → List.Forall₂ N gs gs' → M m m' →
      Matches N M (.program fs gs n m) (.program fs' gs' n' m')
  | fnDecl {name : Name} {params : List Name} {body body' : Node} {m m' : Option Mark} :
      N body body' → M m m' →
      Matches N M (.fnDecl name params body m) (.fnDecl name params body' m')
  | letDecl {name : Name} {init init' : Node} {isMutable : Bool} {m m' : Option Mark} :
      N init init' → M m m' →
      Matches N M (.letDecl name init isMutable m) (.letDecl name init' isMutable m')
  | block {ns ns' : List Node} {m m' : Option Mark} : List.Forall₂ N ns ns' → M m m' →
      Matches N M (.block ns m) (.block ns' m')
  | assignment {name : Name} {e e' : Node} {m m' : Option Mark} : N e e' → M m m' →
      Matches N M (.assignment name e m) (.assignment name e' m')
  | printLine {e e' : Node} {m m' : Option Mark} : N e e' → M m m' →
      Matches N M (.printLine e m) (.printLine e' m')
  | ifElse {c c' a a' b b' : Node} {m m' : Option Mark} : N c c' → N a a' → N b b' → M m m' →
      Matches N M (.ifElse c a b m) (.ifElse c' a' b' m')
  | elseBlock {c c' a a' cond thenPart elsePart s : Node} {m m' mark place : Option Mark} :
      N c c' → N a a' → N (.ifElse cond thenPart elsePart mark) s → M m m' →
      Matches N M (.ifElse c a (.ifElse cond thenPart elsePart mark) m)
        (.ifElse c' a' (.block [s] place) m')
  | forIn {name : Name} {e e' body body' : Node} {m m' : Option Mark} : N e e' →
      N body body' → M m m' → Matches N M (.forIn name e body m) (.forIn name e' body' m')
  | whileLoop {c c' body body' : Node} {m m' : Option Mark} : N c c' → N body body' → M m m' →
      Matches N M (.whileLoop c body m) (.whileLoop c' body' m')
  | breakLoop {m m' : Option Mark} : M m m' → Matches N M (.breakLoop m) (.breakLoop m')
  | continueLoop {m m' : Option Mark} : M m m' → Matches N M (.continueLoop m) (.continueLoop m')
  | returnWith {e e' : Node} {m m' : Option Mark} : N e e' → M m m' →
      Matches N M (.returnWith e m) (.returnWith e' m')
  | expression {e e' : Node} {m m' : Option Mark} : N e e' → M m m' →
      Matches N M (.expression e m) (.expression e' m')
  | array {ns ns' : List Node} {m m' : Option Mark} : List.Forall₂ N ns ns' → M m m' →
      Matches N M (.array ns m) (.array ns' m')
  | range {a a' b b' : Node} {m m' : Option Mark} : N a a' → N b b' → M m m' →
      Matches N M (.range a b m) (.range a' b' m')
  | binary {op : Name} {a a' b b' : Node} {m m' : Option Mark} : N a a' → N b b' → M m m' →
      Matches N M (.binary op a b m) (.binary op a' b' m')
  | unary {op : Name} {e e' : Node} {m m' : Option Mark} : N e e' → M m m' →
      Matches N M (.unary op e m) (.unary op e' m')
  | identifier (name : Name) {m m' : Option Mark} : M m m' →
      Matches N M (.identifier name m) (.identifier name m')
  | number (x : Float) {m m' : Option Mark} : M m m' → Matches N M (.number x m) (.number x m')
  | string {ns ns' : List Node} {m m' : Option Mark} : List.Forall₂ N ns ns' → M m m' →
      Matches N M (.string ns m) (.string ns' m')
  | nilLiteral {m m' : Option Mark} : M m m' → Matches N M (.nilLiteral m) (.nilLiteral m')
  | call {name : Name} {ns ns' : List Node} {m m' : Option Mark} : List.Forall₂ N ns ns' →
      M m m' → Matches N M (.call name ns m) (.call name ns' m')
  | index {a a' b b' : Node} {m m' : Option Mark} : N a a' → N b b' → M m m' →
      Matches N M (.index a b m) (.index a' b' m')
  | field {e e' : Node} {name : Name} {m m' : Option Mark} : N e e' → M m m' →
      Matches N M (.field e name m) (.field e' name m')

/-- A way for trees and for their marks to be alike. -/
structure Likeness where
  trees : Node → Node → Prop
  marks : Option Mark → Option Mark → Prop
  marks_refl (m : Option Mark) : marks m m
  marks_orElse {m m' k k' : Option Mark} : marks m m' → marks k k' →
    marks (m <|> k) (m' <|> k')
  unfold {n n' : Node} : trees n n' → Node.Matches trees marks n n'

namespace Likeness

variable {L : Likeness} {n n' : Node}

theorem mark (h : L.trees n n') : L.marks n.mark n'.mark := by
  cases L.unfold h with
  | raw => exact L.marks_refl _
  | _ => assumption

theorem name?_eq (h : L.trees n n') : n.name? = n'.name? := by
  cases L.unfold h <;> rfl

theorem rel_body? (h : L.trees n n') : Option.Rel L.trees n.body? n'.body? := by
  cases L.unfold h with
  | fnDecl hbody _ => exact .some hbody
  | forIn _ hbody _ => exact .some hbody
  | whileLoop _ hbody _ => exact .some hbody
  | _ => exact .none

theorem rel_statements? (h : L.trees n n') :
    Option.Rel (List.Forall₂ L.trees) n.statements? n'.statements? := by
  cases L.unfold h with
  | block hs _ => exact .some hs
  | _ => exact .none

theorem rel_params? (h : L.trees n n') : Option.Rel Eq n.params? n'.params? := by
  cases L.unfold h with
  | fnDecl => exact .some rfl
  | _ => exact .none

end Likeness

end Orus
