import Orus.Proofs.Likeness.Trees

/-! # Trees up to places

Two trees are alike when they differ only in the places they were read from and, for
programs, in the length of the source text. Alike trees are equal once their places are
taken away.
-/

namespace Orus

/-- What a token says, apart from its place. -/
def Token.content (t : Token) : Token.Kind × String × Option String :=
  (t.kind, t.text, t.value)

/-- Two recorded places, each in a source text of its own. -/
def BothPlaced (m m' : Option Mark) : Prop :=
  ∃ p p' : Position, m = some p.mark ∧ m' = some p'.mark

namespace Node

inductive Alike : Node → Node → Prop where
  | raw (value : Json) : Alike (.raw value) (.raw value)
  | program {fs fs' gs gs' : List Node} {n n' : Int} : List.Forall₂ Alike fs fs' →
      List.Forall₂ Alike gs gs' → Alike (.program fs gs n none) (.program fs' gs' n' none)
  | fnDecl {name : Name} {params : List Name} {body body' : Node} {m m' : Option Mark} :
      Alike body body' → BothPlaced m m' →
      Alike (.fnDecl name params body m) (.fnDecl name params body' m')
  | letDecl {name : Name} {init init' : Node} {isMutable : Bool} {m m' : Option Mark} :
      Alike init init' → BothPlaced m m' →
      Alike (.letDecl name init isMutable m) (.letDecl name init' isMutable m')
  | block {ns ns' : List Node} {m m' : Option Mark} : List.Forall₂ Alike ns ns' →
      BothPlaced m m' → Alike (.block ns m) (.block ns' m')
  | assignment {name : Name} {e e' : Node} {m m' : Option Mark} : Alike e e' → BothPlaced m m' →
      Alike (.assignment name e m) (.assignment name e' m')
  | printLine {e e' : Node} {m m' : Option Mark} : Alike e e' → BothPlaced m m' →
      Alike (.printLine e m) (.printLine e' m')
  | ifElse {c c' a a' b b' : Node} {m m' : Option Mark} : Alike c c' → Alike a a' → Alike b b' →
      BothPlaced m m' → Alike (.ifElse c a b m) (.ifElse c' a' b' m')
  | forIn {name : Name} {e e' body body' : Node} {m m' : Option Mark} : Alike e e' →
      Alike body body' → BothPlaced m m' → Alike (.forIn name e body m) (.forIn name e' body' m')
  | whileLoop {c c' body body' : Node} {m m' : Option Mark} : Alike c c' → Alike body body' →
      BothPlaced m m' → Alike (.whileLoop c body m) (.whileLoop c' body' m')
  | breakLoop {m m' : Option Mark} : BothPlaced m m' → Alike (.breakLoop m) (.breakLoop m')
  | continueLoop {m m' : Option Mark} : BothPlaced m m' →
      Alike (.continueLoop m) (.continueLoop m')
  | returnWith {e e' : Node} {m m' : Option Mark} : Alike e e' → BothPlaced m m' →
      Alike (.returnWith e m) (.returnWith e' m')
  | expression {e e' : Node} {m m' : Option Mark} : Alike e e' → BothPlaced m m' →
      Alike (.expression e m) (.expression e' m')
  | array {ns ns' : List Node} {m m' : Option Mark} : List.Forall₂ Alike ns ns' →
      BothPlaced m m' → Alike (.array ns m) (.array ns' m')
  | range {a a' b b' : Node} {m m' : Option Mark} : Alike a a' → Alike b b' → BothPlaced m m' →
      Alike (.range a b m) (.range a' b' m')
  | binary {op : Name} {a a' b b' : Node} {m m' : Option Mark} : Alike a a' → Alike b b' →
      BothPlaced m m' → Alike (.binary op a b m) (.binary op a' b' m')
  | unary {op : Name} {e e' : Node} {m m' : Option Mark} : Alike e e' → BothPlaced m m' →
      Alike (.unary op e m) (.unary op e' m')
  | identifier (name : Name) {m m' : Option Mark} : BothPlaced m m' →
      Alike (.identifier name m) (.identifier name m')
  | number (x : Float) {m m' : Option Mark} : BothPlaced m m' → Alike (.number x m) (.number x m')
  | string {ns ns' : List Node} {m m' : Option Mark} : List.Forall₂ Alike ns ns' →
      BothPlaced m m' → Alike (.string ns m) (.string ns' m')
  | nilLiteral {m m' : Option Mark} : BothPlaced m m' → Alike (.nilLiteral m) (.nilLiteral m')
  | call {name : Name} {ns ns' : List Node} {m m' : Option Mark} : List.Forall₂ Alike ns ns' →
      BothPlaced m m' → Alike (.call name ns m) (.call name ns' m')
  | index {a a' b b' : Node} {m m' : Option Mark} : Alike a a' → Alike b b' → BothPlaced m m' →
      Alike (.index a b m) (.index a' b' m')
  | field {e e' : Node} {name : Name} {m m' : Option Mark} : Alike e e' → BothPlaced m m' →
      Alike (.field e name m) (.field e' name m')

mutual

/-- The tree with one mark in the place of all its marks. A program itself has none, and
the length of its source text is left out. -/
def marked (m : Option Mark) : Node → Node
  | .raw value => .raw value
  | .program functions globals _ _ =>
    .program (markedAll m functions) (markedAll m globals) 0 none
  | .fnDecl name params body _ => .fnDecl name params (marked m body) m
  | .letDecl name init isMutable _ => .letDecl name (marked m init) isMutable m
  | .block statements _ => .block (markedAll m statements) m
  | .assignment name expr _ => .assignment name (marked m expr) m
  | .printLine expr _ => .printLine (marked m expr) m
  | .ifElse cond thenPart elsePart _ =>
    .ifElse (marked m cond) (marked m thenPart) (marked m elsePart) m
  | .forIn loopVar iterable body _ => .forIn loopVar (marked m iterable) (marked m body) m
  | .whileLoop cond body _ => .whileLoop (marked m cond) (marked m body) m
  | .breakLoop _ => .breakLoop m
  | .continueLoop _ => .continueLoop m
  | .returnWith value _ => .returnWith (marked m value) m
  | .expression expr _ => .expression (marked m expr) m
  | .array elements _ => .array (markedAll m elements) m
  | .range first last _ => .range (marked m first) (marked m last) m
  | .binary op left right _ => .binary op (marked m left) (marked m right) m
  | .unary op operand _ => .unary op (marked m operand) m
  | .identifier name _ => .identifier name m
  | .number value _ => .number value m
  | .string segments _ => .string (markedAll m segments) m
  | .nilLiteral _ => .nilLiteral m
  | .call name args _ => .call name (markedAll m args) m
  | .index target position _ => .index (marked m target) (marked m position) m
  | .field target name _ => .field (marked m target) name m

def markedAll (m : Option Mark) : List Node → List Node
  | [] => []
  | n :: ns => marked m n :: markedAll m ns

end

def unplaced (n : Node) : Node :=
  n.marked none

mutual

theorem marked_marked (m m' : Option Mark) (n : Node) : (n.marked m).marked m' = n.marked m' := by
  cases n with
  | raw | breakLoop | continueLoop | identifier | number | nilLiteral => rfl
  | program functions globals =>
    simp only [marked, markedAll_markedAll m m' functions, markedAll_markedAll m m' globals]
  | block ns | array ns | string ns | call _ ns =>
    simp only [marked, markedAll_markedAll m m' ns]
  | fnDecl _ _ e | letDecl _ e | assignment _ e | printLine e | returnWith e | expression e
  | unary _ e | field e => simp only [marked, marked_marked m m' e]
  | ifElse c a b =>
    simp only [marked, marked_marked m m' c, marked_marked m m' a, marked_marked m m' b]
  | forIn _ a b | whileLoop a b | range a b | binary _ a b | index a b =>
    simp only [marked, marked_marked m m' a, marked_marked m m' b]

theorem markedAll_markedAll (m m' : Option Mark) (ns : List Node) :
    markedAll m' (markedAll m ns) = markedAll m' ns := by
  cases ns with
  | nil => rfl
  | cons n ns => simp only [markedAll, marked_marked m m' n, markedAll_markedAll m m' ns]

end

mutual

theorem Alike.marked_eq (m : Option Mark) {n n' : Node} (h : n.Alike n') :
    n.marked m = n'.marked m := by
  cases h with
  | raw v => rfl
  | program hf hg => simp only [marked, markedAll_eq m hf, markedAll_eq m hg]
  | fnDecl h | letDecl h | assignment h | printLine h | returnWith h | expression h | unary h
  | field h => simp only [marked, h.marked_eq m]
  | block h | array h | string h | call h => simp only [marked, markedAll_eq m h]
  | ifElse h h' h'' => simp only [marked, h.marked_eq m, h'.marked_eq m, h''.marked_eq m]
  | forIn h h' | whileLoop h h' | range h h' | binary h h' | index h h' =>
    simp only [marked, h.marked_eq m, h'.marked_eq m]
  | breakLoop | continueLoop | identifier | number | nilLiteral => rfl

theorem markedAll_eq (m : Option Mark) {ns ns' : List Node} (h : List.Forall₂ Alike ns ns') :
    markedAll m ns = markedAll m ns' := by
  cases h with
  | nil => rfl
  | cons h hs => simp only [markedAll, h.marked_eq m, markedAll_eq m hs]

end

theorem Alike.unplaced_eq {n n' : Node} (h : n.Alike n') : n.unplaced = n'.unplaced :=
  h.marked_eq none

end Node

/-! ## Likeness up to places -/

/-- Marks that are the same, or places in two source texts. -/
def MarksAlike (m m' : Option Mark) : Prop :=
  m = m' ∨ BothPlaced m m'

theorem MarksAlike.orElse {m m' k k' : Option Mark} (h : MarksAlike m m') (h' : MarksAlike k k') :
    MarksAlike (m <|> k) (m' <|> k') := by
  obtain rfl | ⟨p, p', rfl, rfl⟩ := h
  · cases m with
    | none => exact h'
    | some m => exact .inl rfl
  · exact .inr ⟨p, p', rfl, rfl⟩

theorem Node.Alike.matches {n n' : Node} (h : n.Alike n') :
    Node.Matches Node.Alike MarksAlike n n' := by
  cases h with
  | raw value => exact .raw value
  | program hf hg => exact .program hf hg (.inl rfl)
  | fnDecl h hm => exact .fnDecl h (.inr hm)
  | letDecl h hm => exact .letDecl h (.inr hm)
  | block h hm => exact .block h (.inr hm)
  | assignment h hm => exact .assignment h (.inr hm)
  | printLine h hm => exact .printLine h (.inr hm)
  | ifElse h h' h'' hm => exact .ifElse h h' h'' (.inr hm)
  | forIn h h' hm => exact .forIn h h' (.inr hm)
  | whileLoop h h' hm => exact .whileLoop h h' (.inr hm)
  | breakLoop hm => exact .breakLoop (.inr hm)
  | continueLoop hm => exact .continueLoop (.inr hm)
  | returnWith h hm => exact .returnWith h (.inr hm)
  | expression h hm => exact .expression h (.inr hm)
  | array h hm => exact .array h (.inr hm)
  | range h h' hm => exact .range h h' (.inr hm)
  | binary h h' hm => exact .binary h h' (.inr hm)
  | unary h hm => exact .unary h (.inr hm)
  | identifier name hm => exact .identifier name (.inr hm)
  | number x hm => exact .number x (.inr hm)
  | string h hm => exact .string h (.inr hm)
  | nilLiteral hm => exact .nilLiteral (.inr hm)
  | call h hm => exact .call h (.inr hm)
  | index h h' hm => exact .index h h' (.inr hm)
  | field h hm => exact .field h (.inr hm)

def Likeness.layout : Likeness where
  trees := Node.Alike
  marks := MarksAlike
  marks_refl _ := .inl rfl
  marks_orElse := MarksAlike.orElse
  unfold := Node.Alike.matches

end Orus
