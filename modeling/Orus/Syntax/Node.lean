import Orus.Json.Basic
import Orus.Token.Basic

/-! # Syntax trees

Trees come from source text or from JSON. A tree from source text is well formed;
one from JSON need not be: any value without fields may stand where a tree should,
and any value at all where a name should. Running such a tree meets the
misfit only if it gets there.
-/

namespace Orus

/-- A name or an operator. In a tree from source text it is text. -/
abbrev Name := Json

/-- What makes names one and the same: a truth value counts as 0 or 1, a fraction
without a fractional part as the whole number it is, and any other name as itself. -/
def Name.key : Name → Name
  | .bool b => .int (if b then 1 else 0)
  | .float x => match Number.toInt? x with
    | some n => .int n
    | none => .float x
  | name => name

def Name.same (a b : Name) : Bool :=
  Name.key a = Name.key b

/-- Names that are text are the same only when they are equal. -/
theorem Name.same_str (s t : String) : Name.same (.str s) (.str t) = decide (s = t) := by
  simp [Name.same, Name.key]

/-- The recorded place of a node, with whatever values were recorded. -/
structure Mark where
  line : Json
  column : Json
  offset : Json
  deriving DecidableEq, Repr, Inhabited

def Position.mark (p : Position) : Mark :=
  ⟨.int p.line, .int p.column, .int p.offset⟩

def Token.name (t : Token) : Name := .str t.text

def Token.mark (t : Token) : Option Mark := some t.position.mark

def Mark.note (m : Mark) : String :=
  s!" (line {m.line.text}, column {m.column.text})"

inductive Node where
  /-- A value in the place of a tree; `null` also marks a part left out. -/
  | raw (value : Json)
  | program (functions globals : List Node) (sourceLength : Int) (mark : Option Mark)
  | fnDecl (name : Name) (params : List Name) (body : Node) (mark : Option Mark)
  | letDecl (name : Name) (init : Node) (isMutable : Bool) (mark : Option Mark)
  | block (statements : List Node) (mark : Option Mark)
  | assignment (name : Name) (expr : Node) (mark : Option Mark)
  | printLine (expr : Node) (mark : Option Mark)
  | ifElse (cond thenPart elsePart : Node) (mark : Option Mark)
  | forIn (loopVar : Name) (iterable body : Node) (mark : Option Mark)
  | whileLoop (cond body : Node) (mark : Option Mark)
  | breakLoop (mark : Option Mark)
  | continueLoop (mark : Option Mark)
  | returnWith (value : Node) (mark : Option Mark)
  | expression (expr : Node) (mark : Option Mark)
  | array (elements : List Node) (mark : Option Mark)
  | range (first last : Node) (mark : Option Mark)
  | binary (op : Name) (left right : Node) (mark : Option Mark)
  | unary (op : Name) (operand : Node) (mark : Option Mark)
  | identifier (name : Name) (mark : Option Mark)
  | number (value : Float) (mark : Option Mark)
  | string (segments : List Node) (mark : Option Mark)
  | nilLiteral (mark : Option Mark)
  | call (name : Name) (args : List Node) (mark : Option Mark)
  | index (target position : Node) (mark : Option Mark)
  | field (target : Node) (name : Name) (mark : Option Mark)
  deriving Inhabited

namespace Node

abbrev absent : Node := .raw .null

/-- The name of a tree's type; for a value in the place of a tree, the kind of value. -/
def typeName : Node → String
  | .raw value => value.kind
  | .program .. => "Program"
  | .fnDecl .. => "FnDecl"
  | .letDecl .. => "LetDecl"
  | .block .. => "Block"
  | .assignment .. => "Assignment"
  | .printLine .. => "PrintStmt"
  | .ifElse .. => "IfStmt"
  | .forIn .. => "ForInStmt"
  | .whileLoop .. => "WhileStmt"
  | .breakLoop .. => "BreakStmt"
  | .continueLoop .. => "ContinueStmt"
  | .returnWith .. => "ReturnStmt"
  | .expression .. => "ExprStmt"
  | .array .. => "ArrayLiteral"
  | .range .. => "RangeExpr"
  | .binary .. => "BinaryExpr"
  | .unary .. => "UnaryExpr"
  | .identifier .. => "Identifier"
  | .number .. => "NumberLiteral"
  | .string .. => "StringLiteral"
  | .nilLiteral .. => "NilLiteral"
  | .call .. => "Call"
  | .index .. => "IndexExpr"
  | .field .. => "FieldAccess"

def mark : Node → Option Mark
  | .raw _ => none
  | .program _ _ _ m | .fnDecl _ _ _ m | .letDecl _ _ _ m | .block _ m | .assignment _ _ m
  | .printLine _ m | .ifElse _ _ _ m | .forIn _ _ _ m | .whileLoop _ _ m | .breakLoop m
  | .continueLoop m | .returnWith _ m | .expression _ m | .array _ m | .range _ _ m
  | .binary _ _ _ m | .unary _ _ m | .identifier _ m | .number _ m | .string _ m | .nilLiteral m
  | .call _ _ m | .index _ _ m | .field _ _ m => m

def name? : Node → Option Name
  | .fnDecl name _ _ _ | .letDecl name _ _ _ | .assignment name _ _ | .identifier name _
  | .call name _ _ | .field _ name _ => some name
  | _ => none

def params? : Node → Option (List Name)
  | .fnDecl _ params _ _ => some params
  | _ => none

def body? : Node → Option Node
  | .fnDecl _ _ body _ | .forIn _ _ body _ | .whileLoop _ body _ => some body
  | _ => none

def statements? : Node → Option (List Node)
  | .block statements _ => some statements
  | _ => none

end Node

end Orus
