import Orus.Nesting
import Orus.Syntax.Node

/-! # Syntax trees as JSON

Every tree is an object with its type, its parts and its place. Reading takes what
it finds: values without fields stand for themselves, a text is gone through by
character where a list should be, and the optional parts may be missing. Both
directions refuse trees nested deeper than a given depth.
-/

namespace Orus.Syntax

def encodeMark : Option Mark → Json
  | none => .null
  | some m => .obj [("line", m.line), ("column", m.column), ("offset", m.offset)]

/-- The object of a tree: its type, its parts, its place. -/
def encodeFields (node : Node) (parts : List (String × Json)) : Json :=
  .obj (("type", .str node.typeName) :: (parts ++ [("position", encodeMark node.mark)]))

/-- The parts of a tree, with an encoder for the trees inside it. -/
def encodeParts (child : Node → Except Fault Json) :
    Node → Except Fault (List (String × Json))
  | .raw _ => return []
  | .program functions globals sourceLength _ =>
    return [("functions", .arr (← functions.mapM child)), ("globals", .arr (← globals.mapM child)),
      ("source_length", .int sourceLength)]
  | .fnDecl name params body _ =>
    return [("name", name), ("params", .arr params), ("body", ← child body)]
  | .letDecl name value isMutable _ =>
    return [("name", name), ("init", ← child value), ("mutable", .bool isMutable)]
  | .block statements _ => return [("statements", .arr (← statements.mapM child))]
  | .assignment name expr _ => return [("name", name), ("expr", ← child expr)]
  | .printLine expr _ => return [("expr", ← child expr)]
  | .ifElse cond thenPart elsePart _ =>
    return [("cond", ← child cond), ("then_block", ← child thenPart),
      ("else_block", ← child elsePart)]
  | .forIn loopVar iterable body _ =>
    return [("var_name", loopVar), ("iterable", ← child iterable), ("body", ← child body)]
  | .whileLoop cond body _ => return [("cond", ← child cond), ("body", ← child body)]
  | .breakLoop _ => return []
  | .continueLoop _ => return []
  | .returnWith value _ => return [("value", ← child value)]
  | .expression expr _ => return [("expr", ← child expr)]
  | .array elements _ => return [("elements", .arr (← elements.mapM child))]
  | .range first last _ => return [("start", ← child first), ("end", ← child last)]
  | .binary op left right _ =>
    return [("op", op), ("left", ← child left), ("right", ← child right)]
  | .unary op operand _ => return [("op", op), ("operand", ← child operand)]
  | .identifier name _ => return [("name", name)]
  | .number value _ => return [("value", .float value)]
  | .string segments _ => return [("segments", .arr (← segments.mapM child))]
  | .nilLiteral _ => return []
  | .call name args _ => return [("name", name), ("args", .arr (← args.mapM child))]
  | .index target position _ => return [("target", ← child target), ("index", ← child position)]
  | .field target name _ => return [("target", ← child target), ("name", name)]

def encodeWithin : (depth : Nat) → Node → Except Fault Json
  | 0, _ => .error .tooDeep
  | d + 1, node =>
    match node with
    | .raw value => .ok value
    | _ => do return encodeFields node (← encodeParts (encodeWithin d) node)

def decodeMark : Json → Except Fault (Option Mark)
  | .null => .ok none
  | .obj fields => do
    let some line := Json.field? "line" fields | .error (.missingKey "line")
    let some column := Json.field? "column" fields | .error (.missingKey "column")
    .ok (some ⟨line, column, (Json.field? "offset" fields).getD (.int 0)⟩)
  | .str _ => .error (.badSubscript "str")
  | .arr _ => .error (.badSubscript "list")
  | value => .error (.notSubscriptable value.kind)

def required (fields : List (String × Json)) (key : String) : Except Fault Json :=
  match Json.field? key fields with
  | some value => .ok value
  | none => .error (.missingKey key)

def optional (fields : List (String × Json)) (key : String) (default : Json) : Json :=
  (Json.field? key fields).getD default

def decodeMany (child : Json → Except Fault Node) (value : Json) : Except Fault (List Node) := do
  (← value.toItems).mapM child

/-- The tree of a type, from its parts and its place, with a decoder for the trees
inside it. -/
def decodeParts (child : Json → Except Fault Node) (fields : List (String × Json))
    (mark : Option Mark) (type : Json) : Except Fault Node := do
  let part (key : String) : Except Fault Node := do child (← required fields key)
  let many (key : String) : Except Fault (List Node) := do
    decodeMany child (← required fields key)
  match type with
  | .str "Program" =>
    let functions ← many "functions"
    let globals ← decodeMany child (optional fields "globals" (.arr []))
    let sourceLength ← (optional fields "source_length" (.int 0)).toWhole
    return .program functions globals sourceLength mark
  | .str "FnDecl" =>
    let name ← required fields "name"
    let params ← (← required fields "params").toItems
    return .fnDecl name params (← part "body") mark
  | .str "LetDecl" =>
    let name ← required fields "name"
    let value ← part "init"
    return .letDecl name value (optional fields "mutable" (.bool false)).isTrue mark
  | .str "Block" => return .block (← many "statements") mark
  | .str "Assignment" =>
    let name ← required fields "name"
    return .assignment name (← part "expr") mark
  | .str "PrintStmt" => return .printLine (← child (optional fields "expr" .null)) mark
  | .str "IfStmt" =>
    let cond ← part "cond"
    let thenPart ← part "then_block"
    let elsePart ← child (optional fields "else_block" .null)
    return .ifElse cond thenPart elsePart mark
  | .str "ForInStmt" =>
    let loopVar ← required fields "var_name"
    let iterable ← part "iterable"
    return .forIn loopVar iterable (← part "body") mark
  | .str "WhileStmt" =>
    let cond ← part "cond"
    return .whileLoop cond (← part "body") mark
  | .str "BreakStmt" => return .breakLoop mark
  | .str "ContinueStmt" => return .continueLoop mark
  | .str "ReturnStmt" => return .returnWith (← child (optional fields "value" .null)) mark
  | .str "ExprStmt" => return .expression (← part "expr") mark
  | .str "ArrayLiteral" => return .array (← many "elements") mark
  | .str "RangeExpr" =>
    let first ← part "start"
    return .range first (← part "end") mark
  | .str "BinaryExpr" =>
    let op ← required fields "op"
    let left ← part "left"
    return .binary op left (← part "right") mark
  | .str "UnaryExpr" =>
    let op ← required fields "op"
    return .unary op (← part "operand") mark
  | .str "Identifier" => return .identifier (← required fields "name") mark
  | .str "NumberLiteral" => return .number (← (← required fields "value").toNumber) mark
  | .str "StringLiteral" => return .string (← many "segments") mark
  | .str "NilLiteral" => return .nilLiteral mark
  | .str "Call" =>
    let name ← required fields "name"
    return .call name (← many "args") mark
  | .str "IndexExpr" =>
    let target ← part "target"
    return .index target (← part "index") mark
  | .str "FieldAccess" =>
    let target ← part "target"
    return .field target (← required fields "name") mark
  | _ => .error (.unknownTreeType type.text)

def decodeWithin : (depth : Nat) → Json → Except Fault Node
  | 0, _ => .error .tooDeep
  | d + 1, value =>
    match value with
    | .arr _ => .error .invalidTree
    | .obj fields => do
      let mark ← decodeMark (optional fields "position" .null)
      decodeParts (decodeWithin d) fields mark (optional fields "type" .null)
    | _ => .ok (.raw value)

def encode (node : Node) : Except Fault Json :=
  encodeWithin nestingLimit node

def decode (value : Json) : Except Fault Node :=
  decodeWithin nestingLimit value

end Orus.Syntax
