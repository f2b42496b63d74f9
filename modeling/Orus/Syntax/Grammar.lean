import Orus.Nesting
import Orus.Number.Reading
import Orus.Syntax.Cursor
import Orus.Syntax.Segments

/-! # The grammar

Each rule of the grammar is a parser that uses the rules one level deeper. A
grammar of a given depth is built from the one below it, and the grammar of depth
zero refuses everything, so the depth bounds how far rules may nest.

From loosest to tightest, operators are assignment, `||`, `&&`, `== !=`,
`< > <= >=`, `+ -`, `* / %`, unary `! -`, and then calls, indexes and fields.
-/

namespace Orus.Syntax

/-- The rules that contain one another. -/
structure Grammar where
  /-- An expression that may be an assignment. -/
  expression : Parse Node
  /-- Operators of the given priorities, loosest first; with none left, a unary
  expression. -/
  operators : List (List String) → Parse Node
  /-- A type annotation. -/
  ascription : Parse Unit
  /-- Statements in braces, inside a loop or not. -/
  block : Bool → Parse Node
  /-- One statement. -/
  statement : Bool → Parse Node
  /-- An `if` or `elif` with everything that belongs to it. -/
  conditional : Bool → Parse Node

/-- Reserved words that no rule uses. -/
def unsupportedWords : List String := [
  "struct", "enum", "impl", "use", "pub", "match", "try", "catch", "throw", "as"]

/-- The binary operators by priority, loosest first. -/
def priorities : List (List String) := [
  ["||"], ["&&"], ["==", "!="], ["<", ">", "<=", ">="], ["+", "-"], ["*", "/", "%"]]

/-- Operands with operators between them, grouped from the left. -/
def chain (operators : List String) (operand : Parse Node) :
    (budget : Nat) → (left : Node) → Parse Node
  | 0, left => return left
  | n + 1, left => do
    if ← sees operators then
      let op ← advance
      let right ← operand
      chain operators operand n (.binary op.name left right op.mark)
    else return left

/-- Statements up to a closing brace, which stays in sight. -/
def statements (statement : Parse Node) (opened : Position) :
    (budget : Nat) → (done : List Node) → Parse (List Node)
  | 0, done => return done.reverse
  | n + 1, done => do
    if ← sees ["\x7d"] then return done.reverse
    else
      let token ← peek
      if token.kind = .eof then failAt token.mark (.unclosedBrace opened)
      else if ← accept ";" then statements statement opened n done
      else
        let next ← statement
        statements statement opened n (next :: done)

def moreAscriptions (ascription : Parse Unit) : (budget : Nat) → Parse Unit
  | 0 => return
  | n + 1 => do
    if ← accept "," then
      ascription
      moreAscriptions ascription n

namespace Grammar

variable (deeper : Grammar)

/-! ## Types -/

/-- `T`, `[T]` or `T<T, ...>`. -/
def ascriptionRule : Parse Unit := do
  if ← accept "[" then
    deeper.ascription
    let _ ← consume "]"
  else
    let _ ← consumeIdent "a type name"
    if ← accept "<" then
      deeper.ascription
      moreAscriptions deeper.ascription (← get).budget
      let _ ← consume ">"

def optionalAscription (mark : String) : Parse Unit := do
  if ← accept mark then deeper.ascription

/-! ## Expressions -/

/-- An operand, or an assignment to a variable, which groups from the right. -/
def expressionRule : Parse Node := do
  let left ← deeper.operators priorities
  if ← sees ["="] then
    let equals ← advance
    match left with
    | .identifier name mark =>
      let right ← deeper.expression
      return .assignment name right mark
    | _ => failAt equals.mark .assignmentTarget
  else return left

/-- The arguments of a call; a call of `range` is a tree of its own. -/
def callRule (name : Name) (mark : Option Mark) : Parse Node := do
  if name = .str "print" then failAt mark .printInExpression
  else
    let _ ← consume "("
    let args ← commaList ")" deeper.expression (← get).budget []
    let _ ← consume ")"
    if name = .str "range" then
      match args with
      | [first, last] => return .range first last mark
      | _ => failAt mark (.rangeArity args.length)
    else return .call name args mark

/-- Indexes, fields and calls after an expression; only an identifier can be called. -/
def suffixes : (budget : Nat) → (node : Node) → Parse Node
  | 0, node => return node
  | n + 1, node => do
    if ← sees ["["] then
      let bracket ← advance
      let position ← deeper.expression
      let _ ← consume "]"
      suffixes n (.index node position bracket.mark)
    else if ← accept "." then
      let name ← consumeIdent "a field name"
      suffixes n (.field node name.name name.mark)
    else if ← sees ["("] then
      match node with
      | .identifier name mark =>
        let call ← callRule deeper name mark
        suffixes n call
      | _ => return node
    else return node

def numberLiteral (token : Token) : Parse Node :=
  match Number.readNumber? token.text with
  | some x => return .number x token.mark
  | none => throw (.fault (.numberText token.text))

def primaryRule : Parse Node := do
  let token ← peek
  if token.kind = .number then
    let _ ← advance
    numberLiteral token
  else if token.kind = .string then
    let _ ← advance
    return stringLiteral (token.value.getD "") token.mark
  else if token.kind = .ident then
    let _ ← advance
    return .identifier token.name token.mark
  else if ← sees ["true", "false"] then
    let _ ← advance
    return .number (if token.text = "true" then 1.0 else 0.0) token.mark
  else if ← accept "nil" then return .nilLiteral token.mark
  else if ← accept "(" then
    let inside ← deeper.expression
    let _ ← consume ")"
    return inside
  else if ← accept "[" then
    let elements ← commaList "]" deeper.expression (← get).budget []
    let _ ← consume "]"
    return .array elements token.mark
  else if token.kind = .keyword ∧ unsupportedWords.contains token.text then
    failAt token.mark (.unsupported token.text)
  else failAt token.mark (.expected "an expression" token.describe)

def unaryRule : Parse Node := do
  if ← sees ["!", "-"] then
    let op ← advance
    let operand ← deeper.operators []
    return .unary op.name operand op.mark
  else
    let node ← primaryRule deeper
    suffixes deeper (← get).budget node

/-- The operators of the loosest priority, between operands of the tighter ones. -/
def operatorsRule : List (List String) → Parse Node
  | [] => unaryRule deeper
  | loosest :: tighter => do
    let first ← deeper.operators tighter
    chain loosest (deeper.operators tighter) (← get).budget first

/-! ## Statements -/

def mutability (keyword : Token) : Parse Bool :=
  if keyword.text = "let" then accept "mut" else return false

/-- The value of a declaration; without one it is `nil`, but `const` needs one. -/
def initializer (keyword : Token) : Parse Node := do
  let hasValue ← sees ["="]
  if keyword.text = "const" ∨ hasValue then
    let _ ← consume "="
    deeper.expression
  else return .nilLiteral keyword.mark

def letRule : Parse Node := do
  let keyword ← advance
  let isMutable ← mutability keyword
  let name ← consumeIdent "a variable name"
  optionalAscription deeper ":"
  let value ← initializer deeper keyword
  let _ ← accept ";"
  return .letDecl name.name value isMutable keyword.mark

def expressionUnless (texts : List String) : Parse Node := do
  if ← sees texts then return .absent else deeper.expression

def printRule : Parse Node := do
  let token ← advance
  let _ ← consume "("
  let expr ← expressionUnless deeper [")"]
  let _ ← consume ")"
  let _ ← accept ";"
  return .printLine expr token.mark

/-- What follows the block of an `if` or `elif`: another condition, a block or nothing. -/
def elseRule (inLoop : Bool) : Parse Node := do
  if ← sees ["elif"] then deeper.conditional inLoop
  else if ← accept "else" then
    if ← sees ["if"] then deeper.conditional inLoop else deeper.block inLoop
  else return .absent

def conditionalRule (inLoop : Bool) : Parse Node := do
  let token ← advance
  let cond ← deeper.expression
  let thenPart ← deeper.block inLoop
  let elsePart ← elseRule deeper inLoop
  return .ifElse cond thenPart elsePart token.mark

def forRule : Parse Node := do
  let token ← consume "for"
  let name ← consumeIdent "a loop variable"
  let _ ← consume "in"
  let iterable ← deeper.expression
  let body ← deeper.block true
  return .forIn name.name iterable body token.mark

def whileRule : Parse Node := do
  let token ← consume "while"
  let cond ← deeper.expression
  let body ← deeper.block true
  return .whileLoop cond body token.mark

/-- `break` or `continue`, which need a loop around them. -/
def loopControlRule (inLoop : Bool) : Parse Node := do
  let token ← advance
  if inLoop then
    let _ ← accept ";"
    return if token.text = "break" then .breakLoop token.mark else .continueLoop token.mark
  else failAt token.mark (.outsideLoop token.text)

def returnRule : Parse Node := do
  let token ← consume "return"
  let value ← expressionUnless deeper [";", "\x7d"]
  let _ ← accept ";"
  return .returnWith value token.mark

/-- An expression as a statement; an assignment is a statement of its own. -/
def expressionStatementRule : Parse Node := do
  let token ← peek
  let expr ← deeper.expression
  let _ ← accept ";"
  match expr with
  | .assignment .. => return expr
  | _ => return .expression expr token.mark

def blockRule (inLoop : Bool) : Parse Node := do
  let brace ← consume "\x7b"
  let inside ← statements (deeper.statement inLoop) brace.position (← get).budget []
  let _ ← consume "\x7d"
  return .block inside brace.mark

def statementRule (inLoop : Bool) : Parse Node := do
  let token ← peek
  let isWord := fun word => token.kind = .keyword ∧ token.text = word
  if isWord "let" ∨ isWord "const" then letRule deeper
  else if isWord "if" then deeper.conditional inLoop
  else if isWord "for" then forRule deeper
  else if isWord "while" then whileRule deeper
  else if isWord "break" ∨ isWord "continue" then loopControlRule inLoop
  else if isWord "return" then returnRule deeper
  else if token.kind = .keyword ∧ (unsupportedWords.contains token.text ∨ token.text = "fn") then
    failAt token.mark (.unsupported token.text)
  else if ← sees ["\x7b"] then deeper.block inLoop
  else if token.kind = .ident ∧ token.text = "print" then printRule deeper
  else expressionStatementRule deeper

/-! ## Depth -/

def exhausted : Grammar where
  expression := throw (.fault .tooDeep)
  operators _ := throw (.fault .tooDeep)
  ascription := throw (.fault .tooDeep)
  block _ := throw (.fault .tooDeep)
  statement _ := throw (.fault .tooDeep)
  conditional _ := throw (.fault .tooDeep)

def above : Grammar where
  expression := expressionRule deeper
  operators := operatorsRule deeper
  ascription := ascriptionRule deeper
  block := blockRule deeper
  statement := statementRule deeper
  conditional := conditionalRule deeper

/-- The grammar whose rules nest less than the given number of levels. -/
def ofDepth : Nat → Grammar
  | 0 => exhausted
  | n + 1 => above (ofDepth n)

/-! ## Programs -/

def parameterRule : Parse Name := do
  let name ← consumeIdent "a parameter name"
  optionalAscription deeper ":"
  return name.name

def functionRule : Parse Node := do
  let token ← consume "fn"
  let name ← consumeIdent "a function name"
  let _ ← consume "("
  let params ← commaList ")" (parameterRule deeper) (← get).budget []
  let _ ← consume ")"
  optionalAscription deeper "->"
  let body ← deeper.block false
  return .fnDecl name.name params body token.mark

/-- Functions and global variables up to the end of input, each in order. -/
def declarations : (budget : Nat) → (functions globals : List Node) →
    Parse (List Node × List Node)
  | 0, functions, globals => return (functions.reverse, globals.reverse)
  | n + 1, functions, globals => do
    let token ← peek
    if token.kind = .eof then return (functions.reverse, globals.reverse)
    else if ← accept ";" then declarations n functions globals
    else if ← sees ["fn"] then
      let fn ← functionRule deeper
      declarations n (fn :: functions) globals
    else if ← sees ["let", "const"] then
      let decl ← letRule deeper
      declarations n functions (decl :: globals)
    else if token.kind = .keyword ∧ unsupportedWords.contains token.text then
      failAt token.mark (.unsupported token.text)
    else failAt token.mark (.expected "'fn', 'let' or 'const'" token.describe)

def isMain : Node → Bool
  | .fnDecl name params _ _ => name = .str "main" && params.isEmpty
  | _ => false

/-- A whole program, which must have a `main` function without parameters. -/
def programRule : Parse Node := do
  let (functions, globals) ← declarations deeper (← get).budget [] []
  let last ← peek
  if functions.any isMain then return .program functions globals last.position.offset none
  else throw (.error ⟨.missingMain, none⟩)

end Grammar

def parseTokens (depth : Nat) (tokens : List Token) : Except Failure Node := do
  let cursor ← Cursor.start tokens
  let (program, _) ← Grammar.programRule (Grammar.ofDepth depth) cursor
  return program

end Orus.Syntax
