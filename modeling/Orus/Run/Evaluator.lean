import Orus.Nesting
import Orus.Run.Operators
import Orus.Run.State

/-! # The evaluator

Evaluating an expression and executing a statement use the evaluator one level
deeper for their parts. The evaluator of a given depth is built from the one below
it, and the evaluator of depth zero stops with an error about nesting.
-/

namespace Orus.Run

structure Evaluator where
  /-- How many levels there are below. -/
  depth : Nat
  /-- The value of an expression. -/
  eval : Node → Eval Value
  /-- The effect of a statement. -/
  exec : Node → Eval Unit
  /-- The value of a marker in a string, if it has one. -/
  resolve : Node → Eval (Option Value)
  /-- The inside of a call: what a declared function gives for its parameters and as
  many arguments. -/
  enter : Node → List Name → List Value → Eval Value

def placeholder : String := "[undefined]"

structure Operation where
  op : Name
  right : Node
  mark : Option Mark

/-- The operations along the left edge of a tree, innermost first, and the tree below
them. -/
def leftEdge : Node → List Operation → Node × List Operation
  | .binary op left right mark, done => leftEdge left (⟨op, right, mark⟩ :: done)
  | node, done => (node, done)

/-- A field of a value: texts and arrays have a length, under two names. -/
def fieldOf? (v : Value) (name : Name) : Option Value :=
  if name = .str "len" ∨ name = .str "length" then
    match v with
    | .text s => some (.number (Number.ofInt s.length))
    | .array items => some (.number (Number.ofInt items.length))
    | _ => none
  else none

/-- The item at an index, which counts from the end when it is negative. -/
def itemAt? {α : Type} (items : List α) (i : Int) : Option α :=
  let k := if i < 0 then i + items.length else i
  if k < 0 then none else items[k.toNat]?

namespace Evaluator

variable (cfg : Config) (deeper : Evaluator)

def textOf (v : Value) : Eval String :=
  ofExcept none (Builtin.shown deeper.depth v)

/-! ## Strings -/

/-- The value of a marker: nothing, with a warning, when a name or a field is
missing. -/
def resolveRule (node : Node) : Eval (Option Value) := do
  match node with
  | .identifier name mark =>
    match ← lookup name with
    | some v => return some v
    | none =>
      warn mark s!"undefined variable '{name.text}' in string interpolation"
      return none
  | .field target name mark =>
    match ← deeper.resolve target with
    | none => return none
    | some v =>
      match fieldOf? v name with
      | some item => return some item
      | none =>
        warn mark s!"{(Cause.noField v.type name).message} in string interpolation"
        return none
  | _ => return some (← deeper.eval node)

def markerText (node : Node) : Eval String := do
  let functionWarning (name : String) : Eval String := do
    warn node.mark s!"'{name}' is a function, not a value, in string interpolation"
    return placeholder
  match ← deeper.resolve node with
  | none => return placeholder
  | some (.builtin b) => functionWarning b.name
  | some (.function decl) => functionWarning (Value.functionName decl).text
  | some v => textOf deeper v

def segmentText (node : Node) : Eval String :=
  match node with
  | .raw (.str s) => return s
  | _ => markerText deeper node

/-! ## Expressions -/

def rangeBound (mark : Option Mark) (node : Node) : Eval Int := do
  let v ← deeper.eval node
  match v.toInt? with
  | some n => return n
  | none => fail mark (.rangeBound v.type (← textOf deeper v))

def rangeOf (first last : Node) (mark : Option Mark) : Eval (Int × Nat) := do
  let start ← rangeBound deeper mark first
  let stop ← rangeBound deeper mark last
  return (start, (stop - start + 1).toNat)

/-- The numbers of a range as values, each counted as an iteration. -/
def rangeItems : (count : Nat) → (first : Int) → (done : List Value) → Eval (List Value)
  | 0, _, done => return done.reverse
  | n + 1, first, done => do
    loopTick cfg
    rangeItems n (first + 1) (.number (Number.ofInt first) :: done)

def applyOperation (left : Value) (operation : Operation) : Eval Value := do
  if operation.op = .str "&&" then
    if left.isTruthy then return .ofBool (← deeper.eval operation.right).isTruthy
    else return .ofBool false
  else if operation.op = .str "||" then
    if left.isTruthy then return .ofBool true
    else return .ofBool (← deeper.eval operation.right).isTruthy
  else
    let right ← deeper.eval operation.right
    ofExcept operation.mark (applyOperator deeper.depth operation.op left right)

/-- A binary expression: the operations along its left edge one after the other, so
that long chains need no nesting. -/
def evalBinary (node : Node) : Eval Value := do
  let (first, operations) := leftEdge node []
  operations.foldlM (applyOperation deeper) (← deeper.eval first)

def evalUnary (op : Name) (operand : Node) (mark : Option Mark) : Eval Value := do
  let v ← deeper.eval operand
  if op = .str "!" then return .ofBool (!v.isTruthy)
  else match v with
    | .number x => return .number (-x)
    | _ => fail mark (.negated v.type)

/-- The item at an index, given what a container of some length has there. -/
def pickItem (key : Value) (mark : Option Mark) (length : Nat) (item : Int → Option Value) :
    Eval Value := do
  match key.toInt? with
  | none => fail mark (.indexBound key.type (← textOf deeper key))
  | some i =>
    match item i with
    | some v => return v
    | none => fail mark (.indexOutOfRange (← textOf deeper key) length)

def evalIndex (target position : Node) (mark : Option Mark) : Eval Value := do
  let container ← deeper.eval target
  let key ← deeper.eval position
  match container with
  | .text s =>
    pickItem deeper key mark s.length fun i =>
      (itemAt? s.toList i).map fun c => .text (String.singleton c)
  | .array items => pickItem deeper key mark items.length (itemAt? items)
  | _ => fail mark (.notIndexable container.type)

def bindParams (mark : Option Mark) : List Name → List Value → Eval Unit
  | name :: names, arg :: args => do
    declare name arg mark
    bindParams mark names args
  | _, _ => return

/-- The inside of a call, whose statements are executed one after the other. -/
def enterRule (exec : Node → Eval Unit) (decl : Node) (params : List Name) (args : List Value) :
    Eval Value := do
  checkCallDepth cfg
  bindParams decl.mark params args
  let body ← need decl.body?
  (← need body.statements?).forM exec
  return .undefined

def callFunction (decl : Node) (args : List Value) (mark : Option Mark) : Eval Value := do
  let params ← need decl.params?
  if args.length ≠ params.length then
    fail mark (.wrongArity (Value.functionName decl) params.length args.length)
  else inCall (deeper.enter decl params args)

def callBuiltin (b : Builtin) (args : List Value) (mark : Option Mark) : Eval Value := do
  match b.arity with
  | some n =>
    if args.length ≠ n then fail mark (.wrongArity (.str b.name) n args.length)
  | none => pure ()
  ofExcept mark (b.apply ⟨cfg.timestamp, deeper.depth⟩ args)

def evalCall (name : Name) (argNodes : List Node) (mark : Option Mark) : Eval Value := do
  match ← lookup name with
  | none => fail mark (.undefinedFunction name)
  | some callee =>
    let args ← argNodes.mapM deeper.eval
    match callee with
    | .builtin b => callBuiltin cfg deeper b args mark
    | .function decl => callFunction deeper decl args mark
    | _ => fail mark (.notCallable name)

def evalRule (node : Node) : Eval Value := do
  match node with
  | .number x _ => return .number x
  | .nilLiteral _ => return .undefined
  | .string segments _ =>
    return .text (String.join (← segments.mapM (segmentText deeper)))
  | .identifier name mark => getVariable name mark
  | .array elements _ => return .array (← elements.mapM deeper.eval)
  | .range first last mark =>
    let (start, count) ← rangeOf deeper first last mark
    return .array (← rangeItems cfg count start [])
  | .unary op operand mark => evalUnary deeper op operand mark
  | .binary .. => evalBinary deeper node
  | .assignment name expr mark =>
    let v ← deeper.eval expr
    setVariable name v mark
    logFrom cfg 2 do return s!"assign {name.text} = {← textOf deeper v}"
    return v
  | .call name args mark => evalCall cfg deeper name args mark
  | .index target position mark => evalIndex deeper target position mark
  | .field target name mark =>
    let v ← deeper.eval target
    match fieldOf? v name with
    | some item => return item
    | none => fail mark (.noField v.type name)
  | _ => breakDown (.unexpectedTree .evaluating node.typeName)

/-! ## Statements -/

def execBlock (block : Node) : Eval Unit := do
  let statements ← need block.statements?
  inScope (statements.forM deeper.exec)

def forRound (name : Name) (body : Node) (mark : Option Mark) (item : Value) : Eval Bool := do
  loopTick cfg
  inScope do
    declare name item mark
    logFrom cfg 3 do return s!"for {name.text} = {← textOf deeper item}"
    let statements ← need body.statements?
    loopRound (statements.forM deeper.exec)

def execForItems (name : Name) (iterable body : Node) (mark : Option Mark) : Eval Unit := do
  match ← deeper.eval iterable with
  | .array items => forItems (forRound cfg deeper name body mark) items
  | v => fail iterable.mark (.notIterable v.type)

/-- A loop over a range, which is never built, or over an array. -/
def execFor (name : Name) (iterable body : Node) (mark : Option Mark) : Eval Unit := do
  match iterable with
  | .range first last rangeMark =>
    let (start, count) ← rangeOf deeper first last rangeMark
    forRange (forRound cfg deeper name body mark) count start
  | _ => execForItems cfg deeper name iterable body mark

def evalCondition (cond : Node) : Eval Bool :=
  return (← deeper.eval cond).isTruthy

def execWhile (cond body : Node) : Eval Unit :=
  whileLoop cfg (evalCondition deeper cond) (execBlock deeper body)

/-- A condition with its two parts; the second may be another condition. -/
def execIf (cond thenPart elsePart : Node) : Eval Unit := do
  let v ← deeper.eval cond
  let verdict := if v.isTruthy then "True" else "False"
  logFrom cfg 3 do return s!"if condition {← textOf deeper v} -> {verdict}"
  if v.isTruthy then execBlock deeper thenPart
  else match elsePart with
    | .ifElse .. => deeper.exec elsePart
    | .raw .null => return
    | _ => execBlock deeper elsePart

/-- The effect of a statement once its step has been counted. -/
def effectRule (node : Node) : Eval Unit := do
  match node with
  | .letDecl name value _ mark =>
    let v ← deeper.eval value
    declare name v mark
    logFrom cfg 2 do return s!"declare {name.text}: {v.type.name} = {← textOf deeper v}"
  | .assignment .. => let _ ← deeper.eval node
  | .printLine expr _ =>
    match expr with
    | .raw .null => emit cfg ""
    | _ => emit cfg (← textOf deeper (← deeper.eval expr))
  | .ifElse cond thenPart elsePart _ => execIf cfg deeper cond thenPart elsePart
  | .forIn name iterable body mark => execFor cfg deeper name iterable body mark
  | .whileLoop cond body _ => execWhile cfg deeper cond body
  | .block .. => execBlock deeper node
  | .breakLoop _ => throw .breakLoop
  | .continueLoop _ => throw .continueLoop
  | .returnWith value _ =>
    match value with
    | .raw .null => throw (.returned .undefined)
    | _ => throw (.returned (← deeper.eval value))
  | .expression expr _ => let _ ← deeper.eval expr
  | _ => breakDown (.unexpectedTree .executing node.typeName)

/-- A statement: a step, and then its effect. -/
def execRule (node : Node) : Eval Unit := do
  tick cfg node.mark
  effectRule cfg deeper node

/-! ## Depth -/

/-- The evaluator that has no room left. -/
def exhausted : Evaluator where
  depth := 0
  eval _ := tooDeep
  exec _ := tooDeep
  resolve _ := tooDeep
  enter _ _ _ := tooDeep

def above : Evaluator where
  depth := deeper.depth + 1
  eval := evalRule cfg deeper
  exec := execRule cfg deeper
  resolve := resolveRule deeper
  enter := enterRule cfg (execRule cfg deeper)

def ofDepth : Nat → Evaluator
  | 0 => exhausted
  | n + 1 => above cfg (ofDepth n)

end Evaluator

end Orus.Run
