import Orus.Syntax.Node

/-! # Errors of the language

An error is a cause and the place it is reported at. The kind and the wording
follow from the cause.
-/

namespace Orus

inductive ValueType where
  | number
  | text
  | array
  | undefined
  | builtin
  | function
  deriving DecidableEq, Repr

def ValueType.name : ValueType → String
  | .number => "Number"
  | .text => "Text"
  | .array => "Array"
  | .undefined => "Undefined"
  | .builtin => "BuiltinFunction"
  | .function => "FunctionValue"

inductive ErrorKind where
  | badSyntax
  | missingMain
  | name
  | redeclaration
  | typeMismatch
  | divisionByZero
  | index
  | resourceExhausted
  | cancelled
  deriving DecidableEq, Repr

def ErrorKind.label : ErrorKind → String
  | .badSyntax => "SyntaxError"
  | .missingMain => "MissingMainError"
  | .name => "NameError"
  | .redeclaration => "RedeclarationError"
  | .typeMismatch => "TypeMismatch"
  | .divisionByZero => "DivisionByZero"
  | .index => "IndexError"
  | .resourceExhausted => "ResourceExhausted"
  | .cancelled => "Cancelled"

inductive SyntaxIssue where
  /-- A piece of text that is no token, with a description of the problem. -/
  | invalidToken (text : String) (problem : Option String)
  /-- A token of another sort than the grammar asks for. -/
  | expected (what found : String)
  /-- The end of input inside a block. -/
  | unclosedBrace (opened : Position)
  /-- A reserved word without a meaning here. -/
  | unsupported (word : String)
  /-- `break` or `continue` outside of a loop. -/
  | outsideLoop (word : String)
  /-- An assignment to something that is no variable. -/
  | assignmentTarget
  /-- `print` used as an expression. -/
  | printInExpression
  /-- `range` with the wrong number of arguments. -/
  | rangeArity (count : Nat)
  /-- Nesting beyond the limit of the grammar. -/
  | nestedTooDeeply
  deriving DecidableEq, Repr

namespace SyntaxIssue

/-- What the grammar asks for. -/
def expectation : SyntaxIssue → String
  | .invalidToken .. => "a valid token"
  | .expected what _ => what
  | .unclosedBrace _ => "'\x7d'"
  | .unsupported _ => "a supported statement"
  | .outsideLoop _ => "a statement"
  | .assignmentTarget => "a variable name before ="
  | .printInExpression => "an expression"
  | .rangeArity _ => "range(start, end)"
  | .nestedTooDeeply => "less deeply nested code"

def found : SyntaxIssue → String
  | .invalidToken text _ => Text.quoted text
  | .expected _ found => found
  | .unclosedBrace _ => "end of input"
  | .unsupported word => s!"'{word}'"
  | .outsideLoop word => s!"'{word}'"
  | .assignmentTarget => "'='"
  | .printInExpression => "'print'"
  | .rangeArity count => s!"{count} argument(s)"
  | .nestedTooDeeply => "nesting too deep"

/-- The wording that applies unless an issue has its own. -/
def plainMessage (issue : SyntaxIssue) : String :=
  s!"expected {issue.expectation}, found {issue.found}"

def message (issue : SyntaxIssue) : String :=
  match issue with
  | .invalidToken _ (some problem) => if problem = "" then issue.plainMessage else problem
  | .invalidToken _ none => issue.plainMessage
  | .expected .. => issue.plainMessage
  | .unclosedBrace opened => s!"unclosed brace opened at {opened.text}"
  | .unsupported word => s!"'{word}' is not supported by the playground simulator"
  | .outsideLoop word => s!"'{word}' outside of a loop"
  | .assignmentTarget => "invalid assignment target"
  | .printInExpression => "print(...) can only be used as a statement"
  | .rangeArity _ => "range expects exactly 2 arguments"
  | .nestedTooDeeply => "program is nested too deeply to parse"

end SyntaxIssue

inductive Cause where
  | grammar (issue : SyntaxIssue)
  | missingMain
  | undefinedVariable (name : Name)
  | undeclaredVariable (name : Name)
  | undefinedFunction (name : Name)
  | redeclared (name : Name)
  | unsupportedOperands (op : String) (left right : ValueType)
  | incomparable (left right : ValueType)
  | unknownOperator (op : Name)
  | negated (type : ValueType)
  | notIterable (type : ValueType)
  | rangeBound (type : ValueType) (shown : String)
  | indexBound (type : ValueType) (shown : String)
  | notIndexable (type : ValueType)
  | indexOutOfRange (shown : String) (length : Nat)
  | noField (type : ValueType) (field : Name)
  | wrongArity (name : Name) (expected got : Nat)
  | notCallable (name : Name)
  | noLength (type : ValueType)
  | notNumbers (builtin : String) (type : ValueType)
  | emptySequence (builtin : String)
  | notConvertible (type : ValueType) (shown : String)
  | notInteger (shown : String)
  | notPushable (type : ValueType)
  | divisionByZero
  | moduloByZero
  | stepBudget
  | iterationBudget
  | callDepth
  | outputBudget
  | nestingTooDeep
  | cancelled
  deriving DecidableEq, Repr

namespace Cause

def kind : Cause → ErrorKind
  | .grammar _ => .badSyntax
  | .missingMain => .missingMain
  | .undefinedVariable _ | .undeclaredVariable _ | .undefinedFunction _ => .name
  | .redeclared _ => .redeclaration
  | .unsupportedOperands .. | .incomparable .. | .unknownOperator _ | .negated _ | .notIterable _
  | .rangeBound .. | .indexBound .. | .notIndexable _ | .noField .. | .wrongArity ..
  | .notCallable _ | .noLength _ | .notNumbers .. | .emptySequence _ | .notConvertible ..
  | .notInteger _ | .notPushable _ => .typeMismatch
  | .indexOutOfRange .. => .index
  | .divisionByZero | .moduloByZero => .divisionByZero
  | .stepBudget | .iterationBudget | .callDepth | .outputBudget | .nestingTooDeep =>
    .resourceExhausted
  | .cancelled => .cancelled

/-- What asking a value for a whole number says when it is none. -/
def notIntegral (type : ValueType) (shown : String) : String :=
  s!"expected an integral Number, got {type.name} {shown}"

def message : Cause → String
  | .grammar issue => issue.message
  | .missingMain => "no zero-argument 'main' function found"
  | .undefinedVariable name => s!"undefined variable '{name.text}'"
  | .undeclaredVariable name => s!"cannot assign to undeclared variable '{name.text}'"
  | .undefinedFunction name => s!"undefined function '{name.text}'"
  | .redeclared name => s!"'{name.text}' is already declared in this scope"
  | .unsupportedOperands op left right => s!"unsupported {op} for {left.name} and {right.name}"
  | .incomparable left right => s!"cannot compare {left.name} and {right.name}"
  | .unknownOperator op => s!"unknown operator {op.text}"
  | .negated type => s!"unary - expects a Number, got {type.name}"
  | .notIterable type => s!"cannot iterate over {type.name}"
  | .rangeBound type shown => s!"range bounds must be integers: {notIntegral type shown}"
  | .indexBound type shown => s!"index must be an integer: {notIntegral type shown}"
  | .notIndexable type => s!"cannot index {type.name}"
  | .indexOutOfRange shown length => s!"index {shown} out of range for length {length}"
  | .noField type field => s!"{type.name} has no field '{field.text}'"
  | .wrongArity name expected got => s!"{name.text} expects {expected} argument(s), got {got}"
  | .notCallable name => s!"'{name.text}' is not callable"
  | .noLength type => s!"len expects Text or Array, got {type.name}"
  | .notNumbers builtin type => s!"{builtin} expects Numbers, got {type.name}"
  | .emptySequence builtin => s!"{builtin} of an empty sequence"
  | .notConvertible type shown => s!"cannot convert {type.name} {Text.quoted shown} to a Number"
  | .notInteger shown => s!"cannot convert {shown} to an integer"
  | .notPushable type => s!"push expects an Array, got {type.name}"
  | .divisionByZero => "division by zero"
  | .moduloByZero => "modulo by zero"
  | .stepBudget => "program exceeded its execution step budget"
  | .iterationBudget => "program exceeded its loop iteration budget"
  | .callDepth => "program exceeded its call depth limit"
  | .outputBudget => "program produced too much output"
  | .nestingTooDeep => "program nests calls or expressions too deeply"
  | .cancelled => "evaluation was cancelled"

end Cause

structure Error where
  cause : Cause
  mark : Option Mark := none
  deriving DecidableEq, Repr

/-- What can go wrong: an error of the language, or a fault outside it. -/
inductive Failure where
  | error (error : Error)
  | fault (fault : Fault)
  deriving DecidableEq, Repr

end Orus
