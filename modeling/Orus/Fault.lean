import Orus.Text.Quoted

/-! # Faults

A fault is a failure outside the language: the data handed in is not what it
should be, or a run meets something the language gives no meaning to. A program's
own errors are in `Orus.Error`.
-/

namespace Orus

/-- What the evaluator was doing when a tree made no sense. -/
inductive Activity where
  | evaluating
  | executing
  deriving DecidableEq, Repr

def Activity.verb : Activity → String
  | .evaluating => "evaluate"
  | .executing => "execute"

inductive Fault where
  /-- Text that is no Number. -/
  | numberText (text : String)
  /-- Text that is no whole number. -/
  | intText (text : String)
  /-- A whole number written with more digits than are read. -/
  | tooManyDigits (count : Nat)
  /-- Data of a kind that cannot become a Number. -/
  | numberKind (kind : String)
  /-- Data of a kind that cannot become a whole number. -/
  | intKind (kind : String)
  /-- A whole number beyond the largest Number. -/
  | numberOverflow
  /-- The whole part of what is not a number. -/
  | wholeOfNaN
  /-- The whole part of infinity. -/
  | wholeOfInfinity
  /-- Data that holds no sequence of items. -/
  | notIterable (kind : String)
  /-- Data that has no fields. -/
  | notSubscriptable (kind : String)
  /-- A list or text asked for a field by name. -/
  | badSubscript (kind : String)
  /-- A field that has to be there and is not. -/
  | missingKey (key : String)
  /-- Data that cannot stand for a syntax tree at all. -/
  | invalidTree
  /-- A tree of a type that does not exist. -/
  | unknownTreeType (shown : String)
  /-- A tree where one of another type has to stand. -/
  | unexpectedTree (activity : Activity) (typeName : String)
  /-- A part that the tree at this place does not have. -/
  | missingPart
  /-- A name that is a list or an object. -/
  | badName (kind : String)
  /-- `break` outside of every loop. -/
  | strayBreak
  /-- `continue` outside of every loop. -/
  | strayContinue
  /-- `return` outside of every function. -/
  | strayReturn
  /-- The remainder of an infinite dividend. -/
  | infiniteDividend
  /-- A function inside an Array that has to be shown as data. -/
  | functionAsData (typeName : String)
  /-- A run asked for in a mode that does not exist. -/
  | unknownMode (shown : String)
  /-- Data of two kinds that have no order. -/
  | noOrder (left right : String)
  /-- A builtin called without its argument. -/
  | missingArgument
  /-- A builtin called with fewer than its arguments. -/
  | tooFewArguments (expected got : Nat)
  /-- A builtin called with more than its arguments. -/
  | tooManyArguments (expected : Nat)
  /-- Data nested deeper than it can be walked. -/
  | tooDeep
  deriving DecidableEq, Repr

def Fault.clip (limit : Nat) (text : String) : String :=
  String.ofList (text.toList.take limit)

def Fault.message : Fault → String
  | .numberText text => s!"could not convert string to float: {Text.quoted text}"
  | .intText text =>
    s!"invalid literal for int() with base 10: {Fault.clip 200 (Text.quoted text)}"
  | .tooManyDigits count =>
    s!"Exceeds the limit (4300 digits) for integer string conversion: value has {count} digits; " ++
      "use sys.set_int_max_str_digits() to increase the limit"
  | .numberKind kind =>
    s!"float() argument must be a string or a real number, not '{kind}'"
  | .intKind kind =>
    s!"int() argument must be a string, a bytes-like object or a real number, not '{kind}'"
  | .numberOverflow => "int too large to convert to float"
  | .wholeOfNaN => "cannot convert float NaN to integer"
  | .wholeOfInfinity => "cannot convert float infinity to integer"
  | .notIterable kind => s!"'{kind}' object is not iterable"
  | .notSubscriptable kind => s!"'{kind}' object is not subscriptable"
  | .badSubscript kind =>
    if kind == "str" then "string indices must be integers, not 'str'"
    else s!"{kind} indices must be integers or slices, not str"
  | .missingKey key => Text.quoted key
  | .invalidTree => "Invalid AST object"
  | .unknownTreeType shown => s!"Unknown AST node type: {shown}"
  | .unexpectedTree activity typeName => s!"{activity.verb}: unexpected node type {typeName}"
  | .missingPart => ""
  | .badName kind => s!"unhashable type: '{kind}'"
  | .strayBreak => ""
  | .strayContinue => ""
  | .strayReturn => "return"
  | .infiniteDividend => "math domain error"
  | .functionAsData typeName => s!"Object of type {typeName} is not JSON serializable"
  | .unknownMode shown => s!"unknown mode {shown}; expected one of ('normal', 'debug')"
  | .noOrder left right =>
    s!"'>' not supported between instances of '{left}' and '{right}'"
  | .missingArgument => "list index out of range"
  | .tooFewArguments expected got =>
    s!"not enough values to unpack (expected {expected}, got {got})"
  | .tooManyArguments expected => s!"too many values to unpack (expected {expected})"
  | .tooDeep => ""

end Orus
