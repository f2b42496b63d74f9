import Orus.Error

/-! # Values

What expressions evaluate to. Arrays never change: what seems to change one builds
a new one.
-/

namespace Orus

inductive Builtin where
  | len
  | sum
  | min
  | max
  | typeOf
  | str
  | int
  | float
  | push
  | timestamp
  deriving DecidableEq, Repr, Inhabited

namespace Builtin

/-- All builtins, in the order in which they are declared. -/
def all : List Builtin := [.len, .sum, .min, .max, .typeOf, .str, .int, .float, .push, .timestamp]

def name : Builtin → String
  | .len => "len"
  | .sum => "sum"
  | .min => "min"
  | .max => "max"
  | .typeOf => "type_of"
  | .str => "str"
  | .int => "int"
  | .float => "float"
  | .push => "push"
  | .timestamp => "timestamp"

/-- The number of arguments; nothing for any number. -/
def arity : Builtin → Option Nat
  | .sum | .min | .max => none
  | .len | .typeOf | .str | .int | .float => some 1
  | .push => some 2
  | .timestamp => some 0

def ofName? (name : String) : Option Builtin :=
  all.find? fun b => b.name == name

end Builtin

/-- A value. A function is its declaration; it always runs in the global scope. -/
inductive Value where
  | number (x : Float)
  | text (s : String)
  | array (items : List Value)
  | undefined
  | builtin (b : Builtin)
  | function (decl : Node)
  deriving Inhabited

namespace Value

def type : Value → ValueType
  | .number _ => .number
  | .text _ => .text
  | .array _ => .array
  | .undefined => .undefined
  | .builtin _ => .builtin
  | .function _ => .function

def ofBool (b : Bool) : Value :=
  .number (if b then 1.0 else 0.0)

/-- Whether a condition with this value holds. -/
def isTruthy : Value → Bool
  | .number x => !(x == 0.0) && !x.isNaN
  | .text s => s ≠ ""
  | .array items => !items.isEmpty
  | _ => false

def functionName (decl : Node) : Name :=
  decl.name?.getD .null

mutual

/-- How deep arrays are nested in a value. -/
def height : Value → Nat
  | .array items => heightOfItems items + 1
  | _ => 0

def heightOfItems : List Value → Nat
  | [] => 0
  | item :: rest => max (height item) (heightOfItems rest)

end

mutual

def display : Value → String
  | .number x => Number.display x
  | .text s => s
  | .array items => "[" ++ ", ".intercalate (displayItems items) ++ "]"
  | .undefined => "nil"
  | .builtin b => s!"<builtin {b.name}>"
  | .function decl => s!"<fn {(functionName decl).text}>"

def displayItems : List Value → List String
  | [] => []
  | item :: rest => display item :: displayItems rest

end

mutual

/-- Equality of the language: by content, never between types and never for
functions. -/
def equal : Value → Value → Bool
  | .number a, .number b => a == b
  | .text a, .text b => a == b
  | .array as, .array bs => equalItems as bs
  | .undefined, .undefined => true
  | _, _ => false

def equalItems : List Value → List Value → Bool
  | [], [] => true
  | a :: as, b :: bs => equal a b && equalItems as bs
  | _, _ => false

end

/-- Whether a test holds for all pairs, up to the first pair for which it does not. -/
def allPairs (test : Value → Value → Option Bool) : List Value → List Value → Option Bool
  | a :: as, b :: bs =>
    match test a b with
    | some true => allPairs test as bs
    | verdict => verdict
  | _, _ => some true

/-- Equality that gives up where it would have to look deeper than the depth. -/
def equalWithin : (depth : Nat) → Value → Value → Option Bool
  | 0, _, _ => none
  | d + 1, .array as, .array bs =>
    if as.length = bs.length then allPairs (equalWithin d) as bs else some false
  | _ + 1, a, b => some (equal a b)

/-- The text that printing shows, for values nested no deeper than the depth. -/
def displayWithin (depth : Nat) (v : Value) : Option String :=
  if v.height < depth then some v.display else none

def toInt? : Value → Option Int
  | .number x => Number.toInt? x
  | _ => none

/-- A Number as data: whole below `10 ^ 16`, words for what has no digits. -/
def numberData (x : Float) : Json :=
  match Number.displayedInt? x with
  | some n => .int n
  | none => if x.isFinite then .float x else .str (Number.display x)

mutual

/-- A value as data, with what to do about functions. -/
def toData (function : Value → Except Fault Json) : Value → Except Fault Json
  | .number x => .ok (numberData x)
  | .text s => .ok (.str s)
  | .array items => (dataOfItems function items).map .arr
  | .undefined => .ok .null
  | v => function v

def dataOfItems (function : Value → Except Fault Json) : List Value → Except Fault (List Json)
  | [] => .ok []
  | item :: rest => do
    let first ← toData function item
    return first :: (← dataOfItems function rest)

end

end Value

end Orus
