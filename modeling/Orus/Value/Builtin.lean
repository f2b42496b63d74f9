import Orus.Value.Basic

/-! # What the builtin functions compute

Every builtin takes its arguments as a list. Calls from programs have the right
number of them; a direct call need not.
-/

namespace Orus.Builtin

structure Context where
  /-- What `timestamp` gives. -/
  timestamp : Float
  /-- How deep values may be nested to be shown. -/
  depth : Nat

/-- Fails for a cause; the caller adds the place. -/
def reject {α : Type} (cause : Cause) : Except Failure α :=
  .error (.error ⟨cause, none⟩)

/-- The text that printing shows, unless the value is nested too deeply. -/
def shown (depth : Nat) (v : Value) : Except Failure String :=
  match v.displayWithin depth with
  | some text => .ok text
  | none => reject .nestingTooDeep

def first : List Value → Except Failure Value
  | [] => .error (.fault .missingArgument)
  | v :: _ => .ok v

def allNumbers (builtin : Builtin) : List Value → Except Failure (List Float)
  | [] => .ok []
  | .number x :: rest => do return x :: (← allNumbers builtin rest)
  | v :: _ => reject (.notNumbers builtin.name v.type)

/-- The Numbers a builtin works on: the items of its only argument if that is an
array, else the arguments themselves. -/
def numbers (builtin : Builtin) : List Value → Except Failure (List Float)
  | [.array items] => allNumbers builtin items
  | args => allNumbers builtin args

/-- The sum, added up from the left. -/
def total (xs : List Float) : Float :=
  xs.foldl (· + ·) 0.0

/-- The first Number that no later one beats. -/
def best (beats : Float → Float → Bool) : List Float → Option Float
  | [] => none
  | x :: rest => some (rest.foldl (fun found y => if beats y found then y else found) x)

def toFloat (depth : Nat) (v : Value) : Except Failure Float := do
  match v with
  | .number x => return x
  | .text s =>
    if Number.isNumberText s then
      match Number.readNumber? s with
      | some x => return x
      | none => .error (.fault (.numberText s))
    else reject (.notConvertible .text s)
  | _ => reject (.notConvertible v.type (← shown depth v))

def toWhole (x : Float) : Except Failure Float :=
  if x.isFinite then .ok (Number.ofInt (Number.truncate x))
  else reject (.notInteger (Number.display x))

def apply (b : Builtin) (context : Context) (args : List Value) : Except Failure Value := do
  match b with
  | .len =>
    match ← first args with
    | .text s => return .number (Number.ofInt s.length)
    | .array items => return .number (Number.ofInt items.length)
    | v => reject (.noLength v.type)
  | .sum => return .number (total (← numbers .sum args))
  | .min =>
    match best (· < ·) (← numbers .min args) with
    | some x => return .number x
    | none => reject (.emptySequence "min")
  | .max =>
    match best (· > ·) (← numbers .max args) with
    | some x => return .number x
    | none => reject (.emptySequence "max")
  | .typeOf => return .text (← first args).type.name
  | .str => return .text (← shown context.depth (← first args))
  | .float => return .number (← toFloat context.depth (← first args))
  | .int => return .number (← toWhole (← toFloat context.depth (← first args)))
  | .push =>
    match args with
    | [.array items, item] => return .array (items ++ [item])
    | [v, _] => reject (.notPushable v.type)
    | [] | [_] => .error (.fault (.tooFewArguments 2 args.length))
    | _ => .error (.fault (.tooManyArguments 2))
  | .timestamp => return .number context.timestamp

end Orus.Builtin
