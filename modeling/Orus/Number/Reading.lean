import Orus.Number.Notation
import Orus.Text.Blank
import Orus.Text.Numeral

/-! # Numbers and whole numbers read from text

Surrounding blanks, a sign, and single underscores between digits are allowed.
Outside seven-bit text, digits of every script stand for the plain ones and
blanks of every script for a space; within it only the plain blanks are trimmed.
-/

namespace Orus.Number

open Text

/-- A digit or a blank beyond seven-bit text, replaced by a plain one; a question mark
for any other character there, which is part of no number. -/
def toPlain (c : Char) : Char :=
  if c.toNat < 127 then c
  else if isBlank c then ' '
  else match digitValue? c with
    | some d => Char.ofNat ('0'.toNat + d)
    | none => '?'

/-- Removes underscores, each of which must stand between two digits. -/
def joinGroups (afterDigit : Bool) : List Char → Option (List Char)
  | [] => some []
  | '_' :: rest =>
    if afterDigit && rest.head?.any isAsciiDigit then joinGroups false rest else none
  | c :: rest => (joinGroups (isAsciiDigit c) rest).map (c :: ·)

def digitsValue (cs : List Char) : Nat :=
  cs.foldl (fun n c => 10 * n + (c.toNat - '0'.toNat)) 0

/-- Splits off a sign; `true` for a minus. -/
def splitSign : List Char → Bool × List Char
  | '-' :: rest => (true, rest)
  | '+' :: rest => (false, rest)
  | cs => (false, cs)

def readExponent : List Char → Option Int
  | [] => some 0
  | c :: rest =>
    if c == 'e' || c == 'E' then
      let (negative, digits) := splitSign rest
      if digits.isEmpty || !digits.all isAsciiDigit then none
      else some (if negative then -(digitsValue digits : Int) else digitsValue digits)
    else none

/-- An unsigned decimal: digits with or without a point, then an exponent. -/
def readDecimal (cs : List Char) : Option Decimal :=
  let whole := cs.takeWhile isAsciiDigit
  let rest := cs.dropWhile isAsciiDigit
  let (fraction, rest) := match rest with
    | '.' :: after => (after.takeWhile isAsciiDigit, after.dropWhile isAsciiDigit)
    | _ => ([], rest)
  if whole.isEmpty && fraction.isEmpty then none
  else (readExponent rest).map fun e =>
    ⟨digitsValue (whole ++ fraction), e - fraction.length⟩

def readWord (negative : Bool) (cs : List Char) : Option Float :=
  let word := cs.map Char.toLower
  if word = ['i', 'n', 'f'] ∨ word = ['i', 'n', 'f', 'i', 'n', 'i', 't', 'y'] then
    some (assemble negative infinityBits)
  else if word = ['n', 'a', 'n'] then some notANumber
  else none

def readNumber? (text : String) : Option Float := do
  let joined ← joinGroups false (trimWith isPlainBlank (text.toList.map toPlain))
  let (negative, body) := splitSign joined
  match readDecimal body with
  | some d => some (d.toFloat negative)
  | none => readWord negative body

def maxIntDigits : Nat := 4300

inductive IntError where
  | malformed
  | tooManyDigits (count : Nat)
  deriving DecidableEq, Repr

def isIntChar (c : Char) : Bool :=
  isAsciiDigit c || c == '_'

/-- The whole number a text stands for. Its digits are counted before what follows them
is looked at. -/
def readInt (text : String) : Except IntError Int :=
  let (negative, body) := splitSign ((text.toList.map toPlain).dropWhile isPlainBlank)
  match joinGroups false (body.takeWhile isIntChar) with
  | none => .error .malformed
  | some digits =>
    if maxIntDigits < digits.length then .error (.tooManyDigits digits.length)
    else if digits.isEmpty || !(body.dropWhile isIntChar).all isPlainBlank then .error .malformed
    else .ok (if negative then -(digitsValue digits : Int) else digitsValue digits)

def skipDigits (cs : List Char) : Option (List Char) :=
  match cs with
  | c :: rest => if isDigit c then some (rest.dropWhile isDigit) else none
  | [] => none

/-- Whether a text has the shape of a Number: blanks, a sign, digits, a fraction, an
exponent, blanks. -/
def isNumberText (text : String) : Bool :=
  match skipDigits (splitSign (text.toList.dropWhile isBlank)).2 with
  | none => false
  | some rest =>
    let rest := match rest with
      | '.' :: after => (skipDigits after).getD rest
      | _ => rest
    let rest := match rest with
      | c :: after =>
        if c == 'e' || c == 'E' then (skipDigits (splitSign after).2).getD rest else rest
      | [] => rest
    rest.all isBlank

end Orus.Number
