import Orus.Json.Basic

/-! # Reading JSON

A number with a point or an exponent is a fraction, any other a whole number. The
words `NaN`, `Infinity` and `-Infinity` are read too. Of two fields with one name
the later value counts, in the earlier place. Values nested deeper than a given
depth are not read, nor are whole numbers of too many digits.
-/

namespace Orus.Json

inductive ReadError where
  | malformed
  | tooDeep
  | tooManyDigits (count : Nat)
  deriving DecidableEq, Repr

abbrev Reading := Except ReadError

def isSpace (c : Char) : Bool :=
  c == ' ' || c == '\t' || c == '\n' || c == '\r'

def skipSpace (cs : List Char) : List Char :=
  cs.dropWhile isSpace

def hexValue? (c : Char) : Option Nat :=
  if '0' ≤ c ∧ c ≤ '9' then some (c.toNat - '0'.toNat)
  else if 'a' ≤ c ∧ c ≤ 'f' then some (c.toNat - 'a'.toNat + 10)
  else if 'A' ≤ c ∧ c ≤ 'F' then some (c.toNat - 'A'.toNat + 10)
  else none

def readUnit : List Char → Option (Nat × List Char)
  | a :: b :: c :: d :: rest => do
    let a ← hexValue? a
    let b ← hexValue? b
    let c ← hexValue? c
    let d ← hexValue? d
    some (((a * 16 + b) * 16 + c) * 16 + d, rest)
  | _ => none

def shortEscape? : Char → Option Char
  | '"' => some '"'
  | '\\' => some '\\'
  | '/' => some '/'
  | 'b' => some (Char.ofNat 0x8)
  | 'f' => some (Char.ofNat 0xC)
  | 'n' => some '\n'
  | 'r' => some '\r'
  | 't' => some '\t'
  | _ => none

/-- A character written by its code unit, or by two units when it lies beyond the
first plane. A unit without its partner is no character, and texts hold only characters,
so it is not read. -/
def readCodePoint (cs : List Char) : Option (Char × List Char) := do
  let (high, rest) ← readUnit cs
  if 0xD800 ≤ high ∧ high < 0xDC00 then
    match rest with
    | '\\' :: 'u' :: more =>
      let (low, after) ← readUnit more
      if 0xDC00 ≤ low ∧ low < 0xE000 then
        some (Char.ofNat (0x10000 + (high - 0xD800) * 0x400 + (low - 0xDC00)), after)
      else none
    | _ => none
  else if 0xDC00 ≤ high ∧ high < 0xE000 then none
  else some (Char.ofNat high, rest)

/-- The rest of a string after its opening quote. The fuel is the length of the text. -/
def readString : (fuel : Nat) → (done : List Char) → List Char → Reading (String × List Char)
  | 0, _, _ => .error .malformed
  | _ + 1, _, [] => .error .malformed
  | n + 1, done, c :: rest =>
    if c == '"' then .ok (String.ofList done.reverse, rest)
    else if c == '\\' then
      match rest with
      | 'u' :: more => match readCodePoint more with
        | some (c, after) => readString n (c :: done) after
        | none => .error .malformed
      | e :: more => match shortEscape? e with
        | some c => readString n (c :: done) more
        | none => .error .malformed
      | [] => .error .malformed
    else if c.toNat < 0x20 then .error .malformed
    else readString n (c :: done) rest

def spanDigits (cs : List Char) : List Char × List Char :=
  (cs.takeWhile Text.isAsciiDigit, cs.dropWhile Text.isAsciiDigit)

def spanExponent (cs : List Char) : List Char × List Char :=
  match cs with
  | c :: rest =>
    if c == 'e' || c == 'E' then
      let (sign, after) := match rest with
        | '+' :: more => (['+'], more)
        | '-' :: more => (['-'], more)
        | _ => ([], rest)
      let (digits, after) := spanDigits after
      if digits.isEmpty then ([], cs) else (c :: (sign ++ digits), after)
    else ([], cs)
  | [] => ([], cs)

def readNumber (negative : Bool) (cs : List Char) : Reading (Json × List Char) :=
  let (whole, rest) := match cs with
    | '0' :: rest => (['0'], rest)
    | _ => spanDigits cs
  if whole.isEmpty then .error .malformed
  else
    let (fraction, rest) := match rest with
      | '.' :: more =>
        let (digits, after) := spanDigits more
        if digits.isEmpty then ([], rest) else ('.' :: digits, after)
      | _ => ([], rest)
    let (exponent, rest) := spanExponent rest
    if fraction.isEmpty && exponent.isEmpty then
      if Number.maxIntDigits < whole.length then .error (.tooManyDigits whole.length)
      else
        let n : Int := Number.digitsValue whole
        .ok (.int (if negative then -n else n), rest)
    else
      match Number.readDecimal (whole ++ fraction ++ exponent) with
      | some d => .ok (.float (d.toFloat negative), rest)
      | none => .error .malformed

def words : List (String × Json) := [
  ("null", .null), ("true", .bool true), ("false", .bool false), ("NaN", .float Number.notANumber),
  ("Infinity", .float Number.infinity), ("-Infinity", .float (-Number.infinity))]

def readWord? (cs : List Char) : Option (Json × List Char) :=
  words.findSome? fun (word, value) =>
    let letters := word.toList
    if letters.isPrefixOf cs then some (value, cs.drop letters.length) else none

/-- The items of a list after its bracket, with a reader for one item. -/
def readItems (item : List Char → Reading (Json × List Char)) :
    (fuel : Nat) → (done : List Json) → List Char → Reading (Json × List Char)
  | 0, _, _ => .error .malformed
  | n + 1, done, cs => do
    let (value, rest) ← item (skipSpace cs)
    match skipSpace rest with
    | ',' :: more => readItems item n (value :: done) more
    | ']' :: more => .ok (.arr (value :: done).reverse, more)
    | _ => .error .malformed

def readFields (item : List Char → Reading (Json × List Char)) :
    (fuel : Nat) → (done : List (String × Json)) → List Char → Reading (Json × List Char)
  | 0, _, _ => .error .malformed
  | n + 1, done, cs => do
    match skipSpace cs with
    | '"' :: more =>
      let (key, rest) ← readString (more.length + 1) [] more
      match skipSpace rest with
      | ':' :: after =>
        let (value, rest) ← item (skipSpace after)
        let done := putField key value done
        match skipSpace rest with
        | ',' :: more => readFields item n done more
        | '}' :: more => .ok (.obj done, more)
        | _ => .error .malformed
      | _ => .error .malformed
    | _ => .error .malformed

/-- A value nested no deeper than the depth, with no blanks before it. -/
def readValue : (depth : Nat) → List Char → Reading (Json × List Char)
  | 0, _ => .error .tooDeep
  | d + 1, cs =>
    match cs with
    | '"' :: rest => do
      let (s, rest) ← readString (rest.length + 1) [] rest
      .ok (.str s, rest)
    | '[' :: rest =>
      match skipSpace rest with
      | ']' :: after => .ok (.arr [], after)
      | inside => readItems (readValue d) (inside.length + 1) [] inside
    | '{' :: rest =>
      match skipSpace rest with
      | '}' :: after => .ok (.obj [], after)
      | inside => readFields (readValue d) (inside.length + 1) [] inside
    | _ =>
      match readWord? cs with
      | some found => .ok found
      | none =>
        match cs with
        | '-' :: rest => readNumber true rest
        | _ => readNumber false cs

def read (depth : Nat) (text : String) : Reading Json := do
  let (value, rest) ← readValue depth (skipSpace text.toList)
  if (skipSpace rest).isEmpty then .ok value else .error .malformed

end Orus.Json
