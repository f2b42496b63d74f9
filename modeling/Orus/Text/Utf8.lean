import Orus.Text.Quoted

/-! # UTF-8

Bytes are natural numbers below 256. Decoding either reports the first run of bytes
that is no character, with the reason, or puts a replacement character in the place
of each such run.
-/

namespace Orus.Text

def utf8Char (c : Char) : List Nat :=
  let n := c.toNat
  if n < 0x80 then [n]
  else if n < 0x800 then [0xC0 + n / 0x40, 0x80 + n % 0x40]
  else if n < 0x10000 then [0xE0 + n / 0x1000, 0x80 + n / 0x40 % 0x40, 0x80 + n % 0x40]
  else
    [0xF0 + n / 0x40000, 0x80 + n / 0x1000 % 0x40, 0x80 + n / 0x40 % 0x40, 0x80 + n % 0x40]

def utf8 (cs : List Char) : List Nat :=
  cs.flatMap utf8Char

inductive Utf8Reason where
  | invalidStart
  | invalidContinuation
  | unexpectedEnd
  deriving DecidableEq, Repr

def Utf8Reason.message : Utf8Reason → String
  | .invalidStart => "invalid start byte"
  | .invalidContinuation => "invalid continuation byte"
  | .unexpectedEnd => "unexpected end of data"

def isContinuation (b : Nat) : Bool :=
  0x80 ≤ b && b < 0xC0

/-- The number of bytes after a first byte and the bounds of the second one; nothing
for a byte that starts no character. -/
def utf8Shape? (b : Nat) : Option (Nat × Nat × Nat) :=
  if b < 0x80 then some (0, 0, 0)
  else if b < 0xC2 then none
  else if b < 0xE0 then some (1, 0x80, 0xBF)
  else if b < 0xF0 then
    some (2, if b = 0xE0 then 0xA0 else 0x80, if b = 0xED then 0x9F else 0xBF)
  else if b < 0xF5 then
    some (3, if b = 0xF0 then 0x90 else 0x80, if b = 0xF4 then 0x8F else 0xBF)
  else none

/-- The part of a first byte that belongs to the code point. -/
def utf8Lead (count b : Nat) : Nat :=
  if count = 0 then b else if count = 1 then b % 0x20 else if count = 2 then b % 0x10 else b % 0x8

/-- Takes continuation bytes: how many there are of those needed, and the code point so
far. -/
def takeContinuation : (needed : Nat) → (code taken : Nat) → List Nat → Nat × Nat × Bool
  | 0, code, taken, _ => (code, taken, true)
  | _ + 1, code, taken, [] => (code, taken, true)
  | n + 1, code, taken, b :: rest =>
    if isContinuation b then takeContinuation n (code * 0x40 + b % 0x40) (taken + 1) rest
    else (code, taken, false)

/-- The first character of some bytes and how many bytes it takes after the first, or
why there is none and how many bytes are at fault after the first. -/
def utf8Step (b : Nat) (rest : List Nat) : Except (Utf8Reason × Nat) (Char × Nat) :=
  match utf8Shape? b with
  | none => .error (.invalidStart, 0)
  | some (count, low, high) =>
    match count, rest with
    | 0, _ => .ok (Char.ofNat b, 0)
    | _ + 1, [] => .error (.unexpectedEnd, 0)
    | _ + 1, second :: _ =>
      if second < low || high < second then .error (.invalidContinuation, 0)
      else
        let (code, taken, fine) := takeContinuation count (utf8Lead count b) 0 rest
        if !fine then .error (.invalidContinuation, taken)
        else if taken < count then .error (.unexpectedEnd, taken)
        else .ok (Char.ofNat code, taken)

structure Utf8Error where
  reason : Utf8Reason
  /-- The first byte at fault. -/
  byte : Nat
  first : Nat
  last : Nat
  deriving DecidableEq, Repr

def Utf8Error.message (e : Utf8Error) : String :=
  let place :=
    if e.first = e.last then
      s!"byte 0x{String.ofList (hexadecimal 2 e.byte)} in position {e.first}"
    else s!"bytes in position {e.first}-{e.last}"
  s!"'utf-8' codec can't decode {place}: {e.reason.message}"

/-- The text of some bytes, after the characters read so far, in reverse. -/
def decodeFrom (position : Nat) (done : List Char) : List Nat → Except Utf8Error (List Char)
  | [] => .ok done.reverse
  | b :: rest =>
    match utf8Step b rest with
    | .ok (c, extra) => decodeFrom (position + 1 + extra) (c :: done) (rest.drop extra)
    | .error (reason, extra) => .error ⟨reason, b, position, position + extra⟩
termination_by bytes => bytes.length
decreasing_by simp only [List.length_drop, List.length_cons]; omega

def decodeUtf8 (bytes : List Nat) : Except Utf8Error (List Char) :=
  decodeFrom 0 [] bytes

def replacement : Char := Char.ofNat 0xFFFD

/-- The text of some bytes, with replacements, after the characters read so far, in
reverse. -/
def decodeReplacing (done : List Char) : List Nat → List Char
  | [] => done.reverse
  | b :: rest =>
    match utf8Step b rest with
    | .ok (c, extra) => decodeReplacing (c :: done) (rest.drop extra)
    | .error (_, extra) => decodeReplacing (replacement :: done) (rest.drop extra)
termination_by bytes => bytes.length
decreasing_by all_goals simp only [List.length_drop, List.length_cons]; omega

end Orus.Text
