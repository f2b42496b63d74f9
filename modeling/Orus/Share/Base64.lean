import Orus.Text.Numeral

/-! # Base64

Three bytes make four letters. Letters are written with `-` and `_` and without
padding; both spellings of these two letters are read. Padding is checked strictly,
but unused bits of the last letter are ignored.
-/

namespace Orus.Share

def letter (n : Nat) : Char :=
  if n < 26 then Char.ofNat ('A'.toNat + n)
  else if n < 52 then Char.ofNat ('a'.toNat + (n - 26))
  else if n < 62 then Char.ofNat ('0'.toNat + (n - 52))
  else if n = 62 then '-'
  else '_'

def sextet? (c : Char) : Option Nat :=
  if 'A' ≤ c ∧ c ≤ 'Z' then some (c.toNat - 'A'.toNat)
  else if 'a' ≤ c ∧ c ≤ 'z' then some (c.toNat - 'a'.toNat + 26)
  else if '0' ≤ c ∧ c ≤ '9' then some (c.toNat - '0'.toNat + 52)
  else if c = '-' ∨ c = '+' then some 62
  else if c = '_' ∨ c = '/' then some 63
  else none

/-- The letters of some bytes, without padding. -/
def encodeBytes : List Nat → List Char
  | [] => []
  | [a] => [letter (a / 4), letter (a % 4 * 16)]
  | [a, b] => [letter (a / 4), letter (a % 4 * 16 + b / 16), letter (b % 16 * 4)]
  | a :: b :: c :: rest =>
    letter (a / 4) :: letter (a % 4 * 16 + b / 16) :: letter (b % 16 * 4 + c / 64) ::
      letter (c % 64) :: encodeBytes rest

inductive Base64Error where
  | notAscii
  | notBase64
  | leadingPadding
  | discontinuousPadding
  | excessData
  | incorrectPadding
  | loneLetter (count : Nat)
  deriving DecidableEq, Repr

def Base64Error.message : Base64Error → String
  | .notAscii => "string argument should contain only ASCII characters"
  | .notBase64 => "Only base64 data is allowed"
  | .leadingPadding => "Leading padding not allowed"
  | .discontinuousPadding => "Discontinuous padding not allowed"
  | .excessData => "Excess data after padding"
  | .incorrectPadding => "Incorrect padding"
  | .loneLetter count =>
    s!"Invalid base64-encoded string: number of data characters ({count}) cannot be 1 more " ++
      "than a multiple of 4"

structure Base64State where
  /-- The letters read, in reverse. -/
  sextets : List Nat := []
  count : Nat := 0
  /-- Padding marks since the last letter. -/
  pads : Nat := 0
  padding : Bool := false

/-- Reads letters and padding to the end. Padding that completes a group of four ends
the text. -/
def readLetters (s : Base64State) : List Char → Except Base64Error Base64State
  | [] =>
    if s.count % 4 = 0 then .ok s
    else if s.count % 4 = 1 then .error (.loneLetter s.count)
    else .error .incorrectPadding
  | c :: rest =>
    if c = '=' then
      if 2 ≤ s.count % 4 then
        if 4 ≤ s.count % 4 + (s.pads + 1) then
          if rest.isEmpty then .ok s else .error .excessData
        else readLetters { s with pads := s.pads + 1, padding := true } rest
      else readLetters { s with padding := true } rest
    else match sextet? c with
      | none => .error .notBase64
      | some n =>
        if s.padding then .error .discontinuousPadding
        else readLetters { s with sextets := n :: s.sextets, count := s.count + 1, pads := 0 } rest

/-- The bytes of six-bit numbers; what makes no whole byte is dropped. -/
def joinSextets : List Nat → List Nat
  | a :: b :: c :: d :: rest =>
    (a * 4 + b / 16) :: (b % 16 * 16 + c / 4) :: (c % 4 * 64 + d) :: joinSextets rest
  | [a, b, c] => [a * 4 + b / 16, b % 16 * 16 + c / 4]
  | [a, b] => [a * 4 + b / 16]
  | _ => []

def decodeLetters (cs : List Char) : Except Base64Error (List Nat) := do
  if cs.any fun c => 0x80 ≤ c.toNat then .error .notAscii
  else if cs.head? = some '=' then .error .leadingPadding
  else return joinSextets (← readLetters {} cs).sextets.reverse

end Orus.Share
