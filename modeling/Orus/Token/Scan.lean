import Orus.Text.Blank
import Orus.Text.Numeral
import Orus.Text.Quoted
import Orus.Token.Basic

/-! # From source text to tokens

A text is cut into lexemes from left to right. Each lexeme is a token or a gap
(a blank or a comment) and takes at least one character, so every text is cut up
completely. What fits no token becomes an error token, never a failure.
-/

namespace Orus.Token

open Text

def keywords : List String := [
  "fn", "let", "mut", "if", "else", "elif", "for", "in", "while", "return", "struct", "pub", "use",
  "match", "try", "catch", "throw", "const", "as", "nil", "impl", "true", "false", "continue",
  "break", "enum"]

def pairOperators : List (List Char) := [
  ['=', '='], ['!', '='], ['<', '='], ['>', '='], ['&', '&'], ['|', '|'], ['-', '>']]

def singleOperators : List Char := ['+', '-', '*', '/', '%', '=', '<', '>', '!']

def punctuation : List Char := ['{', '}', '[', ']', '(', ')', '.', ',', ':', ';']

/-- The next piece of a text: what it is, and how many characters it takes after its
first one. -/
structure Lexeme where
  /-- The kind of token, or nothing for a gap. -/
  kind : Option Kind
  extra : Nat
  value : Option String := none

/-- A piece that yields no token. -/
def Lexeme.gap (extra : Nat) : Lexeme := ⟨none, extra, none⟩

def Lexeme.bad (extra : Nat) (problem : String) : Lexeme := ⟨some .error, extra, some problem⟩

/-- The number of characters up to the end of a block comment, its closing mark
included, added to a count. -/
def closeComment (count : Nat) : List Char → Option Nat
  | [] => none
  | '*' :: '/' :: _ => some (count + 2)
  | _ :: rest => closeComment (count + 1) rest

/-- The number of characters up to the closing quote, which is included, added to a
count. A backslash hides the character after it. -/
def closeString (count : Nat) : List Char → Option Nat
  | [] => none
  | '"' :: _ => some (count + 1)
  | '\\' :: _ :: rest => closeString (count + 2) rest
  | _ :: rest => closeString (count + 1) rest

def digitCount (cs : List Char) : Nat :=
  (cs.takeWhile isAsciiDigit).length

def fractionLength : List Char → Nat
  | '.' :: rest => if digitCount rest = 0 then 0 else 1 + digitCount rest
  | _ => 0

def exponentLength : List Char → Nat
  | [] => 0
  | e :: rest =>
    if e == 'e' || e == 'E' then
      let sign := if rest.head? == some '+' || rest.head? == some '-' then 1 else 0
      let digits := digitCount (rest.drop sign)
      if digits = 0 then 0 else 1 + sign + digits
    else 0

/-- The number of characters a number literal takes after its first digit. -/
def numberExtra (rest : List Char) : Nat :=
  let whole := digitCount rest
  let fraction := fractionLength (rest.drop whole)
  let exponent := exponentLength (rest.drop (whole + fraction))
  whole + fraction + exponent

/-- The piece that a text starting with the given character starts with. -/
def lexemeAt (c : Char) (rest : List Char) : Lexeme :=
  if isBlank c then .gap 0
  else if c == '/' && rest.head? == some '/' then
    .gap (rest.takeWhile (· != '\n')).length
  else if c == '/' && rest.head? == some '*' then
    match closeComment 1 (rest.drop 1) with
    | some extra => .gap extra
    | none => .bad rest.length "unterminated block comment"
  else if isWordStart c then
    let extra := (rest.takeWhile isWordChar).length
    let word := String.ofList (c :: rest.take extra)
    ⟨some (if keywords.contains word then .keyword else .ident), extra, none⟩
  else if isAsciiDigit c then
    ⟨some .number, numberExtra rest, none⟩
  else if c == '"' then
    match closeString 0 rest with
    | some extra => ⟨some .string, extra, some (String.ofList (rest.take (extra - 1)))⟩
    | none => .bad rest.length "unterminated string literal"
  else if pairOperators.contains (c :: rest.take 1) then ⟨some .op, 1, none⟩
  else if singleOperators.contains c then ⟨some .op, 0, none⟩
  else if punctuation.contains c then ⟨some .punct, 0, none⟩
  else .bad 0 s!"unexpected character {quoted (String.singleton c)}"

/-- The tokens of a text that starts at a place, after those found before it. -/
def scanFrom (p : Position) (done : Array Token) : List Char → Array Token
  | [] => done.push (eofAt p)
  | c :: rest =>
    let lexeme := lexemeAt c rest
    let text := c :: rest.take lexeme.extra
    let done := match lexeme.kind with
      | some kind => done.push ⟨kind, String.ofList text, p, lexeme.value⟩
      | none => done
    scanFrom (p.after text) done (rest.drop lexeme.extra)
termination_by cs => cs.length
decreasing_by simp only [List.length_drop, List.length_cons]; omega

/-- The tokens of a source text, ending with the one that marks the end. -/
def scan (source : String) : List Token :=
  (scanFrom .start #[] source.toList).toList

end Orus.Token
