import Orus.Text.Blank
import Orus.Token.Scan

/-! # Highlighting

Half-typed code has to be coloured too, so highlighting is a scan of its own that
never fails: at each place the first class that fits takes what it can, and any
character fits the last class. The pieces put together are the source.
-/

namespace Orus.Editor

open Text

inductive PieceClass where
  | comment
  | string
  | number
  | builtin
  | keyword
  | type
  | identifier
  | whitespace
  | operator
  | punctuation
  | error
  deriving DecidableEq, Repr

def PieceClass.name : PieceClass → String
  | .comment => "comment"
  | .string => "string"
  | .number => "number"
  | .builtin => "builtin"
  | .keyword => "keyword"
  | .type => "type"
  | .identifier => "variable"
  | .whitespace => "whitespace"
  | .operator => "operator"
  | .punctuation => "punctuation"
  | .error => "error"

structure Piece where
  kind : PieceClass
  text : String
  deriving DecidableEq, Repr

def typeWords : List String := [
  "i32", "i64", "f32", "f64", "bool", "char", "string", "u32", "u64"]

def builtinWords : List String := [
  "print", "len", "range", "timestamp", "push", "pop", "sum", "min", "max", "sort", "input", "int",
  "float", "str", "type_of", "is_type", "Ok", "Err"]

/-- The number of characters of a string after its opening quote: up to a closing
quote, or as far as escapes are whole. -/
def stringExtra (count : Nat) : List Char → Nat
  | [] => count
  | '"' :: _ => count + 1
  | '\\' :: c :: rest => if c = '\n' then count else stringExtra (count + 2) rest
  | ['\\'] => count
  | _ :: rest => stringExtra (count + 1) rest

/-- The number of digits of any script at the start of a text. -/
def digitRun (cs : List Char) : Nat :=
  (cs.takeWhile isDigit).length

def fractionRun : List Char → Nat
  | '.' :: rest => if digitRun rest = 0 then 0 else 1 + digitRun rest
  | _ => 0

def exponentRun : List Char → Nat
  | [] => 0
  | e :: rest =>
    if e == 'e' || e == 'E' then
      let sign := if rest.head? == some '+' || rest.head? == some '-' then 1 else 0
      let digits := digitRun (rest.drop sign)
      if digits = 0 then 0 else 1 + sign + digits
    else 0

def numberRun (rest : List Char) : Nat :=
  let whole := digitRun rest
  let fraction := fractionRun (rest.drop whole)
  whole + fraction + exponentRun (rest.drop (whole + fraction))

/-- The class of a whole word, if it is one of the listed ones. -/
def wordClass? (word : String) : Option PieceClass :=
  if builtinWords.contains word then some .builtin
  else if Token.keywords.contains word then some .keyword
  else if typeWords.contains word then some .type
  else none

/-- The number of characters of an operator after its first, if one starts here. -/
def operatorExtra? (c : Char) (rest : List Char) : Option Nat :=
  let next := rest.head?
  if (c == '&' && next == some '&') || (c == '|' && next == some '|') ||
      (c == '-' && next == some '>') then some 1
  else if ['=', '!', '<', '>'].contains c then some (if next == some '=' then 1 else 0)
  else if ['+', '-', '*', '/', '%'].contains c then some 0
  else none

/-- The class of the next piece and how many characters it takes after its first. -/
def pieceAt (c : Char) (rest : List Char) : PieceClass × Nat :=
  if c == '/' && rest.head? == some '/' then
    (.comment, (rest.takeWhile (· != '\n')).length)
  else if c == '/' && rest.head? == some '*' then
    (.comment, (Token.closeComment 1 (rest.drop 1)).getD rest.length)
  else if c == '"' then (.string, stringExtra 0 rest)
  else if isDigit c then (.number, numberRun rest)
  else
    let wordExtra := if isWordChar c then (rest.takeWhile isWordChar).length else 0
    match wordClass? (String.ofList (c :: rest.take wordExtra)) with
    | some kind => (kind, wordExtra)
    | none =>
      if isAsciiLetter c || c == '_' then (.identifier, wordExtra)
      else if isBlank c then (.whitespace, (rest.takeWhile isBlank).length)
      else match operatorExtra? c rest with
        | some extra => (.operator, extra)
        | none => if Token.punctuation.contains c then (.punctuation, 0) else (.error, 0)

def piecesFrom (done : Array Piece) : List Char → Array Piece
  | [] => done
  | c :: rest =>
    let (kind, extra) := pieceAt c rest
    piecesFrom (done.push ⟨kind, String.ofList (c :: rest.take extra)⟩) (rest.drop extra)
termination_by cs => cs.length
decreasing_by simp only [List.length_drop, List.length_cons]; omega

def highlight (source : String) : List Piece :=
  (piecesFrom #[] source.toList).toList

def escapeHtml (c : Char) : List Char :=
  if c = '&' then "&amp;".toList
  else if c = '<' then "&lt;".toList
  else if c = '>' then "&gt;".toList
  else [c]

/-- A piece in a web page; blanks need no tags. -/
def Piece.html (p : Piece) : String :=
  let inside := String.ofList (p.text.toList.flatMap escapeHtml)
  if p.kind = .whitespace then inside
  else s!"<span class=\"orus-{p.kind.name}\">{inside}</span>"

def highlightHtml (source : String) : String :=
  String.join ((highlight source).map Piece.html)

end Orus.Editor
