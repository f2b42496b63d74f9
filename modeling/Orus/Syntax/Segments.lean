import Orus.Syntax.Node

/-! # The inside of string literals

The raw body of a string token is split into plain text, with its escapes
decoded, and markers such as `{name.field}`, which stand for a value. A brace that
starts no marker is plain text, and so is an escaped one.
-/

namespace Orus.Syntax

open Text

/-- The characters of an escape, given the character after the backslash. An unknown
escape keeps its backslash. -/
def unescape : Char → List Char
  | 'n' => ['\n']
  | 't' => ['\t']
  | 'r' => ['\r']
  | '0' => [Char.ofNat 0]
  | '\\' => ['\\']
  | '"' => ['"']
  | '\'' => ['\'']
  | '{' => ['{']
  | '}' => ['}']
  | c => ['\\', c]

/-- A character that can start a name inside a marker. -/
def isMarkerStart (c : Char) : Bool :=
  isAsciiLetter c || c == '_'

/-- Names with points between them, and what follows. The fuel bounds their number. -/
def markerNames : (fuel : Nat) → List Char → Option (List (List Char) × List Char)
  | 0, _ => none
  | _ + 1, [] => none
  | n + 1, c :: rest =>
    if isMarkerStart c then
      let name := c :: rest.takeWhile isWordChar
      match rest.dropWhile isWordChar with
      | '.' :: more => (markerNames n more).map fun (names, after) => (name :: names, after)
      | after => some ([name], after)
    else none

/-- The names of a marker whose opening brace has been read, and the number of
characters up to and including its closing brace. -/
def marker? (rest : List Char) : Option (List (List Char) × Nat) := do
  let (names, after) ← markerNames (rest.length + 1) (rest.dropWhile isBlank)
  match after.dropWhile isBlank with
  | '}' :: tail => some (names, rest.length - tail.length)
  | _ => none

def markerNode (mark : Option Mark) (names : List (List Char)) : Node :=
  match names.map fun name => Json.str (String.ofList name) with
  | [] => .absent
  | first :: fields =>
    fields.foldl (fun target name => .field target name mark) (.identifier first mark)

/-- Adds the plain text read so far, in reverse, to the segments in reverse. -/
def flush (text : List Char) (done : List Node) : List Node :=
  if text.isEmpty then done else .raw (.str (String.ofList text.reverse)) :: done

/-- The segments of a raw body after the plain text and the segments read so far, both
in reverse. -/
def segmentsFrom (mark : Option Mark) (text : List Char) (done : List Node) :
    List Char → List Node
  | [] => if done.isEmpty then [.raw (.str (String.ofList text.reverse))]
    else (flush text done).reverse
  | '\\' :: c :: rest => segmentsFrom mark ((unescape c).reverse ++ text) done rest
  | c :: rest =>
    match if c == '{' then marker? rest else none with
    | some (names, count) =>
      segmentsFrom mark [] (markerNode mark names :: flush text done) (rest.drop count)
    | none => segmentsFrom mark (c :: text) done rest
termination_by cs => cs.length
decreasing_by all_goals simp only [List.length_drop, List.length_cons]; omega

def stringLiteral (body : String) (mark : Option Mark) : Node :=
  .string (segmentsFrom mark [] [] body.toList) mark

end Orus.Syntax
