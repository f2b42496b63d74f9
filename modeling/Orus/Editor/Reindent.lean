import Orus.Text.Blank
import Orus.Text.Lines

/-! # Reindenting

Lines are trimmed and indented by the number of braces open before them. A line that
ends in a closing brace moves out by itself, one that ends in an opening brace moves
the following lines in. Comment lines change nothing and blank lines become empty.
-/

namespace Orus.Editor

def indentation (depth : Nat) : List Char :=
  List.replicate (4 * depth) ' '

def isCommentLine (line : List Char) : Bool :=
  line.take 2 == ['/', '/']

/-- Whether a trimmed line ends in a character and is no comment. -/
def endsIn (c : Char) (line : List Char) : Bool :=
  line.getLast? == some c && !isCommentLine line

/-- The depth of a trimmed line, given the depth after the lines before it. -/
def depthOf (depth : Nat) (line : List Char) : Nat :=
  if endsIn '}' line then depth - 1 else depth

/-- The depth after a trimmed line, given its own depth. -/
def depthAfter (depth : Nat) (line : List Char) : Nat :=
  if endsIn '{' line then depth + 1 else depth

def reindentLines : (depth : Nat) → List (List Char) → List (List Char)
  | _, [] => []
  | depth, raw :: rest =>
    let line := Text.trim raw
    let own := depthOf depth line
    (if line.isEmpty then [] else indentation own ++ line) ::
      reindentLines (depthAfter own line) rest

def reindent (source : String) : String :=
  String.ofList (['\n'].intercalate (reindentLines 0 (Text.splitAt '\n' source.toList)))

end Orus.Editor
