/-! # Lines

A text is a list of lines with a line feed between each two; the empty text is one
empty line.
-/

namespace Orus.Text

/-- Cuts a text at every occurrence of a character. -/
def splitAt (separator : Char) (cs : List Char) : List (List Char) :=
  cs.foldr (fun c done =>
    if c = separator then [] :: done
    else match done with
      | [] => [[c]]
      | piece :: rest => (c :: piece) :: rest) [[]]

def lines (text : String) : List String :=
  (splitAt '\n' text.toList).map String.ofList

def unlines (ls : List String) : String :=
  "\n".intercalate ls

end Orus.Text
