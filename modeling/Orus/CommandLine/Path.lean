import Orus.Text.Lines

/-! # File names

A file name as it is shown and opened: without empty steps, steps that stay where
they are, and a slash at its end. Two slashes at the start are kept, more count as
one.
-/

namespace Orus.CommandLine

/-- The slashes a file name starts with. -/
def rootOf (cs : List Char) : String :=
  match (cs.takeWhile (· == '/')).length with
  | 0 => ""
  | 2 => "//"
  | _ => "/"

def stepsOf (cs : List Char) : List String :=
  ((Text.splitAt '/' cs).filter fun step => !step.isEmpty && step != ['.']).map String.ofList

def plainPath (name : String) : String :=
  let path := rootOf name.toList ++ "/".intercalate (stepsOf name.toList)
  if path.isEmpty then "." else path

end Orus.CommandLine
