import Orus.Json.Writer
import Orus.Nesting
import Orus.Run.State
import Orus.Text.Lines

/-! # The debug dump

The variables that `main` sees at its top level when a run is over: the globals and
then its own, each in the order of declaration. One that hides a global shows its
own value in the global's place. Functions are left out.
-/

namespace Orus.Run

/-- Gives a name a value: in its old place if there is one, at the end otherwise. -/
def putBinding {α : Type} (name : Name) (value : α) : List (Name × α) → List (Name × α)
  | [] => [(name, value)]
  | (n, v) :: rest =>
    if Name.same n name then (n, value) :: rest else (n, v) :: putBinding name value rest

/-- The variables of `main`, if it was begun. -/
def ownVariables (main : Option Frame) : List (Name × Value) :=
  match main with
  | some f => f.data
  | none => []

def dumpedVariables (globals : Frame) (main : Option Frame) : List (Name × Value) :=
  (ownVariables main).foldl (fun done (name, value) => putBinding name value done) globals.data

def dumpKey : Name → String
  | .str s => s
  | name => name.compact

/-- The variables as one object. Nesting is looked at first, also that of a hidden
global, and then functions inside arrays, which cannot be shown. -/
def dumpData (depth : Nat) (globals : Frame) (main : Option Frame) : Except Fault Json := do
  if (globals.data ++ ownVariables main).any fun (_, v) => depth ≤ v.height then throw .tooDeep
  else
    let fields ← (dumpedVariables globals main).mapM fun (name, v) => do
      let value ← v.toData fun f => .error (.functionAsData f.type.name)
      return (dumpKey name, value)
    return .obj fields

def dumpLines (depth : Nat) (sourceLength : Int) (scopes : Chain) : Except Fault (List String) := do
  let shown ← dumpData depth scopes.globals scopes.locals.head?
  return ["", "--- Debug Information ---"] ++ Text.lines s!"Variables: {shown.indented}" ++
    [s!"Code size: {sourceLength} characters"]

end Orus.Run
