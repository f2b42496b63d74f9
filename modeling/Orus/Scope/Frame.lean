import Orus.Value.Basic

/-! # Frames

A frame holds the bindings of one scope in the order of their declaration. A name
is declared at most once; giving it a value later keeps its place and the way it was
written at its declaration.
-/

namespace Orus

structure Frame where
  bindings : List (Name × Value) := []
  deriving Inhabited

namespace Frame

def empty : Frame := {}

def names (f : Frame) : List Name :=
  f.bindings.map Prod.fst

def find? (f : Frame) (name : Name) : Option Value :=
  (f.bindings.find? fun (n, _) => Name.same n name).map Prod.snd

def declares (f : Frame) (name : Name) : Bool :=
  f.bindings.any fun (n, _) => Name.same n name

/-- Adds a binding at the end, unless the name is declared already. -/
def declare? (f : Frame) (name : Name) (value : Value) : Option Frame :=
  if f.declares name then none else some ⟨f.bindings ++ [(name, value)]⟩

def assign (f : Frame) (name : Name) (value : Value) : Frame :=
  ⟨f.bindings.map fun (n, v) => if Name.same n name then (n, value) else (n, v)⟩

/-- Bindings to functions left out. -/
def data (f : Frame) : List (Name × Value) :=
  f.bindings.filter fun (_, v) => match v with
    | .builtin _ | .function _ => false
    | _ => true

end Frame

end Orus
