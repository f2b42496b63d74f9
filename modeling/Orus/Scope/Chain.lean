import Orus.Scope.Frame

/-! # Scopes of a running program

Functions see only the global scope and the builtins around them, so the scopes in
reach are the frames of the blocks that are open in the current call, innermost
first, then the globals, then the builtins. Reading looks from the inside out;
writing changes the innermost frame that declares the name.
-/

namespace Orus

structure Chain where
  locals : List Frame := []
  globals : Frame := {}
  builtins : Frame := {}
  deriving Inhabited

namespace Chain

/-- The frames from the inside out. -/
def frames (c : Chain) : List Frame :=
  c.locals ++ [c.globals, c.builtins]

/-- The value of a name in the innermost frame that declares it. -/
def lookup? (c : Chain) (name : Name) : Option Value :=
  c.frames.findSome? fun f => f.find? name

def declare? (c : Chain) (name : Name) (value : Value) : Option Chain :=
  match c.locals with
  | [] => (c.globals.declare? name value).map fun f => { c with globals := f }
  | top :: rest => (top.declare? name value).map fun f => { c with locals := f :: rest }

def assignIn? (name : Name) (value : Value) : List Frame → Option (List Frame)
  | [] => none
  | f :: rest =>
    if f.declares name then some (f.assign name value :: rest)
    else (assignIn? name value rest).map (f :: ·)

/-- Gives a name another value in the innermost frame that declares it. -/
def assign? (c : Chain) (name : Name) (value : Value) : Option Chain :=
  match assignIn? name value c.locals with
  | some locals => some { c with locals }
  | none =>
    if c.globals.declares name then some { c with globals := c.globals.assign name value }
    else if c.builtins.declares name then some { c with builtins := c.builtins.assign name value }
    else none

def push (c : Chain) (f : Frame) : Chain :=
  { c with locals := f :: c.locals }

def pop (c : Chain) : Chain :=
  { c with locals := c.locals.tail }

def initial : Chain :=
  { builtins := ⟨Builtin.all.map fun b => (.str b.name, .builtin b)⟩ }

end Chain

end Orus
