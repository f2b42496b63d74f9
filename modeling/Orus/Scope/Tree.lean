import Orus.Scope.Frame

/-! # Trees of scopes

Scopes that share ancestors: each scope but the root has a parent, which is older.
A write changes the nearest scope on the way to the root that declares the name
and is seen from every scope below it that does not declare the name again.
-/

namespace Orus

structure TreeScope where
  parent : Option Nat
  frame : Frame
  deriving Inhabited

/-- Scopes by index; the root is the first. -/
structure ScopeTree where
  scopes : Array TreeScope

namespace ScopeTree

def root : ScopeTree := ⟨#[⟨none, {}⟩]⟩

/-- The indexes from a scope up to the root. The fuel bounds their number. -/
def pathFrom (t : ScopeTree) : (fuel : Nat) → Nat → List Nat
  | 0, _ => []
  | n + 1, s =>
    match t.scopes[s]? with
    | none => []
    | some scope =>
      match scope.parent with
      | none => [s]
      | some parent => s :: t.pathFrom n parent

def path (t : ScopeTree) (s : Nat) : List Nat :=
  t.pathFrom t.scopes.size s

def frame (t : ScopeTree) (s : Nat) : Frame :=
  match t.scopes[s]? with
  | some scope => scope.frame
  | none => {}

/-- The nearest scope on the way to the root that declares a name. -/
def owner? (t : ScopeTree) (s : Nat) (name : Name) : Option Nat :=
  (t.path s).find? fun i => (t.frame i).declares name

/-- Adds a scope below another; its index is the old number of scopes. -/
def child (t : ScopeTree) (s : Nat) : ScopeTree :=
  ⟨t.scopes.push ⟨some s, {}⟩⟩

def setFrame (t : ScopeTree) (s : Nat) (f : Frame) : ScopeTree :=
  ⟨t.scopes.modify s fun scope => { scope with frame := f }⟩

def lookup? (t : ScopeTree) (s : Nat) (name : Name) : Option Value :=
  (t.owner? s name).bind fun i => (t.frame i).find? name

/-- The value of a name seen from a scope, which must have one. -/
def get (t : ScopeTree) (s : Nat) (name : Name) : Except Error Value :=
  match t.lookup? s name with
  | some v => .ok v
  | none => .error ⟨.undefinedVariable name, none⟩

def declare (t : ScopeTree) (s : Nat) (name : Name) (value : Value) : Except Error ScopeTree :=
  match (t.frame s).declare? name value with
  | some f => .ok (t.setFrame s f)
  | none => .error ⟨.redeclared name, none⟩

/-- Gives a name another value in the nearest scope that declares it. -/
def set (t : ScopeTree) (s : Nat) (name : Name) (value : Value) : Except Error ScopeTree :=
  match t.owner? s name with
  | some i => .ok (t.setFrame i ((t.frame i).assign name value))
  | none => .error ⟨.undeclaredVariable name, none⟩

def depth (t : ScopeTree) (s : Nat) : Nat :=
  (t.path s).length - 1

end ScopeTree

end Orus
