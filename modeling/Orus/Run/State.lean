import Orus.Limits
import Orus.Scope.Chain
import Orus.Value.Builtin

/-! # The state of a run

A run counts its steps, iterations and open calls against its limits and collects
what it prints. It can be cancelled from outside, which it notices at its next
check; there is one check before each step and one before each iteration.
-/

namespace Orus.Run

structure Config where
  limits : Limits := {}
  /-- The number of checks after which the run is cancelled, if it ever is. -/
  cancelAfter : Option Nat := none
  /-- How much is logged: nothing at zero. -/
  logLevel : Nat := 0
  /-- What the builtin `timestamp` gives. -/
  timestamp : Float := 0.0

structure Progress where
  lines : Nat
  warnings : Nat
  deriving DecidableEq, Repr

/-- The checks of a run: their number, and how much it had shown at each of them, the
last one first. -/
structure Checks where
  count : Nat := 0
  shown : List Progress := []

def Checks.add (c : Checks) (p : Progress) : Checks :=
  ⟨c.count + 1, p :: c.shown⟩

structure State where
  steps : Nat := 0
  iterations : Nat := 0
  callDepth : Nat := 0
  checks : Checks := {}
  output : Array String := #[]
  diagnostics : Array String := #[]
  log : Array String := #[]
  /-- The place of the last statement that had one. -/
  mark : Option Mark := none
  scopes : Chain := .initial
  deriving Inhabited

def State.progress (s : State) : Progress :=
  ⟨s.output.size, s.diagnostics.size⟩

inductive Stop where
  | error (error : Error)
  | fault (fault : Fault)
  | breakLoop
  | continueLoop
  | returned (value : Value)

/-- An evaluation changes the state, also when it is stopped. -/
abbrev Eval := EStateM Stop State

def fail {α : Type} (mark : Option Mark) (cause : Cause) : Eval α :=
  throw (.error ⟨cause, mark⟩)

def breakDown {α : Type} (fault : Fault) : Eval α :=
  throw (.fault fault)

def tooDeep {α : Type} : Eval α :=
  fail none .nestingTooDeep

def need {α : Type} : Option α → Eval α
  | some a => return a
  | none => breakDown .missingPart

/-- The result of a computation; an error without a place is reported at the given one,
unless it is about nesting. -/
def ofExcept {α : Type} (mark : Option Mark) : Except Failure α → Eval α
  | .ok a => return a
  | .error (.fault fault) => breakDown fault
  | .error (.error e) =>
    if e.cause = .nestingTooDeep then throw (.error e)
    else throw (.error { e with mark := e.mark <|> mark })

/-! ## Budgets -/

variable (cfg : Config)

/-- Writes a line to the log. Lines are made of whole characters, without lone halves of
surrogate pairs, so that each of them can be encoded and writing never fails. -/
def log (line : String) : Eval Unit := do
  if 0 < cfg.logLevel then modify fun s => { s with log := s.log.push line }

def logFrom (level : Nat) (line : Eval String) : Eval Unit := do
  if level ≤ cfg.logLevel then log cfg (← line)

def check : Eval Unit := do
  let made := (← get).checks.count
  modify fun s => { s with checks := s.checks.add s.progress }
  if cfg.cancelAfter.any (· ≤ made) then fail none .cancelled

/-- Counts a step, which is the statement at a place. -/
def tick (mark : Option Mark) : Eval Unit := do
  check cfg
  modify fun s => { s with steps := s.steps + 1, mark := mark <|> s.mark }
  if cfg.limits.maxSteps < (← get).steps then
    log cfg s!"step budget of {cfg.limits.maxSteps} exhausted"
    fail none .stepBudget

def loopTick : Eval Unit := do
  check cfg
  modify fun s => { s with iterations := s.iterations + 1 }
  if cfg.limits.maxIterations < (← get).iterations then
    log cfg s!"iteration budget of {cfg.limits.maxIterations} exhausted"
    fail none .iterationBudget

def checkCallDepth : Eval Unit := do
  if cfg.limits.maxCallDepth < (← get).callDepth then
    log cfg s!"call depth limit of {cfg.limits.maxCallDepth} exhausted"
    fail none .callDepth

def emit (line : String) : Eval Unit := do
  if cfg.limits.maxOutputLines ≤ (← get).output.size then fail none .outputBudget
  else modify fun s => { s with output := s.output.push line }

def warn (mark : Option Mark) (message : String) : Eval Unit :=
  let note := match mark with
    | some m => m.note
    | none => ""
  modify fun s => { s with diagnostics := s.diagnostics.push (message ++ note) }

/-! ## Scopes -/

/-- Stops unless a name can be one: lists and objects cannot. -/
def checkName (name : Name) : Eval Unit :=
  match name with
  | .arr _ | .obj _ => breakDown (.badName name.kind)
  | _ => return

def lookup (name : Name) : Eval (Option Value) := do
  checkName name
  return (← get).scopes.lookup? name

def getVariable (name : Name) (mark : Option Mark) : Eval Value := do
  match ← lookup name with
  | some v => return v
  | none => fail mark (.undefinedVariable name)

def declare (name : Name) (value : Value) (mark : Option Mark) : Eval Unit := do
  checkName name
  match (← get).scopes.declare? name value with
  | some scopes => modify fun s => { s with scopes }
  | none => fail mark (.redeclared name)

def setVariable (name : Name) (value : Value) (mark : Option Mark) : Eval Unit := do
  checkName name
  match (← get).scopes.assign? name value with
  | some scopes => modify fun s => { s with scopes }
  | none => fail mark (.undeclaredVariable name)

/-- Opens a scope and leaves it open. -/
def openScope : Eval Unit :=
  modify fun s => { s with scopes := s.scopes.push {} }

/-- Evaluates inside a new scope, which is closed again whatever happens. -/
def inScope {α : Type} (body : Eval α) : Eval α := fun s =>
  match body { s with scopes := s.scopes.push {} } with
  | .ok a t => .ok a { t with scopes := t.scopes.pop }
  | .error e t => .error e { t with scopes := t.scopes.pop }

/-- Evaluates the inside of a call. It sees no local scope of the caller, and these are
as before once the call is over, whatever happens. -/
def inCall (body : Eval Value) : Eval Value := fun s =>
  let leave (t : State) : State :=
    { t with callDepth := t.callDepth - 1, scopes := { t.scopes with locals := s.scopes.locals } }
  match body { s with callDepth := s.callDepth + 1, scopes := { s.scopes with locals := [{}] } } with
  | .ok v t => .ok v (leave t)
  | .error (.returned v) t => .ok v (leave t)
  | .error e t => .error e (leave t)

/-- Evaluates up to the first `return` that is not inside a call. -/
def catchReturn (body : Eval Unit) : Eval Unit := fun s =>
  match body s with
  | .ok _ t => .ok () t
  | .error (.returned _) t => .ok () t
  | .error e t => .error e t

/-! ## Loops -/

/-- One round of a loop body; the result tells whether the loop goes on. -/
def loopRound (body : Eval Unit) : Eval Bool := fun s =>
  match body s with
  | .ok _ t => .ok true t
  | .error .continueLoop t => .ok true t
  | .error .breakLoop t => .ok false t
  | .error e t => .error e t

/-- One round for each item, until one says stop. -/
def forItems (round : Value → Eval Bool) : List Value → Eval Unit
  | [] => return
  | item :: rest => do
    if ← round item then forItems round rest

/-- One round for each of `count` whole numbers from `first` on, until one says stop. -/
def forRange (round : Value → Eval Bool) : (count : Nat) → (first : Int) → Eval Unit
  | 0, _ => return
  | n + 1, first => do
    if ← round (.number (Number.ofInt first)) then forRange round n (first + 1)

/-- Rounds as long as a condition holds and none says stop. Each round takes an
iteration, so there are no more of them than the budget has left, plus the one that
exceeds it. -/
def whileRounds (cond : Eval Bool) (body : Eval Unit) : (rounds : Nat) → Eval Unit
  | 0 => fail none .iterationBudget
  | n + 1 => do
    if ← cond then
      loopTick cfg
      if ← loopRound body then whileRounds cond body n

/-- The number of rounds that exceeds the iteration budget. -/
def roundsLeft (s : State) : Nat :=
  (cfg.limits.maxIterations - s.iterations).toNat + 1

def whileLoop (cond : Eval Bool) (body : Eval Unit) : Eval Unit := do
  whileRounds cfg cond body (roundsLeft cfg (← get))

end Orus.Run
