import Orus.Run.Dump
import Orus.Run.Evaluator
import Orus.Syntax.Program

/-! # Running programs

A run declares the functions, then the globals, and then executes `main`. Errors of
the program are part of the result. Lines printed before a failure are kept apart
from the output, so that a failed run is never taken for a complete one.
-/

namespace Orus.Run

inductive Mode where
  | normal
  | debug
  deriving DecidableEq, Repr

/-- The mode that is asked for, if there is such a mode. -/
def Mode.ofName? : Name → Option Mode
  | .str "normal" => some .normal
  | .str "debug" => some .debug
  | _ => none

structure Result where
  output : List String := []
  error : Option Error := none
  diagnostics : List String := []
  partialOutput : List String := []
  deriving DecidableEq, Repr

def Result.ok (r : Result) : Bool :=
  r.error.isNone

/-- A result, or the fault that left none, and the log if one was begun. -/
structure Outcome where
  result : Except Fault Result
  log : Option (List String) := none

/-- Declares the functions of a program, so that globals can call them. -/
def declareFunctions : List Node → Eval Unit
  | [] => return
  | fn :: rest => do
    let name ← need fn.name?
    declare name (.function fn) fn.mark
    declareFunctions rest

def findMain (functions : List Node) : Option Node :=
  functions.find? fun fn => fn.name? = some (.str "main")

/-- Executes the body of `main` in a scope that stays open, so that it can be shown. -/
def runMain (evaluator : Evaluator) (main : Node) : Eval Unit := do
  openScope
  let body ← need main.body?
  (← need body.statements?).forM evaluator.exec

def runProgram (evaluator : Evaluator) (program : Node) : Eval Unit := do
  match program with
  | .program functions globals _ _ =>
    declareFunctions functions
    globals.forM evaluator.exec
    match findMain functions with
    | none => fail none .missingMain
    | some main =>
      let params ← need main.params?
      if params.isEmpty then catchReturn (runMain evaluator main)
      else fail none .missingMain
  | _ => breakDown .missingPart

/-- The error of a run with the place of the last statement, unless it has a place or
needs none. -/
def placed (s : State) (e : Error) : Error :=
  match e.cause.kind with
  | .missingMain | .resourceExhausted | .cancelled => e
  | _ => { e with mark := e.mark <|> s.mark }

/-- Whether an error only cuts a run short. -/
def isGraceful (e : Error) : Bool :=
  e.cause.kind = .resourceExhausted || e.cause.kind = .cancelled

def strayFault : Stop → Option Fault
  | .error _ => none
  | .fault fault => some fault
  | .breakLoop => some .strayBreak
  | .continueLoop => some .strayContinue
  | .returned _ => some .strayReturn

def closingLines (s : State) (error : Option Error) : List String :=
  let failed := match error with
    | some e => [s!"run failed with {e.cause.kind.label}: {e.cause.message}"]
    | none => []
  failed ++
    [s!"run finished: {s.steps} steps, {s.iterations} iterations, {s.output.size} lines"]

/-- The lines a run shows: what it printed and, in debug mode, the variables at its
end, unless it ended with an error that is the program's own. -/
def shownLines (mode : Mode) (sourceLength : Int) (s : State) (error : Option Error) :
    Except Fault (List String) :=
  if mode = .debug ∧ error.all isGraceful then
    return s.output.toList ++ (← dumpLines nestingLimit sourceLength s.scopes)
  else return s.output.toList

def resultOf (mode : Mode) (sourceLength : Int) (s : State) (error : Option Error) :
    Except Fault Result := do
  let lines ← shownLines mode sourceLength s error
  let diagnostics := s.diagnostics.toList
  match error with
  | none => return { output := lines, diagnostics }
  | some e => return { error := some (placed s e), diagnostics, partialOutput := lines }

def sourceLength : Node → Int
  | .program _ _ n _ => n
  | _ => 0

def outcomeOf (cfg : Config) (mode : Mode) (length : Int) :
    EStateM.Result Stop State Unit → Outcome
  | .ok _ s => finish s none
  | .error (.error e) s => finish s (some e)
  | .error stop s =>
    ⟨.error ((strayFault stop).getD .missingPart), logOf s none⟩
where
  logOf (s : State) (error : Option Error) : Option (List String) :=
    if 0 < cfg.logLevel then some ((s.log.toList ++ closingLines s error).flatMap Text.lines)
    else none
  finish (s : State) (error : Option Error) : Outcome :=
    ⟨resultOf mode length s error, logOf s error⟩

def execute (cfg : Config) (depth : Nat) (program : Node) : EStateM.Result Stop State Unit :=
  runProgram (Evaluator.ofDepth cfg depth) program {}

def run (cfg : Config) (mode : Name) (program : Node) : Outcome :=
  match Mode.ofName? mode with
  | none => { result := .error (.unknownMode mode.shown) }
  | some m => outcomeOf cfg m (sourceLength program) (execute cfg nestingLimit program)

/-- Parses and runs a source text. What is wrong with the text is a failed result. -/
def simulate (cfg : Config) (mode : Name) (source : String) : Outcome :=
  match Syntax.parse source with
  | .error (.error e) => { result := .ok { error := some e } }
  | .error (.fault fault) => { result := .error fault }
  | .ok program => run cfg mode program

end Orus.Run
