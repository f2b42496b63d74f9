import Orus.CommandLine.Arguments
import Orus.Editor.Samples
import Orus.Run.Result

/-! # Options

What a command line asks for. At most one of the options that say what to do may be
given, and the first thing wrong with a command line is the one reported. Two dashes
attached to an option are dropped, which leaves it with a list of no values.
-/

namespace Orus.CommandLine

structure Options where
  verbosity : Nat := 0
  mode : Json := .str "normal"
  maxSteps : Json := .int ({} : Limits).maxSteps
  maxIterations : Json := .int ({} : Limits).maxIterations
  /-- The option that says what to do, with its value. -/
  chosen : Option (Switch × String) := none
  /-- The program to run. -/
  program : Option String := none
  /-- The words that nothing is made of. -/
  extra : List String := []
  deriving DecidableEq, Repr

inductive Halt where
  /-- It asks for help. -/
  | help
  | usage (error : UsageError)
  deriving DecidableEq, Repr

namespace Options

/-- A limit that is asked for; below zero it is zero. -/
def limit : Json → Except Fault Int
  | .int n => .ok (max 0 n)
  | value => .error (.noOrder value.kind "int")

def limits (o : Options) : Except Fault Limits := do
  let maxSteps ← limit o.maxSteps
  let maxIterations ← limit o.maxIterations
  return { maxSteps, maxIterations }

def choose (switch : Switch) (choices : List String) (value : String) : Except Halt String :=
  if choices.contains value then .ok value else .error (.usage (.noChoice switch value choices))

def whole (switch : Switch) (value : String) : Except Halt Json :=
  match Number.readInt value with
  | .ok n => .ok (.int n)
  | .error _ => .error (.usage (.notWhole switch value))

/-- Notes what to do, unless something else was noted before. -/
def note (o : Options) (switch : Switch) (value : String) : Except Halt Options :=
  match o.chosen with
  | some (other, _) =>
    if other = switch then .ok { o with chosen := some (switch, value) }
    else .error (.usage (.conflict switch other))
  | none => .ok { o with chosen := some (switch, value) }

def flag (o : Options) : Switch → Except Halt Options
  | .help => .error .help
  | _ => .ok { o with verbosity := o.verbosity + 1 }

/-- The options with one whose value was dropped. -/
def putNothing (o : Options) : Switch → Except Halt Options
  | .mode => .ok { o with mode := .arr [] }
  | .maxSteps => .ok { o with maxSteps := .arr [] }
  | .maxIterations => .ok { o with maxIterations := .arr [] }
  | switch => o.note switch ""

def put (o : Options) (switch : Switch) (value : String) : Except Halt Options :=
  match switch with
  | .mode => return { o with mode := .str (← choose switch ["normal", "debug"] value) }
  | .maxSteps => return { o with maxSteps := ← whole switch value }
  | .maxIterations => return { o with maxIterations := ← whole switch value }
  | .sample => do o.note switch (← choose switch (Editor.samples.map Prod.fst) value)
  | _ => o.note switch value

/-- The options written together behind one minus sign, from the one before the given
letters on. -/
def cluster (current : Switch) : List Char → Except Halt (List Switch)
  | [] => .ok [current]
  | c :: rest =>
    match Switch.ofSpelling? (String.ofList ['-', c]) with
    | some next => return current :: (← cluster next rest)
    | none => .error (.usage (.strayValue current (String.ofList (c :: rest))))

def flagAttached (o : Options) (switch : Switch) (spelling attached : String) :
    Except Halt Options := do
  if spelling.length == 2 && attached != "" then
    (← cluster switch attached.toList).foldlM flag o
  else .error (.usage (.strayValue switch attached))

/-- The program and the words left over, from the words after the last option. A
separator right before or after the program belongs to it. -/
def finish (o : Options) (words : List String) : Options :=
  match o.program with
  | some _ => { o with extra := o.extra ++ words }
  | none => match words with
    | [] => o
    | ["--"] => o
    | "--" :: program :: rest => { o with program := some program, extra := o.extra ++ rest }
    | program :: "--" :: rest => { o with program := some program, extra := o.extra ++ rest }
    | program :: rest => { o with program := some program, extra := o.extra ++ rest }

def putWord (o : Options) (text : String) : Options :=
  match o.program with
  | none => { o with program := some text }
  | some _ => { o with extra := o.extra ++ [text] }

/-- The options with one as it is written; an option that waits for its value is given
back. -/
def putSwitch (o : Options) (switch : Switch) (spelling : String) :
    Option String → Except Halt (Options × Option Switch)
  | none =>
    if switch.takesValue then .ok (o, some switch)
    else return (← o.flag switch, none)
  | some attached => do
    if switch.takesValue then
      return (← if attached == "--" then o.putNothing switch else o.put switch attached, none)
    else return (← o.flagAttached switch spelling attached, none)

/-- The options of the remaining words, the first of which is the value of the waiting
option. -/
def consume : (waiting : Option Switch) → Options → List Word → Except Halt Options
  | some switch, _, [] => .error (.usage (.missingValue switch))
  | some switch, o, w :: rest =>
    if w.shape = .value then do consume none (← o.put switch w.text) rest
    else .error (.usage (.missingValue switch))
  | none, o, [] => .ok o
  | none, o, w :: rest =>
    if (w :: rest).all fun x => !x.isOption then
      .ok (o.finish ((w :: rest).map Word.text))
    else match w.shape with
      | .value | .separator => consume none (o.putWord w.text) rest
      | .unknown => consume none { o with extra := o.extra ++ [w.text] } rest
      | .option switch spelling attached => do
        let (o, waiting) ← o.putSwitch switch spelling attached
        consume waiting o rest

def read (arguments : List String) : Except Halt Options := do
  let words ← (classify arguments).mapError .usage
  let o ← consume none {} words
  if o.extra.isEmpty then return o else .error (.usage (.unrecognized o.extra))

end Options

inductive Command where
  | emitTree (path : String)
  | runTree (path : String)
  | highlight (path : String)
  | share (path : String)
  | unshare (token : String)
  | runSource (source : String)
  | runProgram (path : String)
  deriving DecidableEq, Repr

/-- What options ask for. Nothing is done with an empty value, as if it were not given. -/
def Options.command (o : Options) : Except UsageError Command :=
  match o.chosen with
  | some (switch, value) =>
    if value == "" then fallback
    else match switch with
      | .emitTree => .ok (.emitTree value)
      | .runTree => .ok (.runTree value)
      | .highlight => .ok (.highlight value)
      | .share => .ok (.share value)
      | .unshare => .ok (.unshare value)
      | .sample => match Editor.sample? value with
        | some source => .ok (.runSource source)
        | none => fallback
      | _ => fallback
  | none => fallback
where
  fallback : Except UsageError Command :=
    match o.program with
    | some path => if path == "" then .error .missingProgram else .ok (.runProgram path)
    | none => .error .missingProgram

end Orus.CommandLine
