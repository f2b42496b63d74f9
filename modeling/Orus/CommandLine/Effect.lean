import Orus.CommandLine.Options
import Orus.CommandLine.Path
import Orus.Editor.Highlight
import Orus.Json.Reader
import Orus.Json.Writer
import Orus.Run.Report
import Orus.Share.Token
import Orus.Syntax.Codec

/-! # Effects of commands

What a command prints and writes, and with which status it ends. A command reads at
most one file, which is given as what was found under its name, so that all that is
decided here is decided without touching a file.
-/

namespace Orus.CommandLine

open Run

inductive Found where
  | missing
  | directory
  | text (content : String)
  deriving DecidableEq, Repr

/-- What a command can break down with. -/
inductive Crash where
  | fault (fault : Fault)
  /-- A file that should hold JSON and does not. -/
  | malformedData
  /-- A directory in the place of a file. -/
  | directory (path : String)
  deriving DecidableEq, Repr

def Crash.message : Crash → String
  | .fault f => f.message
  | .malformedData => ""
  | .directory path => s!"[Errno 21] Is a directory: {Text.quoted path}"

inductive Ending where
  | done
  | failed
  | misused (error : UsageError)
  | crashed (crash : Crash)
  deriving DecidableEq, Repr

def Ending.status : Ending → Nat
  | .done => 0
  | .failed => 1
  | .misused _ => 2
  | .crashed _ => 1

structure Effect where
  out : String := ""
  err : String := ""
  /-- A file to write, with its content. -/
  written : Option (String × String) := none
  /-- Lines to add to the log, if there is one. -/
  log : Option (List String) := none
  ending : Ending := .done
  deriving DecidableEq, Repr

def logName : String := "debug.txt"

def usageLine (e : UsageError) : String :=
  s!"oruspad: error: {e.message}"

def usageText : String :=
  "usage: oruspad [-h] [-v] [--mode \x7bnormal,debug\x7d] [--max-steps N] [--max-iterations N]\n" ++
  "               [--emit-ast FILE | --ast FILE | --highlight FILE | --share FILE |\n" ++
  "                --unshare TOKEN | --example NAME] [program]\n"

namespace Effect

def printed (line : String) : Effect :=
  { out := line ++ "\n" }

def failure (line : String) : Effect :=
  { err := line ++ "\n", ending := .failed }

def crash (c : Crash) : Effect :=
  { ending := .crashed c }

/-- What a run shows: the panel, and the warnings if there are any. -/
def ofResult (r : Result) : Effect :=
  { out := r.panelText ++ "\n"
    err := if r.diagnostics.isEmpty then "" else r.warnings ++ "\n"
    ending := if r.ok then .done else .failed }

def ofOutcome (o : Outcome) : Effect :=
  let shown := match o.result with
    | .ok r => ofResult r
    | .error fault => crash (.fault fault)
  { shown with log := o.log }

end Effect

/-- The text of a file: every end of a line is a line feed. -/
def universalLines : List Char → List Char
  | [] => []
  | '\r' :: '\n' :: rest => '\n' :: universalLines rest
  | '\r' :: rest => '\n' :: universalLines rest
  | c :: rest => c :: universalLines rest

def withText (path : String) (found : Found) (use : String → Effect) : Effect :=
  match found with
  | .missing => .failure s!"Error: file {plainPath path} not found"
  | .directory => .crash (.directory (plainPath path))
  | .text content => use (String.ofList (universalLines content.toList))

def Options.config (o : Options) (limits : Limits) : Config :=
  { limits, logLevel := o.verbosity }

def writeTree (path source : String) : Effect :=
  match Syntax.parse source with
  | .error (.error e) => { Effect.printed (errorText e) with ending := .failed }
  | .error (.fault fault) => .crash (.fault fault)
  | .ok program => match Syntax.encode program with
    | .error fault => .crash (.fault fault)
    | .ok tree =>
      let target := plainPath path ++ ".ast.json"
      { Effect.printed target with written := some (target, tree.indented) }

def runData (cfg : Config) (mode : Name) (text : String) : Effect :=
  match Json.read nestingLimit text with
  | .error .malformed => .crash .malformedData
  | .error .tooDeep => .crash (.fault .tooDeep)
  | .error (.tooManyDigits count) => .crash (.fault (.tooManyDigits count))
  | .ok data => match Syntax.decode data with
    | .error fault => .crash (.fault fault)
    | .ok program => .ofOutcome (run cfg mode program)

/-- One line for each coloured piece of a source. -/
def highlightLines (source : String) : String :=
  String.join ((Editor.highlight source).map fun p =>
    s!"{p.kind.name}\t{Text.quoted p.text}\n")

def Command.path? : Command → Option String
  | .emitTree path | .runTree path | .highlight path | .share path | .runProgram path => some path
  | .unshare _ | .runSource _ => none

def Command.perform (cfg : Config) (mode : Name) (found : Found) : Command → Effect
  | .emitTree path => withText path found (writeTree path)
  | .runTree path => withText path found (runData cfg mode)
  | .highlight path => withText path found fun source => { out := highlightLines source }
  | .share path => withText path found fun source => .printed (Share.encodeSource source)
  | .unshare token => match Share.decodeSource token with
    | .ok source => .printed source
    | .error e => .failure s!"Error: {e.message}"
  | .runSource source => .ofOutcome (simulate cfg mode source)
  | .runProgram path =>
    withText path found fun source => .ofOutcome (simulate cfg mode source)

def Effect.misuse (e : UsageError) : Effect :=
  { err := usageText ++ usageLine e ++ "\n", ending := .misused e }

/-- Carries out a command line; `look` tells what is found under a file name. -/
def performWith {m : Type → Type} [Monad m] (look : String → m Found)
    (arguments : List String) : m Effect :=
  match Options.read arguments with
  | .error .help => return { out := usageText }
  | .error (.usage e) => return .misuse e
  | .ok o => match o.limits, o.command with
    | .error fault, _ => return .crash (.fault fault)
    | .ok _, .error e => return .misuse e
    | .ok limits, .ok c => do
      let found ← match c.path? with
        | some path => look (plainPath path)
        | none => pure .missing
      return c.perform (o.config limits) o.mode found

end Orus.CommandLine
