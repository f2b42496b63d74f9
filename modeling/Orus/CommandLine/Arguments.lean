import Orus.Json.Basic
import Orus.Text.Quoted

/-! # Arguments

The words of a command line are options, values of options, or the program to run.
A long option may be cut short as long as it stays unique, and its value may be
attached with an equals sign. A negative number and a word with a space are no
options, and neither is anything after `--`.
-/

namespace Orus.CommandLine

inductive Switch where
  | help
  | verbose
  | mode
  | maxSteps
  | maxIterations
  | emitTree
  | runTree
  | highlight
  | share
  | unshare
  | sample
  deriving DecidableEq, Repr

namespace Switch

def all : List Switch := [
  help, verbose, mode, maxSteps, maxIterations, emitTree, runTree, highlight, share, unshare, sample]

def spellings : Switch → List String
  | help => ["-h", "--help"]
  | verbose => ["-v"]
  | mode => ["--mode"]
  | maxSteps => ["--max-steps"]
  | maxIterations => ["--max-iterations"]
  | emitTree => ["--emit-ast"]
  | runTree => ["--ast"]
  | highlight => ["--highlight"]
  | share => ["--share"]
  | unshare => ["--unshare"]
  | sample => ["--example"]

def label (s : Switch) : String :=
  "/".intercalate s.spellings

def takesValue : Switch → Bool
  | help | verbose => false
  | _ => true

def table : List (String × Switch) :=
  all.flatMap fun s => s.spellings.map fun spelling => (spelling, s)

def ofSpelling? (word : String) : Option Switch :=
  (table.find? fun (spelling, _) => spelling == word).map Prod.snd

end Switch

inductive UsageError where
  | ambiguous (word : String) (candidates : List String)
  | missingValue (switch : Switch)
  | strayValue (switch : Switch) (value : String)
  | notWhole (switch : Switch) (value : String)
  | noChoice (switch : Switch) (value : String) (choices : List String)
  | conflict (switch other : Switch)
  | unrecognized (words : List String)
  | missingProgram
  deriving DecidableEq, Repr

def UsageError.message : UsageError → String
  | .ambiguous word candidates =>
    s!"ambiguous option: {word} could match " ++ ", ".intercalate candidates
  | .missingValue switch => s!"argument {switch.label}: expected one argument"
  | .strayValue switch value =>
    s!"argument {switch.label}: ignored explicit argument {Text.quoted value}"
  | .notWhole switch value =>
    s!"argument {switch.label}: invalid int value: {Text.quoted value}"
  | .noChoice switch value choices =>
    s!"argument {switch.label}: invalid choice: {Text.quoted value} (choose from " ++
      ", ".intercalate (choices.map Text.quoted) ++ ")"
  | .conflict switch other =>
    s!"argument {switch.label}: not allowed with argument {other.label}"
  | .unrecognized words => "unrecognized arguments: " ++ " ".intercalate words
  | .missingProgram => "missing program file; or use --example/--emit-ast/--ast"

/-! ## Words -/

inductive Shape where
  /-- A value of an option or the program to run. -/
  | value
  /-- The word after which there are no more options. -/
  | separator
  /-- An option under one of its spellings, and a value attached to it. -/
  | option (switch : Switch) (spelling : String) (attached : Option String)
  /-- An option that does not exist. -/
  | unknown
  deriving DecidableEq, Repr

structure Word where
  text : String
  shape : Shape
  deriving DecidableEq, Repr

def Word.isOption (w : Word) : Bool :=
  match w.shape with
  | .option .. | .unknown => true
  | _ => false

/-- Cuts a word at its first equals sign. -/
def cutValue (word : List Char) : List Char × Option String :=
  match word.dropWhile (· != '=') with
  | [] => (word, none)
  | _ :: value => (word.takeWhile (· != '='), some (String.ofList value))

/-- Whether a text after a minus sign is digits, or digits with a point before the last
of them. A line feed may follow. -/
def isNegativeNumber : List Char → Bool
  | '-' :: rest =>
    let body := if rest.getLast? == some '\n' then rest.dropLast else rest
    let fraction := body.dropWhile Text.isDigit
    match fraction with
    | [] => !body.isEmpty
    | '.' :: digits => !digits.isEmpty && digits.all Text.isDigit
    | _ => false
  | _ => false

/-- The readings of a word that is no spelling of an option as it stands. -/
def readings (cs : List Char) : List (String × Switch × Option String) :=
  if cs.take 2 == ['-', '-'] then
    let (start, attached) := cutValue cs
    (Switch.table.filter fun (spelling, _) => start.isPrefixOf spelling.toList).map
      fun (spelling, switch) => (spelling, switch, attached)
  else
    Switch.table.filterMap fun (spelling, switch) =>
      if spelling.toList == cs.take 2 then
        some (spelling, switch, some (String.ofList (cs.drop 2)))
      else none

/-- What a word that starts with a minus sign and is no spelling is taken for. -/
def readingShape (text : String) : Except UsageError Shape :=
  let cs := text.toList
  match readings cs with
  | [(spelling, switch, attached)] => .ok (.option switch spelling attached)
  | [] => .ok (if isNegativeNumber cs || cs.contains ' ' then .value else .unknown)
  | several => .error (.ambiguous text (several.map Prod.fst))

/-- What a word before any `--` is taken for. -/
def shapeOf (text : String) : Except UsageError Shape :=
  let cs := text.toList
  match Switch.ofSpelling? text with
  | some switch => .ok (.option switch text none)
  | none =>
    if cs.head? != some '-' || cs.length == 1 then .ok .value
    else
      let (start, attached) := cutValue cs
      match attached, Switch.ofSpelling? (String.ofList start) with
      | some _, some switch => .ok (.option switch (String.ofList start) attached)
      | _, _ => readingShape text

def classify : List String → Except UsageError (List Word)
  | [] => .ok []
  | text :: rest =>
    if text == "--" then
      .ok (⟨text, .separator⟩ :: rest.map fun value => ⟨value, .value⟩)
    else do
      let shape ← shapeOf text
      return ⟨text, shape⟩ :: (← classify rest)

end Orus.CommandLine
