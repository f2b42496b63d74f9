import Orus.CommandLine.Effect

/-! # The program

Carries out a command line: finds the file it names, prints and writes what the
command says, and ends with its status.
-/

open Orus.CommandLine

def findFile (path : String) : IO Found := do
  try
    return .text (← IO.FS.readFile path)
  catch
    | .inappropriateType .. => return .directory
    | _ => return .missing

def carryOut (e : Effect) : IO Unit := do
  if let some (path, content) := e.written then
    IO.FS.writeFile path content
  if let some lines := e.log then
    IO.FS.withFile logName .append fun handle =>
      lines.forM fun line => handle.putStr (line ++ "\n")
  IO.print e.out
  IO.eprint e.err
  if let .crashed crash := e.ending then
    IO.eprintln crash.message

def main (arguments : List String) : IO UInt32 := do
  let effect ← performWith findFile arguments
  carryOut effect
  return effect.ending.status.toUInt32
