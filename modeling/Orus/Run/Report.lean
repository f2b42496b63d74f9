import Orus.Run.Result

/-! # Reports

The text of the result panel and of the warnings beside it.
-/

namespace Orus.Run

/-- What the panel shows for a run that printed nothing. -/
def noOutputMessage : String := "Program executed successfully with no output."

def errorText (e : Error) : String :=
  let note := match e.mark with
    | some m => m.note
    | none => ""
  s!"Error: {e.cause.kind.label}: {e.cause.message}{note}"

def Result.panelText (r : Result) : String :=
  match r.error with
  | some e => errorText e
  | none => if r.output.isEmpty then noOutputMessage else "\n".intercalate r.output

def Result.warnings (r : Result) : String :=
  "\n".intercalate (r.diagnostics.map fun message => s!"Warning: {message}")

def render (cfg : Config) (mode : Name) (source : String) : Except Fault String :=
  (simulate cfg mode source).result.map Result.panelText

end Orus.Run
