import Orus.Error
import Orus.Token.Basic

/-! # Reading a token stream

The parser sees one token and reads strictly forward. After the last token the end
of input repeats for ever, and a token that is an error stops the parser as soon
as it comes into sight.
-/

namespace Orus.Syntax

/-- The token in sight and those after it. -/
structure Cursor where
  current : Token
  rest : List Token

/-- Parsing moves a cursor and may fail. -/
abbrev Parse := StateT Cursor (Except Failure)

def failAt {α : Type} (mark : Option Mark) (issue : SyntaxIssue) : Parse α :=
  throw (.error ⟨.grammar issue, mark⟩)

/-- The cursor one token further on. -/
def Cursor.shift (c : Cursor) : Except Failure Cursor :=
  match c.rest with
  | [] => .ok ⟨.eofAt c.current.position, []⟩
  | t :: rest =>
    if t.kind = .error then
      .error (.error ⟨.grammar (.invalidToken t.text t.value), t.mark⟩)
    else .ok ⟨t, rest⟩

def Cursor.start (tokens : List Token) : Except Failure Cursor :=
  Cursor.shift ⟨.eofAt .start, tokens⟩

/-- Whether the token in sight is one of the given texts. Strings and the end of input
never are. -/
def Cursor.sees (c : Cursor) (texts : List String) : Bool :=
  c.current.kind != .string && c.current.kind != .eof && texts.contains c.current.text

/-- More than the number of tokens that can still be read. -/
def Cursor.budget (c : Cursor) : Nat :=
  c.rest.length + 2

def peek : Parse Token :=
  return (← get).current

def sees (texts : List String) : Parse Bool :=
  return (← get).sees texts

/-- Takes the token in sight; the end of input stays. -/
def advance : Parse Token := do
  let c ← get
  if c.current.kind = .eof then return c.current
  match c.shift with
  | .ok next =>
    set next
    return c.current
  | .error failure => throw failure

def consume (text : String) : Parse Token := do
  let c ← get
  if c.sees [text] then advance
  else failAt c.current.mark (.expected s!"'{text}'" c.current.describe)

def consumeIdent (what : String) : Parse Token := do
  let token ← peek
  if token.kind = .ident then advance
  else failAt token.mark (.expected what token.describe)

def accept (text : String) : Parse Bool := do
  if ← sees [text] then
    let _ ← advance
    return true
  else return false

/-- Items up to a closing text, with commas between them and perhaps one after the
last. The closing text stays in sight. -/
def commaList {α : Type} (close : String) (item : Parse α) :
    (budget : Nat) → (done : List α) → Parse (List α)
  | 0, done => return done.reverse
  | n + 1, done => do
    if ← sees [close] then return done.reverse
    let value ← item
    if ← accept "," then commaList close item n (value :: done)
    else return (value :: done).reverse

end Orus.Syntax
