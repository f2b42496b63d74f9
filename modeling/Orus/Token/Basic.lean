/-! # Tokens

A token is a piece of source text with its kind and the place where it starts.
Lines and columns count from one, offsets from zero; all count code points.
-/

namespace Orus

structure Position where
  line : Nat
  column : Nat
  offset : Nat
  deriving DecidableEq, Repr, Inhabited

namespace Position

def start : Position := ⟨1, 1, 0⟩

def next (p : Position) (c : Char) : Position :=
  if c = '\n' then ⟨p.line + 1, 1, p.offset + 1⟩ else ⟨p.line, p.column + 1, p.offset + 1⟩

def after (p : Position) (text : List Char) : Position :=
  text.foldl next p

def text (p : Position) : String :=
  s!"{p.line}:{p.column}"

end Position

inductive Token.Kind where
  | ident
  | keyword
  | number
  | string
  | punct
  | op
  | eof
  | error
  deriving DecidableEq, Repr, Inhabited

def Token.Kind.label : Token.Kind → String
  | .ident => "IDENT"
  | .keyword => "KEYWORD"
  | .number => "NUMBER"
  | .string => "STRING"
  | .punct => "PUNCT"
  | .op => "OP"
  | .eof => "EOF"
  | .error => "ERROR"

def Token.Kind.ofLabel? (label : String) : Option Token.Kind :=
  [.ident, .keyword, .number, .string, .punct, .op, .eof, .error].find? fun k =>
    Token.Kind.label k == label

/-- A piece of source text. The value of a string token is its raw body and that of an
error token says what is wrong; the others have none. -/
structure Token where
  kind : Token.Kind
  text : String
  position : Position
  value : Option String := none
  deriving DecidableEq, Repr, Inhabited

def Token.describe (t : Token) : String :=
  match t.kind with
  | .eof => "end of input"
  | .string => s!"string {t.text}"
  | _ => s!"'{t.text}'"

def Token.eofAt (p : Position) : Token :=
  ⟨.eof, "", p, none⟩

end Orus
