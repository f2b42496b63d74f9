import Orus.Json.Basic

/-! # Writing JSON

Two layouts: everything on one line, and one item to a line with two more spaces
for each level. Characters outside seven-bit text stand for themselves.
-/

namespace Orus.Json

def escapeChar (c : Char) : List Char :=
  if c == '"' then ['\\', '"']
  else if c == '\\' then ['\\', '\\']
  else if c == '\n' then ['\\', 'n']
  else if c == '\r' then ['\\', 'r']
  else if c == '\t' then ['\\', 't']
  else if c.toNat == 0x8 then ['\\', 'b']
  else if c.toNat == 0xC then ['\\', 'f']
  else if c.toNat < 0x20 then '\\' :: 'u' :: Text.hexadecimal 4 c.toNat
  else [c]

def stringText (s : String) : String :=
  String.ofList ('"' :: (s.toList.flatMap escapeChar ++ ['"']))

/-- A fraction; what has no digits is written as a word. -/
def floatText (x : Float) : String :=
  if x.isNaN then "NaN"
  else if x.isInf then (if Number.isNegative x then "-Infinity" else "Infinity")
  else Number.plainText x

mutual

/-- The value on one line, after what has been written already. -/
def compactAfter (done : String) : Json → String
  | .null => done ++ "null"
  | .bool b => done ++ (if b then "true" else "false")
  | .int n => done ++ toString n
  | .float x => done ++ floatText x
  | .str s => done ++ stringText s
  | .arr items => compactItems (done ++ "[") true items
  | .obj fields => compactFields (done ++ "\x7b") true fields

def compactItems (done : String) (first : Bool) : List Json → String
  | [] => done ++ "]"
  | item :: rest =>
    compactItems (compactAfter (if first then done else done ++ ",") item) false rest

def compactFields (done : String) (first : Bool) : List (String × Json) → String
  | [] => done ++ "\x7d"
  | (key, value) :: rest =>
    let done := (if first then done else done ++ ",") ++ stringText key ++ ":"
    compactFields (compactAfter done value) false rest

end

def compact (value : Json) : String :=
  compactAfter "" value

/-- The line break before an item at a depth. -/
def breakTo (depth : Nat) : String :=
  String.ofList ('\n' :: List.replicate (2 * depth) ' ')

mutual

def indentedAt (depth : Nat) : Json → String
  | .null => "null"
  | .bool b => if b then "true" else "false"
  | .int n => toString n
  | .float x => floatText x
  | .str s => stringText s
  | .arr [] => "[]"
  | .arr (item :: rest) =>
    "[" ++ breakTo (depth + 1) ++ indentedAt (depth + 1) item ++
      indentedItems (depth + 1) rest ++ breakTo depth ++ "]"
  | .obj [] => "\x7b\x7d"
  | .obj ((key, value) :: rest) =>
    "\x7b" ++ breakTo (depth + 1) ++ stringText key ++ ": " ++ indentedAt (depth + 1) value ++
      indentedFields (depth + 1) rest ++ breakTo depth ++ "\x7d"

def indentedItems (depth : Nat) : List Json → String
  | [] => ""
  | item :: rest => "," ++ breakTo depth ++ indentedAt depth item ++ indentedItems depth rest

def indentedFields (depth : Nat) : List (String × Json) → String
  | [] => ""
  | (key, value) :: rest =>
    "," ++ breakTo depth ++ stringText key ++ ": " ++ indentedAt depth value ++
      indentedFields depth rest

end

def indented (value : Json) : String :=
  indentedAt 0 value

end Orus.Json
