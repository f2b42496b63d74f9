import Orus.Text.Lines
import Orus.Text.Numeral
import Orus.Text.Utf8

/-! # Web addresses

An address is cut into scheme, host, path, query and fragment, and the query into
named values. Blanks and controls before an address do not belong to it, and what stands
between the brackets of a host is not looked into. Reading drops parameters without a
value; writing quotes everything but letters, digits and `_.-~`, and writes a space as a
plus sign. Address libraries differ in such details from release to release; the rules
here are those of a single one.
-/

namespace Orus.Share

open Text

structure Url where
  scheme : List Char
  host : List Char
  path : List Char
  query : List Char
  fragment : List Char
  deriving DecidableEq, Repr

inductive UrlError where
  /-- One square bracket without the other. -/
  | brackets
  /-- A character in the host that looks like one that ends it. -/
  | lookalike (host : String)
  deriving DecidableEq, Repr

def UrlError.message : UrlError → String
  | .brackets => "Invalid IPv6 URL"
  | .lookalike host =>
    s!"netloc '{host}' contains invalid characters under NFKC normalization"

/-- Cuts a text at the first character of a class; the character goes with the rest. -/
def cutAt (p : Char → Bool) (cs : List Char) : List Char × List Char :=
  (cs.takeWhile fun c => !p c, cs.dropWhile fun c => !p c)

def cutAround (mark : Char) (cs : List Char) : List Char × List Char :=
  let (before, rest) := cutAt (· == mark) cs
  (before, rest.drop 1)

def isSchemeChar (c : Char) : Bool :=
  isAsciiLetter c || isAsciiDigit c || c == '+' || c == '-' || c == '.'

/-- Splits off a scheme: letters and a few others before a colon, the first a letter. -/
def cutScheme (cs : List Char) : List Char × List Char :=
  let (scheme, rest) := cutAt (· == ':') cs
  if scheme.head?.any isAsciiLetter && scheme.all isSchemeChar && !rest.isEmpty then
    (scheme.map Char.toLower, rest.drop 1)
  else ([], cs)

/-- Characters that are written out with one of `/ ? # @ :` when text is brought into
its compatibility form. -/
def lookalikes : List Nat := [
  0x2047, 0x2048, 0x2049, 0x2100, 0x2101, 0x2105, 0x2106, 0x2A74, 0xFE13, 0xFE16, 0xFE55, 0xFE56,
  0xFE5F, 0xFE6B, 0xFF03, 0xFF0F, 0xFF1A, 0xFF1F, 0xFF20]

/-- Splits off a host between two slashes and the next part. -/
def cutHost (cs : List Char) : Except UrlError (List Char × List Char) :=
  match cs with
  | '/' :: '/' :: rest =>
    let (host, rest) := cutAt (fun c => c == '/' || c == '?' || c == '#') rest
    if host.contains '[' != host.contains ']' then .error .brackets else .ok (host, rest)
  | _ => .ok ([], cs)

/-- Tabs and line breaks, which addresses never hold. -/
def isRemoved (c : Char) : Bool :=
  c == '\t' || c == '\n' || c == '\r'

/-- A space or a control of the first block, which may come before an address. -/
def isLeading (c : Char) : Bool :=
  c.toNat ≤ ' '.toNat

/-- The address in a text: what comes before it and what it never holds are left out.
Blanks after an address stay, since they are part of its last piece. -/
def cleanAddress (text : List Char) : List Char :=
  (text.dropWhile isLeading).filter fun c => !isRemoved c

def Url.split (address : List Char) : Except UrlError Url := do
  let (scheme, rest) := cutScheme (cleanAddress address)
  let (host, rest) ← cutHost rest
  let (rest, fragment) := cutAround '#' rest
  let (path, query) := cutAround '?' rest
  if host.any fun c => lookalikes.contains c.toNat then .error (.lookalike (String.ofList host))
  else return ⟨scheme, host, path, query, fragment⟩

/-- The schemes whose addresses always show where a host would be. -/
def hostSchemes : List String := [
  "ftp", "http", "gopher", "nntp", "telnet", "imap", "wais", "file", "mms", "https", "shttp",
  "snews", "prospero", "rtsp", "rtsps", "rtspu", "rsync", "svn", "svn+ssh", "sftp", "nfs", "git",
  "git+ssh", "ws", "wss"]

def Url.join (u : Url) : List Char :=
  let twoSlashes := u.path.take 2 == ['/', '/']
  let showsHost := !u.host.isEmpty ||
    (hostSchemes.contains (String.ofList u.scheme) && !twoSlashes)
  let path :=
    if showsHost then
      let slash := if u.path.isEmpty || u.path.head? == some '/' then [] else ['/']
      '/' :: '/' :: (u.host ++ slash ++ u.path)
    else u.path
  (if u.scheme.isEmpty then [] else u.scheme ++ [':']) ++ path ++
    (if u.query.isEmpty then [] else '?' :: u.query) ++
    (if u.fragment.isEmpty then [] else '#' :: u.fragment)

/-! ## Queries -/

def hexDigit? (c : Char) : Option Nat :=
  if isAsciiDigit c then some (c.toNat - '0'.toNat)
  else if 'a' ≤ c ∧ c ≤ 'f' then some (c.toNat - 'a'.toNat + 10)
  else if 'A' ≤ c ∧ c ≤ 'F' then some (c.toNat - 'A'.toNat + 10)
  else none

def hexByte? (high low : Char) : Option Nat := do
  return (← hexDigit? high) * 16 + (← hexDigit? low)

/-- The bytes of seven-bit text with its escapes. A percent sign without two digits
stands for itself. -/
def unescapeBytes : List Char → List Nat
  | [] => []
  | '%' :: high :: low :: rest =>
    match hexByte? high low with
    | some b => b :: unescapeBytes rest
    | none => '%'.toNat :: unescapeBytes (high :: low :: rest)
  | c :: rest => c.toNat :: unescapeBytes rest

def isSevenBit (c : Char) : Bool :=
  c.toNat < 0x80

/-- Decodes the escapes in a text. Each unbroken run of seven-bit characters is decoded
on its own; other characters stand for themselves. -/
def unquote (cs : List Char) : List Char :=
  match cs with
  | [] => []
  | c :: rest =>
    if isSevenBit c then
      decodeReplacing [] (unescapeBytes (c :: rest.takeWhile isSevenBit)) ++
        unquote (rest.dropWhile isSevenBit)
    else c :: unquote rest
termination_by cs.length
decreasing_by
  · have := (List.dropWhile_suffix isSevenBit (l := rest)).length_le
    simp only [List.length_cons]; omega
  · simp

def unquotePlus (cs : List Char) : List Char :=
  unquote (cs.map fun c => if c == '+' then ' ' else c)

abbrev Parameter := List Char × List Char

/-- The parameter that a piece of a query stands for, unless it has no value. -/
def parameter? (piece : List Char) : Option Parameter :=
  let (name, value) := cutAround '=' piece
  if value.isEmpty then none else some (unquotePlus name, unquotePlus value)

def parameters (query : List Char) : List Parameter :=
  (splitAt '&' query).filterMap parameter?

def addToGroup (name value : List Char) :
    List (List Char × List (List Char)) → List (List Char × List (List Char))
  | [] => [(name, [value])]
  | (n, values) :: rest =>
    if n = name then (n, values ++ [value]) :: rest else (n, values) :: addToGroup name value rest

/-- The values of each name, names in the order of their first appearance. -/
def grouped (ps : List Parameter) : List (List Char × List (List Char)) :=
  ps.foldl (fun done (name, value) => addToGroup name value done) []

def upperHex (n : Nat) : Char :=
  if n < 10 then Char.ofNat ('0'.toNat + n) else Char.ofNat ('A'.toNat + (n - 10))

/-- A byte that is written as a character. -/
def isPlainByte (b : Nat) : Bool :=
  let c := Char.ofNat b
  b < 0x80 && (isAsciiLetter c || isAsciiDigit c || c == '_' || c == '.' || c == '-' || c == '~')

def quoteByte (b : Nat) : List Char :=
  if isPlainByte b then [Char.ofNat b]
  else if b = ' '.toNat then ['+']
  else ['%', upperHex (b / 16), upperHex (b % 16)]

def quotePlus (cs : List Char) : List Char :=
  (utf8 cs).flatMap quoteByte

def queryText (ps : List Parameter) : List Char :=
  ['&'].intercalate (ps.map fun (name, value) => quotePlus name ++ '=' :: quotePlus value)

end Orus.Share
