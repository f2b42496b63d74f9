import Orus.Share.Base64
import Orus.Text.Blank
import Orus.Text.Utf8

/-! # Share tokens

A token is a source text in a form that survives a query string: the letters of
its UTF-8 bytes, without padding.
-/

namespace Orus.Share

inductive TokenError where
  | letters (cause : Base64Error)
  | bytes (cause : Text.Utf8Error)
  deriving DecidableEq, Repr

def TokenError.message : TokenError → String
  | .letters cause => s!"malformed share token: {cause.message}"
  | .bytes cause => s!"malformed share token: {cause.message}"

def encodeSource (source : String) : String :=
  String.ofList (encodeBytes (Text.utf8 source.toList))

/-- Padding up to a multiple of four. -/
def pad (cs : List Char) : List Char :=
  cs ++ List.replicate ((4 - cs.length % 4) % 4) '='

/-- The source of a token; blanks around it do not matter. -/
def decodeSource (token : String) : Except TokenError String := do
  let bytes ← (decodeLetters (pad (Text.trim token.toList))).mapError .letters
  let cs ← (Text.decodeUtf8 bytes).mapError .bytes
  return String.ofList cs

end Orus.Share
