import Orus.Share.Token
import Orus.Share.Url

/-! # Share links

A link is an address with a source in its `code` parameter. Making one keeps the
other parameters of the address.
-/

namespace Orus.Share

inductive LinkError where
  | url (cause : UrlError)
  | token (cause : TokenError)
  deriving DecidableEq, Repr

def LinkError.message : LinkError → String
  | .url cause => cause.message
  | .token cause => cause.message

def codeParameter : List Char := ['c', 'o', 'd', 'e']

/-- The parameters of a query but the one that holds the source, values of one name
together. -/
def otherParameters (query : List Char) : List Parameter :=
  ((grouped (parameters query)).filter fun (name, _) => name ≠ codeParameter).flatMap
    fun (name, values) => values.map fun value => (name, value)

/-- The address with a source as its parameter. -/
def shareUrl (base source : String) : Except UrlError String := do
  let u ← Url.split base.toList
  let ps := otherParameters u.query ++ [(codeParameter, (encodeSource source).toList)]
  let path := if u.path.isEmpty then ['/'] else u.path
  return String.ofList { u with path, query := queryText ps }.join

/-- The source in an address, if it carries one. -/
def sourceFromUrl (address : String) : Except LinkError (Option String) := do
  let u ← (Url.split address.toList).mapError .url
  match (parameters u.query).find? fun (name, _) => name = codeParameter with
  | none => return none
  | some (_, value) => return some (← (decodeSource (String.ofList value)).mapError .token)

end Orus.Share
