import Orus.Syntax.Grammar
import Orus.Token.Scan

/-! # Programs from source text

Parsing a source text gives a tree or the first thing that is wrong with it.
Nesting beyond the limit is one of the things that can be wrong.
-/

namespace Orus.Syntax

/-- The program of a source text, with a bound on its nesting. -/
def parseWithin (depth : Nat) (source : String) : Except Failure Node :=
  match parseTokens depth (Token.scan source) with
  | .error (.fault .tooDeep) => .error (.error ⟨.grammar .nestedTooDeeply, none⟩)
  | result => result

def parse (source : String) : Except Failure Node :=
  parseWithin nestingLimit source

end Orus.Syntax
