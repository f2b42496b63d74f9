/-! # Nesting limit

Reading, running and writing trees recurse with their nesting. How deep they may
go is a number; what is nested deeper is refused instead of walked.
-/

namespace Orus

/-- The levels that reading, running and writing may nest. The language sets no such bound.
The number stands for the stack of the host, which counts frames where levels are counted
here. -/
def nestingLimit : Nat := 1000

end Orus
