import Orus.Number.Rounding

/-! # The remainder of a truncated division

`x - y * n` with `n` the quotient without its fraction. The remainder of two
Numbers is a Number, has the sign of the dividend and needs no rounding.
-/

namespace Orus.Number

/-- The remainder of `x` by a nonzero `y`; `none` when `x` is infinite. -/
def remainder? (x y : Float) : Option Float :=
  if x.isNaN || y.isNaN then some notANumber
  else if x.isInf then none
  else if y.isInf then some x
  else
    let (a, b) := ratio x
    let (c, d) := ratio y
    some (ofRatio (isNegative x) (a * d % (c * b)) (b * d))

end Orus.Number
