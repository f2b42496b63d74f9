/-! # Spans of code points

A class of characters is given by the closed spans of code points it covers,
in ascending order. Membership walks the spans and stops as soon as the code
point lies before the next one.
-/

namespace Orus

/-- The first and last code point of an unbroken run. -/
abbrev Span := Nat × Nat

/-- Whether a code point lies in one of the ascending spans. -/
def Span.covers : List Span → Nat → Bool
  | [], _ => false
  | (lo, hi) :: rest, n => lo ≤ n && (n ≤ hi || Span.covers rest n)

end Orus
