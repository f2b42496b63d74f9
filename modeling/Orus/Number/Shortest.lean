import Orus.Number.Decimal

/-! # The shortest decimal that reads back

Among the decimals that read back as a given Number, the ones with the fewest
digits, and of those the one nearest to it. On a grid of decimals with a fixed
number of digits only the two neighbours of the Number can be that one.
-/

namespace Orus.Number

/-- Climbs from a lower bound to the least `p` with `num / den < 10 ^ p`. -/
def climb (num den : Nat) : Nat → Int → Int
  | 0, p => p
  | n + 1, p =>
    if num * Nat.pow 10 (-p).toNat < den * Nat.pow 10 p.toNat then p else climb num den n (p + 1)

/-- The place of the decimal point: the least `p` with `num / den < 10 ^ p`. -/
def pointPlace (num den : Nat) : Int :=
  let k : Int := (num.log2 : Int) - den.log2 - 1
  climb num den 4 (k * 30103 / 100000)

def exactDecimal (x : Float) : Decimal :=
  let (m, e) := decode x
  if 0 ≤ e then ⟨m * Nat.pow 2 e.toNat, 0⟩ else ⟨m * Nat.pow 5 (-e).toNat, e⟩

/-- The nearer of the two neighbours on the grid of `10 ^ k` that read back as the
magnitude pattern; the even one when both are as near. -/
def neighbour? (bits num den : Nat) (k : Int) : Option Decimal :=
  let a := num * Nat.pow 10 (-k).toNat
  let b := den * Nat.pow 10 k.toNat
  let low : Decimal := ⟨a / b, k⟩
  let high : Decimal := ⟨a / b + 1, k⟩
  let r := 2 * (a % b)
  let lowFirst := decide (r < b) || (decide (r = b) && low.digits % 2 == 0)
  let choices := if lowFirst then [low, high] else [high, low]
  choices.find? fun d => d.toBits == bits

/-- Tries grids of one digit more each time. -/
def searchGrids (bits num den : Nat) (p : Int) : (tries digits : Nat) → Option Decimal
  | 0, _ => none
  | n + 1, digits =>
    match neighbour? bits num den (p - digits) with
    | some d => some d
    | none => searchGrids bits num den p n (digits + 1)

def shortest (x : Float) : Decimal :=
  let (num, den) := ratio x
  if num = 0 then ⟨0, 0⟩
  else (searchGrids (magnitudeBits x) num den (pointPlace num den) 17 1).getD (exactDecimal x)

end Orus.Number
