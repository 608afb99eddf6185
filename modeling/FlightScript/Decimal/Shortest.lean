import FlightScript.Decimal.Double

/-!
# The shortest numeral of a double

`Double.shortest tie x` is the numeral with the fewest digits whose nearest double
is the magnitude of `x`. On the grid of numerals with a given number of digits
only the two neighbours of the value need to be looked at: if any numeral of the
grid reads back, one of the neighbours does. Where both do, the nearer one is
taken; `tie` decides when both are equally near. Seventeen digits always suffice;
the exact expansion stands behind them, so that the numeral reads back in any
case.
-/

namespace FlightScript

namespace Decimal

/-- The greatest `p` with `10 ^ p` at most `num / den`, neither being zero. -/
def order (num den : Nat) : Int :=
  if den ≤ num then (length (num / den) : Int) - 1
  else -(length ((den + num - 1) / num - 1) : Int)

/-- The numeral without zeros at the end of its coefficient. At most `fuel` zeros
are removed. -/
def trimZeros : Nat → Decimal → Decimal
  | 0, d => d
  | fuel + 1, d =>
    if d.coefficient ≠ 0 ∧ d.coefficient % 10 = 0 then
      trimZeros fuel ⟨d.coefficient / 10, d.exponent + 1⟩
    else d

end Decimal

namespace Dyadic

def toDecimal (d : Dyadic) : Decimal :=
  if 0 ≤ d.exponent then ⟨d.num, 0⟩
  else ⟨d.mantissa * Nat.pow 5 (-d.exponent).toNat, d.exponent⟩

end Dyadic

namespace Double

/-- The neighbours of `num / den` among the whole multiples of `10 ^ exponent`,
the nearer one first. -/
def neighbours (tie : Tie) (num den : Nat) (exponent : Int) : List Decimal :=
  let n := num * tenPow (-exponent).toNat
  let d := den * tenPow exponent.toNat
  let near := roundDiv tie n d
  let far := if near * d ≤ n then near + 1 else near - 1
  [⟨near, exponent⟩, ⟨far, exponent⟩]

/-- The numerals with at most `digits` digits that neighbour a number and read
back as the pattern `bits`. -/
def candidate? (tie : Tie) (bits : Nat) (d : Dyadic) (digits : Nat) : Option Decimal :=
  let exponent := Decimal.order d.num d.den + 1 - digits
  (neighbours tie d.num d.den exponent).find? fun c => c.nearestBits = bits

def shortest (tie : Tie) (x : Float) : Decimal :=
  let bits := magnitudeBits x
  let d := magnitude x
  if d.mantissa = 0 then ⟨0, 0⟩
  else
    let found := (List.range' 1 17).findSome? (candidate? tie bits d)
    Decimal.trimZeros 17 (found.getD d.toDecimal)

end Double

end FlightScript
