import FlightScript.Decimal.Shortest

/-!
# The texts of a double

A double is written in three ways. `plain` is its shortest numeral without any
power of ten and without a point where none is needed; values are shown in this
form. `scientific` is its shortest numeral with a point in any case, and with a
power of ten outside the range from `1e-5` to `1e16`; this is how numbers stand
in structured output. `fixed` has a given number of places after the point and
rounds the exact value to them. The sign of a negative zero is written in all
three.
-/

namespace FlightScript

def zeros (n : Nat) : List Char :=
  List.replicate n '0'

namespace Decimal

/-- The digits of a numeral with a point after the first `size` of them; zeros
fill the places between the digits and the point. -/
def positional (digits : List Char) (size : Int) : List Char × List Char :=
  if size ≤ 0 then (['0'], zeros (-size).toNat ++ digits)
  else (digits.take size.toNat ++ zeros (size.toNat - digits.length), digits.drop size.toNat)

/-- The numeral without a power of ten; a point stands only before digits. -/
def plain (d : Decimal) : List Char :=
  let digits := Nat.toDigits 10 d.coefficient
  let (whole, fraction) := positional digits (digits.length + d.exponent)
  if fraction = [] then whole else whole ++ '.' :: fraction

/-- The numeral with a point in any case, or with a power of ten when the first
digit stands before the fifth place after the point or beyond the sixteenth place
before it. -/
def scientific (d : Decimal) : List Char :=
  let digits := Nat.toDigits 10 d.coefficient
  let size : Int := digits.length + d.exponent
  if -5 < size ∧ size ≤ 16 then
    let (whole, fraction) := positional digits size
    whole ++ '.' :: (if fraction = [] then ['0'] else fraction)
  else
    let mark := if 0 < size then ['e', '+'] else ['e', '-']
    let power := Nat.toDigits 10 (size - 1).natAbs
    match digits with
    | [] => []
    | [c] => c :: mark ++ power
    | c :: rest => c :: '.' :: rest ++ mark ++ power

end Decimal

namespace Double

/-- The text of a number: the names of what is not finite, and the sign before
the text of a finite magnitude. -/
def withSign (x : Float) (magnitudeText : List Char) : String :=
  if x.isNaN then "NaN"
  else
    let body := if x.isFinite then magnitudeText else "inf".toList
    String.ofList (if isNegative x then '-' :: body else body)

/-- The shortest text without a power of ten. Of two equally near shortest
numerals the greater one is taken. -/
def plain (x : Float) : String :=
  withSign x (shortest .up x).plain

/-- The shortest text with a power of ten for what is very large or very small.
Of two equally near shortest numerals the even one is taken. -/
def scientific (x : Float) : String :=
  withSign x (shortest .even x).scientific

/-- The text with a fixed number of places, at least one. An exact half goes to
the even neighbour. -/
def fixed (places : Nat) (x : Float) : String :=
  let d := magnitude x
  let digits := Nat.toDigits 10 (roundDiv .even (d.num * tenPow places) d.den)
  let padded := zeros (places + 1 - digits.length) ++ digits
  let whole := padded.length - places
  withSign x (padded.take whole ++ '.' :: padded.drop whole)

example : plain 0.1 = "0.1" := by decide +kernel
example : plain 7000 = "7000" := by decide +kernel
example : plain (-0.0) = "-0" := by decide +kernel
example : plain 1e-7 = "0.0000001" := by decide +kernel
example : scientific 1e16 = "1e+16" := by decide +kernel
example : scientific 7000 = "7000.0" := by decide +kernel
example : scientific 1.5e-9 = "1.5e-9" := by decide +kernel
example : fixed 6 (-0.0) = "-0.000000" := by decide +kernel
example : fixed 1 0.25 = "0.2" := by decide +kernel

end Double

end FlightScript
