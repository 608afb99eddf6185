import FlightScript.Decimal.Power
import FlightScript.Decimal.Rounding

/-!
# Doubles as fractions and back

A finite double is a sign and a magnitude. The magnitudes are the numbers
`mantissa * 2 ^ exponent` with a mantissa below `2 ^ 53` and an exponent from
`-1074` on, and their bit patterns, read as whole numbers, are in the same order
as their values. `Double.magnitude` reads a pattern, `nearestBits` gives the
pattern of the magnitude nearest to a fraction. A decimal numeral is a
coefficient with a power of ten, and `Decimal.toDouble` is the double nearest to
it.
-/

namespace FlightScript

/-- The number `mantissa * 2 ^ exponent`. -/
structure Dyadic where
  mantissa : Nat
  exponent : Int
  deriving DecidableEq, Repr

namespace Dyadic

def num (d : Dyadic) : Nat :=
  d.mantissa * twoPow d.exponent.toNat

def den (d : Dyadic) : Nat :=
  twoPow (-d.exponent).toNat

theorem den_pos (d : Dyadic) : 0 < d.den :=
  twoPow_pos _

end Dyadic

/-- The number `coefficient * 10 ^ exponent`. -/
structure Decimal where
  coefficient : Nat
  exponent : Int
  deriving DecidableEq, Repr

namespace Decimal

def num (d : Decimal) : Nat :=
  d.coefficient * tenPow d.exponent.toNat

def den (d : Decimal) : Nat :=
  tenPow (-d.exponent).toNat

theorem den_pos (d : Decimal) : 0 < d.den :=
  tenPow_pos _

end Decimal

namespace Double

/-- The bit pattern without its sign. -/
def magnitudeBits (x : Float) : Nat :=
  x.toBits.toNat % twoPow 63

/-- The sign bit is set. It is set for `-0`, too. -/
def isNegative (x : Float) : Bool :=
  twoPow 63 ≤ x.toBits.toNat

/-- The pattern of infinity. The patterns below it are those of the finite
magnitudes. -/
def infinityBits : Nat :=
  2047 * twoPow 52

def magnitudeOfBits (bits : Nat) : Dyadic :=
  if bits < twoPow 52 then ⟨bits, -1074⟩
  else ⟨bits % twoPow 52 + twoPow 52, (bits / twoPow 52 : Nat) - 1075⟩

def magnitude (x : Float) : Dyadic :=
  magnitudeOfBits (magnitudeBits x)

/-- The greatest `p` with `2 ^ p` at most `num / den`, neither being zero. -/
def binaryOrder (num den : Nat) : Int :=
  let p : Int := (Nat.log2 num : Int) - Nat.log2 den
  if den * twoPow p.toNat ≤ num * twoPow (-p).toNat then p else p - 1

/-- The pattern of the magnitude nearest to `num / den`; of two equally near ones
the one with the even mantissa, and infinity beyond the finite ones. A mantissa
that rounds up to `2 ^ 53` runs over into the exponent, as it has to. -/
def nearestBits (num den : Nat) : Nat :=
  if num = 0 then 0
  else
    let exponent := max (binaryOrder num den - 52) (-1074)
    let mantissa := roundDiv .even (num * twoPow (-exponent).toNat) (den * twoPow exponent.toNat)
    min ((exponent + 1074).toNat * twoPow 52 + mantissa) infinityBits

def ofMagnitudeBits (negative : Bool) (bits : Nat) : Float :=
  Float.ofBits (UInt64.ofNat (bits + if negative then twoPow 63 else 0))

def infinity : Float :=
  ofMagnitudeBits false infinityBits

def nan : Float :=
  ofMagnitudeBits false (infinityBits + twoPow 51)

/-- The whole number nearest to a finite double; a half goes away from zero. -/
def roundToInt (x : Float) : Int :=
  let d := magnitude x
  let n : Int := roundDiv .up d.num d.den
  if isNegative x then -n else n

end Double

namespace Decimal

def length (n : Nat) : Nat :=
  (Nat.toDigits 10 n).length

/-- The pattern of the magnitude nearest to a numeral. A numeral that is out of
the range of doubles by its length alone is settled without computing its power
of ten. -/
def nearestBits (d : Decimal) : Nat :=
  let size : Int := length d.coefficient + d.exponent
  if d.coefficient = 0 ∨ size < -400 then 0
  else if 400 < size then Double.infinityBits
  else Double.nearestBits d.num d.den

def toDouble (negative : Bool) (d : Decimal) : Float :=
  Double.ofMagnitudeBits negative d.nearestBits

end Decimal

end FlightScript
