import FlightScript.Decimal.Double

/-!
# Reading a number

A number is written as an optional sign followed by digits with an optional point
among or beside them and an optional power of ten, or by one of the names `inf`,
`infinity` and `nan` in any case. At least one digit stands before or after the
point; only the digits `0` to `9` count, and nothing else may stand in the text,
no blank either. The number read is the double nearest to what is written.
-/

namespace FlightScript

namespace Decimal

def natOfDigits (cs : List Char) : Nat :=
  cs.foldl (fun n c => 10 * n + (c.toNat - '0'.toNat)) 0

/-- The power of ten at the end of a number: nothing, or the letter `e`, an
optional sign and digits. -/
def readExponent? : List Char → Option Int
  | [] => some 0
  | c :: rest =>
    if c = 'e' ∨ c = 'E' then
      let (negative, digits) : Bool × List Char :=
        match rest with
        | '-' :: ds => (true, ds)
        | '+' :: ds => (false, ds)
        | ds => (false, ds)
      if digits ≠ [] ∧ digits.all Char.isDigit then
        let n : Int := natOfDigits digits
        some (if negative then -n else n)
      else none
    else none

def read? (cs : List Char) : Option Decimal :=
  let whole := cs.takeWhile Char.isDigit
  let (fraction, rest) : List Char × List Char :=
    match cs.dropWhile Char.isDigit with
    | '.' :: tail => (tail.takeWhile Char.isDigit, tail.dropWhile Char.isDigit)
    | tail => ([], tail)
  if whole ++ fraction = [] then none
  else
    (readExponent? rest).map fun e =>
      ⟨natOfDigits (whole ++ fraction), e - fraction.length⟩

end Decimal

namespace Double

def readUnsigned? (negative : Bool) (cs : List Char) : Option Float :=
  let name := cs.map Char.toLower
  if name = "inf".toList ∨ name = "infinity".toList then
    some (ofMagnitudeBits negative infinityBits)
  else if name = "nan".toList then some nan
  else (Decimal.read? cs).map (Decimal.toDouble negative)

def read? : List Char → Option Float
  | '-' :: cs => readUnsigned? true cs
  | '+' :: cs => readUnsigned? false cs
  | cs => readUnsigned? false cs

@[simp] theorem read?_nil : read? [] = none := by
  decide

end Double

end FlightScript
