import FlightScript.Decimal.Reader

/-!
# Numbers in variables

A whole number in a variable is written with the digits `0` to `9` after an optional
plus sign and lies below `2 ^ 64`. It is read from the left, and the first digit at
which it fails decides the error. Other numbers are written as in scripts.
-/

namespace FlightScript

inductive IntegerError where
  | empty
  | invalidDigit
  | tooLarge
  deriving DecidableEq, Repr

namespace IntegerError

def message : IntegerError → String
  | .empty => "cannot parse integer from empty string"
  | .invalidDigit => "invalid digit found in string"
  | .tooLarge => "number too large to fit in target type"

end IntegerError

inductive NumberError where
  | empty
  | invalid
  deriving DecidableEq, Repr

namespace NumberError

def message : NumberError → String
  | .empty => "cannot parse float from empty string"
  | .invalid => "invalid float literal"

end NumberError

namespace Numeral

/-- The least number that is too large. -/
def limit : Nat := twoPow 64

def readDigits (n : Nat) : List Char → Except IntegerError Nat
  | [] => .ok n
  | c :: rest =>
    if !c.isDigit then .error .invalidDigit
    else
      let next := 10 * n + (c.toNat - '0'.toNat)
      if limit ≤ next then .error .tooLarge else readDigits next rest

def readWhole (text : String) : Except IntegerError Nat :=
  match text.toList with
  | [] => .error .empty
  | ['+'] => .error .invalidDigit
  | '+' :: rest => readDigits 0 rest
  | cs => readDigits 0 cs

def readNumber (text : String) : Except NumberError Float :=
  match text.toList with
  | [] => .error .empty
  | cs =>
    match Double.read? cs with
    | some x => .ok x
    | none => .error .invalid

/-- What is read lies below the limit. -/
theorem readDigits_lt {n m : Nat} {cs : List Char} (hn : n < limit)
    (h : readDigits n cs = .ok m) : m < limit := by
  induction cs generalizing n with
  | nil =>
    cases h
    exact hn
  | cons c cs ih =>
    rw [readDigits] at h
    split at h
    · cases h
    · simp only at h
      split at h
      · cases h
      · next hlt => exact ih (by omega) h

example : readWhole "+5" = .ok 5 := rfl
example : readWhole "-" = .error .invalidDigit := rfl
example : readWhole "18446744073709551616x" = .error .tooLarge := rfl

end Numeral

end FlightScript
