/-!
# Dates

Dates of the Gregorian calendar, continued without end to both sides and with a
year zero. Days are counted from the first of January 1970. For the count the
year begins in March, so that the day that a leap year has more is its last one;
the months from March on then begin after `(153 * m + 2) / 5` days.

`Date.ofDays` undoes `Date.toDays`: it takes whole spans of four hundred years,
one hundred years, four years and one year off the count. Of the last hundred
years of a span of four hundred, and of the last year of a span of four, there
is one day more, which `min` keeps in the span.
-/

namespace FlightScript

structure Date where
  year : Int
  /-- From one on. -/
  month : Nat
  /-- From one on. -/
  day : Nat
  deriving DecidableEq, Repr

namespace Date

def isLeapYear (year : Int) : Bool :=
  year % 4 = 0 && (year % 100 ≠ 0 || year % 400 = 0)

def daysInMonth (year : Int) (month : Nat) : Nat :=
  if month = 2 then if isLeapYear year then 29 else 28
  else if month = 4 ∨ month = 6 ∨ month = 9 ∨ month = 11 then 30
  else 31

def Exists (d : Date) : Prop :=
  1 ≤ d.month ∧ d.month ≤ 12 ∧ 1 ≤ d.day ∧ d.day ≤ daysInMonth d.year d.month

instance (d : Date) : Decidable d.Exists :=
  inferInstanceAs (Decidable (_ ∧ _))

/-- The days from the first of March of year zero to that of a given year. -/
def daysToMarch (year : Int) : Int :=
  365 * year + year / 4 - year / 100 + year / 400

/-- The days from the first of January 1970 to a date. -/
def toDays (d : Date) : Int :=
  let year := if 3 ≤ d.month then d.year else d.year - 1
  let month : Int := if 3 ≤ d.month then (d.month : Int) - 3 else (d.month : Int) + 9
  daysToMarch year + (153 * month + 2) / 5 + ((d.day : Int) - 1) - 719468

def ofDays (days : Int) : Date :=
  let n := days + 719468
  let r := n % 146097
  let century := min (r / 36524) 3
  let r := r - 36524 * century
  let four := r / 1461
  let r := r % 1461
  let one := min (r / 365) 3
  let r := r - 365 * one
  let year := 400 * (n / 146097) + 100 * century + 4 * four + one
  let month := (5 * r + 2) / 153
  let day := r - (153 * month + 2) / 5 + 1
  if month < 10 then ⟨year, (month + 3).toNat, day.toNat⟩
  else ⟨year + 1, (month - 9).toNat, day.toNat⟩

/-- A year of the calendar is as long as the distance of two Marches says. -/
theorem daysToMarch_succ (year : Int) :
    daysToMarch (year + 1) =
      daysToMarch year + (if isLeapYear (year + 1) then 366 else 365) := by
  unfold daysToMarch isLeapYear
  simp only [Bool.and_eq_true, Bool.or_eq_true, decide_eq_true_eq]
  split <;> omega

example : (⟨1970, 1, 1⟩ : Date).toDays = 0 := by decide
example : (⟨2000, 2, 29⟩ : Date).toDays = 11016 := by decide
example : ofDays 11016 = ⟨2000, 2, 29⟩ := by decide
example : ofDays (-719528) = ⟨0, 1, 1⟩ := by decide

end Date

end FlightScript
