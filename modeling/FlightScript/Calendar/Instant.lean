import FlightScript.Calendar.Date

/-!
# Instants

An instant is a number of seconds since the beginning of 1970 and a number of
nanoseconds. A leap second has no number of its own: it is the second before it
with `10 ^ 9` nanoseconds or more, and it can only follow the last second of a
minute. Instants reach from the first day of the year -262143 to the last of the
year 262142.

`Instant.shift?` moves an instant by whole milliseconds. Outside leap seconds this
is addition. An interval that leaves a leap second counts from the second after
it when it goes back and from the second before it when it goes forward; a part
of a second that stays within it stays at its second.
-/

namespace FlightScript

namespace Instant

def nanosPerSecond : Nat := 1000000000

def secondsPerDay : Int := 86400

def firstSecond : Int := (⟨-262143, 1, 1⟩ : Date).toDays * secondsPerDay

def lastSecond : Int := ((⟨262142, 12, 31⟩ : Date).toDays + 1) * secondsPerDay - 1

/-- The parts belong to an instant. -/
def IsInstant (seconds : Int) (nanos : Nat) : Prop :=
  (firstSecond ≤ seconds ∧ seconds ≤ lastSecond) ∧
    nanos < 2 * nanosPerSecond ∧ (nanosPerSecond ≤ nanos → seconds % 60 = 59)

instance (seconds : Int) (nanos : Nat) : Decidable (IsInstant seconds nanos) :=
  inferInstanceAs (Decidable (_ ∧ _))

end Instant

/-- A moment to the nanosecond. -/
structure Instant where
  /-- Seconds since the beginning of 1970. -/
  seconds : Int
  /-- Nanoseconds in the second; `10 ^ 9` and more in the leap second after it. -/
  nanos : Nat
  isInstant : Instant.IsInstant seconds nanos
  deriving DecidableEq

namespace Instant

def ofParts? (seconds : Int) (nanos : Nat) : Option Instant :=
  if h : IsInstant seconds nanos then some ⟨seconds, nanos, h⟩ else none

theorem ofParts?_eq_some_iff (seconds : Int) (nanos : Nat) (i : Instant) :
    ofParts? seconds nanos = some i ↔ i.seconds = seconds ∧ i.nanos = nanos := by
  unfold ofParts?
  split
  · next h =>
    rw [Option.some.injEq]
    constructor
    · rintro rfl
      exact ⟨rfl, rfl⟩
    · rintro ⟨rfl, rfl⟩
      rfl
  · next h =>
    constructor
    · intro hn
      exact absurd hn (by simp)
    · rintro ⟨rfl, rfl⟩
      exact absurd i.isInstant h

@[simp] theorem ofParts?_self (i : Instant) : ofParts? i.seconds i.nanos = some i :=
  (ofParts?_eq_some_iff _ _ i).2 ⟨rfl, rfl⟩

/-- The instant lies in a leap second. -/
def isLeap (i : Instant) : Bool :=
  nanosPerSecond ≤ i.nanos

/-- Seconds and nanoseconds with the nanoseconds brought below one second. They
are at most one second out on either side. -/
def carry (seconds nanos : Int) : Int × Nat :=
  if nanos < 0 then (seconds - 1, (nanos + nanosPerSecond).toNat)
  else if (nanosPerSecond : Int) ≤ nanos then (seconds + 1, (nanos - nanosPerSecond).toNat)
  else (seconds, nanos.toNat)

def shiftParts (i : Instant) (millis : Int) : Int × Nat :=
  let whole := millis.tdiv 1000
  let part := millis.tmod 1000 * 1000000
  if i.isLeap then
    if 0 < whole ∨ (0 < part ∧ 2 * (nanosPerSecond : Int) ≤ i.nanos + part) then
      carry (i.seconds + whole) (i.nanos - nanosPerSecond + part)
    else if whole < 0 then
      carry (i.seconds + 1 + whole) (i.nanos - nanosPerSecond + part)
    else (i.seconds, (i.nanos + part).toNat)
  else carry (i.seconds + whole) (i.nanos + part)

/-- The instant after a number of milliseconds, if the calendar reaches it. -/
def shift? (i : Instant) (millis : Int) : Option Instant :=
  let parts := i.shiftParts millis
  ofParts? parts.1 parts.2

example : firstSecond = -8334601228800 := by decide
example : lastSecond = 8210266876799 := by decide

end Instant

end FlightScript
