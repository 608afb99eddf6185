import FlightScript.Calendar.Instant

/-!
# Moving instants

An instant has a number of nanoseconds since the beginning of 1970. Moving it adds to that number
(`shift?_eq_some_iff`), and can be done just if the calendar reaches so far
(`isSome_shift?_iff`). Only a leap second that is left going forward is not counted.
-/

namespace FlightScript

namespace Instant

variable {i j : Instant} {millis : Int}

/-- Nanoseconds since the beginning of 1970. A leap second runs on into the second after it. -/
def ticks (i : Instant) : Int :=
  i.seconds * nanosPerSecond + i.nanos

/-- The nanoseconds from the second of an instant to the end of an interval. -/
def offset (i : Instant) (millis : Int) : Int :=
  i.nanos + millis * 1000000

/-- The interval ends in the leap second that it began in. -/
def StaysInLeap (i : Instant) (millis : Int) : Prop :=
  i.isLeap ∧ nanosPerSecond ≤ i.offset millis ∧ i.offset millis < 2 * nanosPerSecond

/-- The interval leaves the leap second that it began in, going forward. -/
def LeavesLeap (i : Instant) (millis : Int) : Prop :=
  i.isLeap ∧ 2 * nanosPerSecond ≤ i.offset millis

instance (i : Instant) (millis : Int) : Decidable (i.LeavesLeap millis) :=
  inferInstanceAs (Decidable (_ ∧ _))

def ticksAfter (i : Instant) (millis : Int) : Int :=
  if i.LeavesLeap millis then i.ticks + millis * 1000000 - nanosPerSecond
  else i.ticks + millis * 1000000

/-- The nanoseconds are those of a day of the calendar. -/
def InCalendar (ticks : Int) : Prop :=
  firstSecond * nanosPerSecond ≤ ticks ∧ ticks < (lastSecond + 1) * nanosPerSecond

/-- The calendar reaches to the end of an interval. -/
def Reaches (i : Instant) (millis : Int) : Prop :=
  i.StaysInLeap millis ∨ InCalendar (i.ticksAfter millis)

theorem carry_spec (seconds : Int) {nanos : Int} (hlow : -(nanosPerSecond : Int) ≤ nanos)
    (hhigh : nanos < 2 * nanosPerSecond) :
    (carry seconds nanos).1 * nanosPerSecond + (carry seconds nanos).2 =
        seconds * nanosPerSecond + nanos ∧
      (carry seconds nanos).2 < nanosPerSecond := by
  unfold carry
  by_cases hneg : nanos < 0
  · rw [if_pos hneg]
    simp only [nanosPerSecond] at *
    omega
  · by_cases hsecond : (nanosPerSecond : Int) ≤ nanos
    · rw [if_neg hneg, if_pos hsecond]
      simp only [nanosPerSecond] at *
      omega
    · rw [if_neg hneg, if_neg hsecond]
      simp only [nanosPerSecond] at *
      omega

/-- The whole seconds of an interval and the rest have the sign of the interval. -/
theorem tdiv_tmod_cases (millis : Int) :
    1000 * millis.tdiv 1000 + millis.tmod 1000 = millis ∧
      ((0 ≤ millis.tdiv 1000 ∧ 0 ≤ millis.tmod 1000 ∧ millis.tmod 1000 < 1000) ∨
        (millis.tdiv 1000 ≤ 0 ∧ -1000 < millis.tmod 1000 ∧ millis.tmod 1000 ≤ 0)) := by
  refine ⟨Int.mul_tdiv_add_tmod millis 1000, ?_⟩
  rcases Int.le_total 0 millis with h | h
  · rw [Int.tdiv_eq_ediv_of_nonneg h, Int.tmod_eq_emod_of_nonneg h]
    omega
  · have hneg : 0 ≤ -millis := by omega
    have hdiv := Int.neg_tdiv (-millis) 1000
    have hmod := Int.neg_tmod (-millis) 1000
    rw [Int.neg_neg, Int.tdiv_eq_ediv_of_nonneg hneg] at hdiv
    rw [Int.neg_neg, Int.tmod_eq_emod_of_nonneg hneg] at hmod
    omega

theorem isLeap_iff : i.isLeap ↔ nanosPerSecond ≤ i.nanos :=
  decide_eq_true_iff

/-- Outside a leap second the parts of the instant after an interval have the nanoseconds of the
interval more. -/
theorem shiftParts_spec_of_not_isLeap (h : ¬ i.isLeap) (millis : Int) :
    (i.shiftParts millis).1 * nanosPerSecond + (i.shiftParts millis).2 =
        i.ticks + millis * 1000000 ∧
      (i.shiftParts millis).2 < nanosPerSecond := by
  obtain ⟨hsum, hsign⟩ := tdiv_tmod_cases millis
  have hnanos : i.nanos < nanosPerSecond := Nat.lt_of_not_le (mt isLeap_iff.2 h)
  have hsecond : nanosPerSecond = 1000000000 := rfl
  have hlow : -(nanosPerSecond : Int) ≤ i.nanos + millis.tmod 1000 * 1000000 := by omega
  have hhigh : i.nanos + millis.tmod 1000 * 1000000 < 2 * (nanosPerSecond : Int) := by omega
  have hcarry := carry_spec (i.seconds + millis.tdiv 1000) hlow hhigh
  unfold shiftParts ticks
  rw [if_neg h]
  simp only [nanosPerSecond] at *
  omega

/-- In a leap second the interval may end in it, too. If it leaves it going forward, the second
after it counts as the one that has passed. -/
theorem shiftParts_spec_of_isLeap (h : i.isLeap) (millis : Int) :
    (i.shiftParts millis).1 * nanosPerSecond + (i.shiftParts millis).2 = i.ticksAfter millis ∧
      (i.StaysInLeap millis ∧ (i.shiftParts millis).1 = i.seconds ∧
          ((i.shiftParts millis).2 : Int) = i.offset millis ∨
        ¬ i.StaysInLeap millis ∧ (i.shiftParts millis).2 < nanosPerSecond) := by
  obtain ⟨hsum, hsign⟩ := tdiv_tmod_cases millis
  have hnanos := i.isInstant.2.1
  have hin := isLeap_iff.1 h
  unfold shiftParts ticksAfter
  simp only [LeavesLeap, StaysInLeap, ticks, offset, h, true_and, if_true]
  generalize millis.tdiv 1000 = whole at *
  generalize millis.tmod 1000 = part at *
  subst hsum
  have hsecond : nanosPerSecond = 1000000000 := rfl
  have hleaves : (0 < whole ∨ (0 < part * 1000000 ∧
        2 * (nanosPerSecond : Int) ≤ i.nanos + part * 1000000)) ↔
      2 * (nanosPerSecond : Int) ≤ i.nanos + (1000 * whole + part) * 1000000 := by omega
  have hlow : -(nanosPerSecond : Int) ≤ i.nanos - nanosPerSecond + part * 1000000 := by omega
  have hhigh : i.nanos - nanosPerSecond + part * 1000000 < 2 * (nanosPerSecond : Int) := by
    omega
  simp only [hleaves]
  by_cases hforth : 2 * (nanosPerSecond : Int) ≤ i.nanos + (1000 * whole + part) * 1000000
  · have hcarry := carry_spec (i.seconds + whole) hlow hhigh
    rw [if_pos hforth, if_pos hforth]
    simp only [nanosPerSecond] at *
    omega
  · rw [if_neg hforth, if_neg hforth]
    by_cases hback : whole < 0
    · have hcarry := carry_spec (i.seconds + 1 + whole) hlow hhigh
      rw [if_pos hback]
      simp only [nanosPerSecond] at *
      omega
    · rw [if_neg hback]
      simp only [nanosPerSecond, true_and] at *
      omega

/-- Outside a leap second the nanoseconds change by those of the interval. -/
theorem ticksAfter_of_not_isLeap (h : ¬ i.isLeap) (millis : Int) :
    i.ticksAfter millis = i.ticks + millis * 1000000 :=
  if_neg fun hleaves => h hleaves.1

/-- The parts of the instant after an interval have the right number of nanoseconds, and they
are those of a leap second just if the interval ends in the one that it began in. -/
theorem shiftParts_spec (i : Instant) (millis : Int) :
    (i.shiftParts millis).1 * nanosPerSecond + (i.shiftParts millis).2 = i.ticksAfter millis ∧
      (i.StaysInLeap millis ∧ (i.shiftParts millis).1 = i.seconds ∧
          ((i.shiftParts millis).2 : Int) = i.offset millis ∨
        ¬ i.StaysInLeap millis ∧ (i.shiftParts millis).2 < nanosPerSecond) := by
  by_cases h : i.isLeap
  · exact shiftParts_spec_of_isLeap h millis
  · obtain ⟨hticks, hlt⟩ := shiftParts_spec_of_not_isLeap h millis
    exact ⟨hticks.trans (ticksAfter_of_not_isLeap h millis).symm,
      Or.inr ⟨fun hstays => h hstays.1, hlt⟩⟩

/-- The instant after an interval is the one with the right number of nanoseconds; it lies in a
leap second just if the interval ends in the one that it began in. -/
theorem shift?_eq_some_iff :
    i.shift? millis = some j ↔
      j.ticks = i.ticksAfter millis ∧ (j.isLeap ↔ i.StaysInLeap millis) := by
  obtain ⟨hticks, hleap⟩ := i.shiftParts_spec millis
  have hnanos := j.isInstant.2.1
  rw [shift?, ofParts?_eq_some_iff, isLeap_iff, ← hticks, ticks]
  generalize i.shiftParts millis = parts at *
  rcases hleap with ⟨hstays, -, hoffset⟩ | ⟨hstays, hlt⟩
  · have ⟨_, hlow, hhigh⟩ := hstays
    simp only [hstays, iff_true, nanosPerSecond] at *
    omega
  · simp only [hstays, iff_false, nanosPerSecond] at *
    omega

theorem isSome_ofParts?_iff {seconds : Int} {nanos : Nat} :
    (ofParts? seconds nanos).isSome ↔ IsInstant seconds nanos := by
  unfold ofParts?
  split
  · next h => exact iff_of_true rfl h
  · next h => exact iff_of_false Bool.false_ne_true h

/-- An instant can be moved just if the calendar reaches so far. -/
theorem isSome_shift?_iff : (i.shift? millis).isSome ↔ i.Reaches millis := by
  obtain ⟨hticks, hleap⟩ := i.shiftParts_spec millis
  obtain ⟨hrange, -, hminute⟩ := i.isInstant
  rw [shift?, isSome_ofParts?_iff, IsInstant, Reaches, InCalendar, ← hticks]
  generalize i.shiftParts millis = parts at *
  rcases hleap with ⟨hstays, hfirst, hoffset⟩ | ⟨hstays, hlt⟩
  · have ⟨hin, _, hhigh⟩ := hstays
    have hminute : i.seconds % 60 = 59 := hminute (isLeap_iff.1 hin)
    simp only [hstays, hfirst, true_or, iff_true]
    exact ⟨hrange, by omega, fun _ => hminute⟩
  · simp only [hstays, false_or, nanosPerSecond] at *
    omega

/-- Outside a leap second the calendar reaches to the end of an interval just if it holds the
nanosecond there. -/
theorem reaches_iff_of_not_isLeap (h : ¬ i.isLeap) (millis : Int) :
    i.Reaches millis ↔ InCalendar (i.ticks + millis * 1000000) := by
  rw [Reaches, ticksAfter_of_not_isLeap h, or_iff_right fun hstays => h hstays.1]

/-- A part of a millisecond is left alone. -/
theorem nanos_mod_of_ticks_eq (h : j.ticks = i.ticksAfter millis) :
    j.nanos % 1000000 = i.nanos % 1000000 := by
  unfold ticksAfter at h
  simp only [ticks, nanosPerSecond] at h
  split at h <;> omega

end Instant

end FlightScript
