import FlightScript.Calendar.Layout
import Mathlib.Tactic.IntervalCases

/-!
# Days, clocks and instants

Every day has one date (`ofDays_toDays`, `toDays_ofDays`). Both ways of the count go through the
year that begins in March and the day in it, `ofMarch year r`, where the days of all the years
before are `daysToMarch year`. Every instant is shown by one clock time
(`toInstant?_ofInstant`, `ofInstant_of_toInstant?`), also in a leap second.
-/

namespace FlightScript

namespace Date

/-- The day with some days of its year before it, where years begin in March. -/
def ofMarch (year r : Int) : Date :=
  let month := (5 * r + 2) / 153
  let day := r - (153 * month + 2) / 5 + 1
  if month < 10 then ⟨year, (month + 3).toNat, day.toNat⟩
  else ⟨year + 1, (month - 9).toNat, day.toNat⟩

/-- The year that begins in March has such a day. -/
def InMarchYear (year r : Int) : Prop :=
  0 ≤ r ∧ (r ≤ 364 ∨ r = 365 ∧ isLeapYear (year + 1))

theorem isLeapYear_iff {year : Int} :
    isLeapYear year ↔ year % 4 = 0 ∧ (year % 100 ≠ 0 ∨ year % 400 = 0) := by
  simp [isLeapYear]

/-! ### Years that begin in March -/

theorem daysToMarch_of_spans {q c f o : Int} (hc : 0 ≤ c ∧ c ≤ 3) (hf : 0 ≤ f ∧ f ≤ 24)
    (ho : 0 ≤ o ∧ o ≤ 3) :
    daysToMarch (400 * q + 100 * c + 4 * f + o) =
      146097 * q + 36524 * c + 1461 * f + 365 * o := by
  unfold daysToMarch
  omega

/-- The spans of years that `ofDays` takes off the count are those of the year. -/
theorem ofDays_of_inMarchYear {year r : Int} (h : InMarchYear year r) :
    ofDays (daysToMarch year + r - 719468) = ofMarch year r := by
  obtain ⟨q, c, f, o, hc, hf, ho, rfl⟩ : ∃ q c f o : Int, (0 ≤ c ∧ c ≤ 3) ∧ (0 ≤ f ∧ f ≤ 24) ∧
      (0 ≤ o ∧ o ≤ 3) ∧ year = 400 * q + 100 * c + 4 * f + o :=
    ⟨year / 400, year % 400 / 100, year % 100 / 4, year % 4, by omega, by omega, by omega, by omega⟩
  obtain ⟨hlow, hhigh⟩ := h
  -- a leap day ends a span of four years, and if that ends a century, one of four hundred
  have hr : r ≤ 364 ∨ r = 365 ∧ o = 3 ∧ (f = 24 → c = 3) := by
    refine hhigh.imp_right fun ⟨hr, hleap⟩ => ⟨hr, ?_⟩
    rw [isLeapYear_iff] at hleap
    omega
  have hdays : daysToMarch (400 * q + 100 * c + 4 * f + o) + r - 719468 + 719468 =
      146097 * q + (36524 * c + (1461 * f + (365 * o + r))) := by
    rw [daysToMarch_of_spans hc hf ho]
    omega
  have hq : (146097 * q + (36524 * c + (1461 * f + (365 * o + r)))) / 146097 = q ∧
      (146097 * q + (36524 * c + (1461 * f + (365 * o + r)))) % 146097 =
        36524 * c + (1461 * f + (365 * o + r)) := by omega
  have hcentury : min ((36524 * c + (1461 * f + (365 * o + r))) / 36524) 3 = c := by omega
  have hfour : (1461 * f + (365 * o + r)) / 1461 = f ∧
      (1461 * f + (365 * o + r)) % 1461 = 365 * o + r := by omega
  have hone : min ((365 * o + r) / 365) 3 = o := by omega
  have hrest : ∀ a b : Int, a + b - a = b := by omega
  simp only [ofDays, hdays, hq, hcentury, hrest, hfour, hone]
  rfl

/-- Every day is one of a year that begins in March. -/
theorem exists_inMarchYear (days : Int) :
    ∃ year r, InMarchYear year r ∧ days = daysToMarch year + r - 719468 := by
  obtain ⟨q, s, hs, hdays⟩ : ∃ q s : Int, (0 ≤ s ∧ s < 146097) ∧ days + 719468 = 146097 * q + s :=
    ⟨(days + 719468) / 146097, (days + 719468) % 146097, by omega, by omega⟩
  obtain ⟨c, t, hc, ht, rfl⟩ : ∃ c t : Int, (0 ≤ c ∧ c ≤ 3) ∧
      (0 ≤ t ∧ (t < 36524 ∨ t = 36524 ∧ c = 3)) ∧ s = 36524 * c + t :=
    ⟨min (s / 36524) 3, s - 36524 * min (s / 36524) 3, by omega, by omega, by omega⟩
  obtain ⟨f, u, hf, hu, rfl⟩ : ∃ f u : Int, (0 ≤ f ∧ f ≤ 24) ∧ (0 ≤ u ∧ u < 1461) ∧
      t = 1461 * f + u := ⟨t / 1461, t % 1461, by omega, by omega, by omega⟩
  obtain ⟨o, r, ho, hr, rfl⟩ : ∃ o r : Int, (0 ≤ o ∧ o ≤ 3) ∧
      (0 ≤ r ∧ (r < 365 ∨ r = 365 ∧ o = 3)) ∧ u = 365 * o + r :=
    ⟨min (u / 365) 3, u - 365 * min (u / 365) 3, by omega, by omega, by omega⟩
  refine ⟨400 * q + 100 * c + 4 * f + o, r, ⟨hr.1, ?_⟩, ?_⟩
  · rw [isLeapYear_iff]
    omega
  · rw [daysToMarch_of_spans hc hf ho]
    omega

/-! ### Dates of such years -/

theorem ofMarch_of_lt {year r : Int} (h : (5 * r + 2) / 153 < 10) :
    ofMarch year r =
      ⟨year, ((5 * r + 2) / 153 + 3).toNat, (r - (153 * ((5 * r + 2) / 153) + 2) / 5 + 1).toNat⟩ :=
  if_pos h

theorem ofMarch_of_not_lt {year r : Int} (h : ¬ (5 * r + 2) / 153 < 10) :
    ofMarch year r = ⟨year + 1, ((5 * r + 2) / 153 - 9).toNat,
      (r - (153 * ((5 * r + 2) / 153) + 2) / 5 + 1).toNat⟩ :=
  if_neg h

theorem toDays_ofMarch {year r : Int} (h : InMarchYear year r) :
    (ofMarch year r).toDays = daysToMarch year + r - 719468 := by
  obtain ⟨hlow, hhigh⟩ := h
  by_cases hmonth : (5 * r + 2) / 153 < 10
  · have hmarch : 3 ≤ ((5 * r + 2) / 153 + 3).toNat := by omega
    simp only [ofMarch_of_lt hmonth, toDays, if_pos hmarch]
    omega
  · have hmarch : ¬ 3 ≤ ((5 * r + 2) / 153 - 9).toNat := by omega
    simp only [ofMarch_of_not_lt hmonth, toDays, if_neg hmarch, Int.add_sub_cancel]
    omega

theorem exists_ofMarch {year r : Int} (h : InMarchYear year r) : (ofMarch year r).Exists := by
  obtain ⟨hlow, hhigh⟩ := h
  rw [isLeapYear_iff] at hhigh
  by_cases hmonth : (5 * r + 2) / 153 < 10
  · simp only [ofMarch_of_lt hmonth, Exists, daysInMonth]
    split
    · omega
    · split <;> omega
  · simp only [ofMarch_of_not_lt hmonth, Exists, daysInMonth, isLeapYear_iff]
    split
    · split <;> omega
    · split <;> omega

/-- Every date is one of a year that begins in March. -/
theorem Exists.eq_ofMarch {d : Date} (h : d.Exists) :
    ∃ year r, InMarchYear year r ∧ d = ofMarch year r := by
  obtain ⟨year, month, day⟩ := d
  obtain ⟨hlow, hhigh, hfirst, hlast⟩ := h
  simp only at hlow hhigh hfirst hlast
  by_cases hmarch : 3 ≤ month
  · -- month by month, as the month comes back from its first day by two divisions
    have hr : (5 * ((153 * ((month : Int) - 3) + 2) / 5 + (day - 1)) + 2) / 153 = month - 3 := by
      simp only [daysInMonth] at hlast
      interval_cases month <;> simp at hlast ⊢ <;> omega
    refine ⟨year, (153 * ((month : Int) - 3) + 2) / 5 + (day - 1), ⟨by omega, by omega⟩, ?_⟩
    rw [ofMarch_of_lt (by omega), hr, Date.mk.injEq]
    omega
  · obtain rfl | rfl : month = 1 ∨ month = 2 := by omega
    · have hday : day ≤ 31 := hlast
      have hr : (5 * (306 + ((day : Int) - 1)) + 2) / 153 = 10 := by omega
      refine ⟨year - 1, 306 + (day - 1), ⟨by omega, by omega⟩, ?_⟩
      rw [ofMarch_of_not_lt (by omega), hr, Date.mk.injEq]
      omega
    · have hday : day ≤ 28 ∨ day = 29 ∧ isLeapYear year := by
        simp only [daysInMonth, if_true] at hlast
        split at hlast
        · next hleap =>
            simp only [hleap, and_true]
            omega
        · exact Or.inl hlast
      have hr : (5 * (337 + ((day : Int) - 1)) + 2) / 153 = 11 := by omega
      refine ⟨year - 1, 337 + (day - 1), ⟨by omega, ?_⟩, ?_⟩
      · rw [Int.sub_add_cancel]
        exact hday.imp (by omega) (And.imp_left (by omega))
      · rw [ofMarch_of_not_lt (by omega), hr, Date.mk.injEq]
        omega

theorem toDays_ofDays (days : Int) : (ofDays days).toDays = days := by
  obtain ⟨year, r, hin, rfl⟩ := exists_inMarchYear days
  rw [ofDays_of_inMarchYear hin, toDays_ofMarch hin]

theorem exists_ofDays (days : Int) : (ofDays days).Exists := by
  obtain ⟨year, r, hin, rfl⟩ := exists_inMarchYear days
  rw [ofDays_of_inMarchYear hin]
  exact exists_ofMarch hin

theorem ofDays_toDays {d : Date} (h : d.Exists) : ofDays d.toDays = d := by
  obtain ⟨year, r, hin, rfl⟩ := h.eq_ofMarch
  rw [toDays_ofMarch hin, ofDays_of_inMarchYear hin]

theorem Exists.day_le {d : Date} (h : d.Exists) : d.day ≤ 31 := by
  refine Nat.le_trans h.2.2.2 ?_
  unfold daysInMonth
  split <;> split <;> decide

/-- The days of years of four digits, by far. -/
theorem toDays_bounds {d : Date} (h : d.Exists) (hyear : 0 ≤ d.year ∧ d.year ≤ 9999) :
    -1000000 ≤ d.toDays ∧ d.toDays ≤ 10000000 := by
  have hday := h.day_le
  obtain ⟨hlow, hhigh, hfirst, hlast⟩ := h
  simp only [toDays, daysToMarch]
  split <;> omega

end Date

namespace CivilTime

variable {c : CivilTime} {i : Instant}

theorem exists_ofInstant (i : Instant) : (ofInstant i).Exists := by
  obtain ⟨-, hnanos, hminute⟩ := i.isInstant
  refine ⟨Date.exists_ofDays _, ?_⟩
  simp only [ofInstant, Instant.secondsPerDay, Instant.nanosPerSecond] at *
  omega

/-- A clock that shows the time of an instant shows it at that instant. -/
theorem toInstant?_ofInstant (i : Instant) : (ofInstant i).toInstant? 0 = some i := by
  obtain ⟨-, hnanos, hminute⟩ := i.isInstant
  rw [toInstant?, if_pos (exists_ofInstant i), Instant.ofParts?_eq_some_iff]
  have hsecond : (ofInstant i).second =
      (i.seconds % Instant.secondsPerDay).toNat % 60 + i.nanos / Instant.nanosPerSecond := rfl
  by_cases hleap : (ofInstant i).second = 60
  · rw [if_pos hleap]
    simp only [ofInstant, Date.toDays_ofDays, Instant.secondsPerDay, Instant.nanosPerSecond] at *
    omega
  · rw [if_neg hleap]
    simp only [ofInstant, Date.toDays_ofDays, Instant.secondsPerDay, Instant.nanosPerSecond] at *
    omega

/-- At the instant of a clock time the clock shows that time. -/
theorem ofInstant_of_toInstant? (h : c.toInstant? 0 = some i)
    (hnanos : c.nanos < Instant.nanosPerSecond) : ofInstant i = c := by
  rw [toInstant?, Option.ite_none_right_eq_some] at h
  obtain ⟨⟨hdate, hhour, hminute, hsecond⟩, hi⟩ := h
  obtain ⟨hseconds, hpart⟩ := (Instant.ofParts?_eq_some_iff _ _ _).1 hi
  obtain ⟨date, hour, minute, second, nanos⟩ := c
  simp only [Instant.secondsPerDay, Instant.nanosPerSecond] at *
  have hday : i.seconds / 86400 = date.toDays := by omega
  have htime : (i.seconds % 86400).toNat = hour * 3600 + minute * 60 + min second 59 := by omega
  rw [ofInstant, Instant.secondsPerDay, Instant.nanosPerSecond, hday, htime,
    Date.ofDays_toDays hdate, hpart, mk.injEq]
  by_cases hleap : second = 60
  · rw [if_pos hleap]
    exact ⟨rfl, by omega⟩
  · rw [if_neg hleap]
    exact ⟨rfl, by omega⟩

/-- Clocks show instants in all years of four digits. -/
theorem exists_toInstant? (h : c.Exists) (hyear : 0 ≤ c.date.year ∧ c.date.year ≤ 9999)
    (hnanos : c.nanos < Instant.nanosPerSecond) : ∃ i, c.toInstant? 0 = some i := by
  have hdays := Date.toDays_bounds h.1 hyear
  have hfirst : Instant.firstSecond = -8334601228800 := by decide
  have hlast : Instant.lastSecond = 8210266876799 := by decide
  rw [toInstant?, if_pos h, ← Option.isSome_iff_exists, Instant.ofParts?, dif_pos]
  · rfl
  · obtain ⟨hdate, hhour, hminute, hsecond⟩ := h
    simp only [Instant.IsInstant, hfirst, hlast, Instant.secondsPerDay, Instant.nanosPerSecond] at *
    by_cases hleap : c.second = 60
    · rw [if_pos hleap]
      omega
    · rw [if_neg hleap]
      omega

end CivilTime

end FlightScript
