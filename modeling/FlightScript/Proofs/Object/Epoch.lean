import FlightScript.Proofs.Calendar.Reading
import FlightScript.Proofs.Object.Report

/-!
# Reported epochs

What is reported of an epoch can be assigned to an epoch again. The text is read as the epoch
without what is below a millisecond, which is not written either, so the report does not
change (`set_reported`). The written layout and the layouts with dashes agree on every time
of day in years of four digits (`exists_read`).
-/

namespace FlightScript

open Text

namespace Object

variable {s t : Spacecraft} {property : String} {v : Value} {i : Instant}

theorem report?_epoch (h : foldCase property = "epoch") (s : Spacecraft) :
    (Object.spacecraft s).report? property = some s.epoch.toText := by
  have hfield : Spacecraft.Field.ofName? property = some .epoch :=
    Spacecraft.Field.ofName?_eq_some_iff.2 h
  rw [report?, fieldText?, hfield]
  rfl

theorem set_epoch (h : foldCase property = "epoch") (hi : Instant.read? v.toText = some i)
    (t : Spacecraft) :
    (Object.spacecraft t).set property v =
      (.spacecraft { t with epoch := i, properties := t.properties.insert property v }, none) := by
  have hfield : Spacecraft.Field.ofName? property = some .epoch :=
    Spacecraft.Field.ofName?_eq_some_iff.2 h
  simp [set, note, assign, Spacecraft.assign, hfield, Value.toEpoch, hi, Except.map]

/-- The epoch that a spacecraft reports can be assigned to any spacecraft, which then reports
the same. -/
theorem set_reported {reported shown : String} (hreported : foldCase reported = "epoch")
    (hproperty : foldCase property = "epoch") (hshown : foldCase shown = "epoch")
    (hv : (Object.spacecraft s).report? reported = some v.toText) (t : Spacecraft) :
    ∃ t', (Object.spacecraft t).set property v = (.spacecraft t', none) ∧
      t'.epoch = s.epoch.cut ∧ (Object.spacecraft t').report? shown = some v.toText := by
  have htext : s.epoch.toText = v.toText :=
    Option.some.inj ((report?_epoch hreported s).symm.trans hv)
  have hread : Instant.read? v.toText = some s.epoch.cut := htext ▸ Instant.read?_toText s.epoch
  refine ⟨_, set_epoch hproperty hread t, rfl, ?_⟩
  rw [report?_epoch hshown, Instant.toText_cut, htext]

end Object

namespace Instant

variable {c : CivilTime}

/-- At one instant a clock shows the time of day to the millisecond, and the four layouts with
a time of day are read as that instant. -/
theorem exists_read (h : c.Exists) (hyear : 0 ≤ c.date.year ∧ c.date.year ≤ 9999)
    (hnanos : c.nanos < nanosPerSecond) :
    ∃ i, CivilTime.ofInstant i = c.cut ∧ read? (civilText c) = some i ∧
      read? (dateText c.date ++ " " ++ timeText c) = some i ∧
      read? (dateText c.date ++ "T" ++ timeText c) = some i ∧
      read? (dateText c.date ++ "T" ++ timeText c ++ "Z") = some i := by
  have hcut : c.cut.nanos < nanosPerSecond :=
    Nat.lt_of_le_of_lt (Nat.div_mul_le_self c.nanos 1000000) hnanos
  obtain ⟨i, hi⟩ := CivilTime.exists_toInstant? (CivilTime.exists_cut.2 h) hyear hcut
  exact ⟨i, CivilTime.ofInstant_of_toInstant? hi hcut, read?_civilText h hnanos hi,
    read?_spaced h hyear hnanos hi, read?_lettered h hyear hnanos hi,
    read?_fixed h hyear hnanos hi⟩

/-- A date alone is read as the midnight at which the day begins. -/
theorem exists_read_dateText {d : Date} (h : d.Exists) (hyear : 0 ≤ d.year ∧ d.year ≤ 9999) :
    ∃ i, CivilTime.ofInstant i = .midnight d ∧ read? (dateText d) = some i := by
  have hmidnight : (CivilTime.midnight d).Exists :=
    ⟨h, Nat.zero_le 23, Nat.zero_le 59, Nat.zero_le 60⟩
  have hnanos : (CivilTime.midnight d).nanos < nanosPerSecond := Nat.zero_lt_succ _
  obtain ⟨i, hi⟩ := CivilTime.exists_toInstant? hmidnight hyear hnanos
  exact ⟨i, CivilTime.ofInstant_of_toInstant? hi hnanos, read?_dateText h hyear hi⟩

end Instant

namespace Object

/-- The text of every instant is read as the instant to the millisecond, so what is reported of
an epoch can be assigned and is reported again, and in years of four digits all layouts of a
time of day are read as the instant at which a clock shows it. -/
theorem reported_epochs_read_back :
    (∀ i : Instant, Instant.read? i.toText = some i.cut) ∧
      (∀ (s t : Spacecraft) (reported property shown : String) (v : Value),
        foldCase reported = "epoch" → foldCase property = "epoch" → foldCase shown = "epoch" →
        (Object.spacecraft s).report? reported = some v.toText →
        ∃ t', (Object.spacecraft t).set property v = (.spacecraft t', none) ∧
          t'.epoch = s.epoch.cut ∧ (Object.spacecraft t').report? shown = some v.toText) ∧
      ∀ c : CivilTime, c.Exists → 0 ≤ c.date.year ∧ c.date.year ≤ 9999 →
        c.nanos < Instant.nanosPerSecond →
        (∃ i, CivilTime.ofInstant i = c.cut ∧ Instant.read? (Instant.civilText c) = some i ∧
          Instant.read? (Instant.dateText c.date ++ " " ++ Instant.timeText c) = some i ∧
          Instant.read? (Instant.dateText c.date ++ "T" ++ Instant.timeText c) = some i ∧
          Instant.read? (Instant.dateText c.date ++ "T" ++ Instant.timeText c ++ "Z") = some i) ∧
        ∃ i, CivilTime.ofInstant i = .midnight c.date ∧
          Instant.read? (Instant.dateText c.date) = some i := by
  refine ⟨Instant.read?_toText, ?_, fun c h hyear hnanos =>
    ⟨Instant.exists_read h hyear hnanos, Instant.exists_read_dateText h.1 hyear⟩⟩
  intro s t reported property shown v hreported hproperty hshown hv
  exact set_reported hreported hproperty hshown hv t

/-- The epoch of a new spacecraft is reported and assigned again, and the last leap second of
2016 is read in each layout. -/
theorem default_epoch_and_leap_second_read_back :
    (∃ t', (Object.spacecraft .initial).set "EPOCH" (.quoted "01 Jan 2000 11:59:28.000") =
        (.spacecraft t', none) ∧ t'.epoch = Spacecraft.defaultEpoch.cut ∧
        (Object.spacecraft t').report? "epoch" = some "01 Jan 2000 11:59:28.000") ∧
      ∃ i, CivilTime.ofInstant i = ⟨⟨2016, 12, 31⟩, 23, 59, 60, 500000000⟩ ∧
        Instant.read? "31 Dec 2016 23:59:60.500" = some i ∧
        Instant.read? "2016-12-31 23:59:60.500" = some i ∧
        Instant.read? "2016-12-31T23:59:60.500" = some i ∧
        Instant.read? "2016-12-31T23:59:60.500Z" = some i := by
  obtain ⟨-, hset, hlayouts⟩ := reported_epochs_read_back
  exact ⟨hset .initial .initial "Epoch" "EPOCH" "epoch" _ (by decide) (by decide) (by decide)
    (by decide), (hlayouts ⟨⟨2016, 12, 31⟩, 23, 59, 60, 500000000⟩ (by decide) (by decide)
      (by decide)).1⟩

end Object

end FlightScript
