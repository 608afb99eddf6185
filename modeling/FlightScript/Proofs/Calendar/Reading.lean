import FlightScript.Proofs.Calendar.Civil
import FlightScript.Proofs.Calendar.Place

/-!
# Layouts read back

A text in one of the layouts is read as the time that it shows, to the millisecond
(`read?_civilText`, `read?_spaced`, `read?_lettered`, `read?_fixed`, `read?_dateText`). The
layouts are tried in turn, so for each text there are also the layouts that it must not fit: the
written layout leaves a place of two digits where the others have a year, and without a distance
from universal time the layout with fixed places fails at its end.
-/

namespace FlightScript

open Text

namespace CivilTime

/-- The time without what is below a millisecond. -/
def cut (c : CivilTime) : CivilTime :=
  { c with nanos := c.nanos / 1000000 * 1000000 }

theorem exists_cut {c : CivilTime} : c.cut.Exists ↔ c.Exists :=
  Iff.rfl

def midnight (d : Date) : CivilTime :=
  ⟨d, 0, 0, 0, 0⟩

end CivilTime

namespace Instant

variable {c : CivilTime} {d : Date} {i : Instant} {rest : List Char}

theorem isInstant_cut (i : Instant) : IsInstant i.seconds (i.nanos / 1000000 * 1000000) := by
  obtain ⟨hrange, hnanos, hminute⟩ := i.isInstant
  rw [nanosPerSecond] at hnanos hminute
  refine ⟨hrange, ?_, fun hleap => hminute ?_⟩
  · rw [nanosPerSecond]
    omega
  · rw [nanosPerSecond] at hleap
    omega

/-- The instant without what is below a millisecond. -/
def cut (i : Instant) : Instant where
  seconds := i.seconds
  nanos := i.nanos / 1000000 * 1000000
  isInstant := i.isInstant_cut

theorem ofInstant_cut (i : Instant) : CivilTime.ofInstant i.cut = (CivilTime.ofInstant i).cut := by
  simp only [CivilTime.ofInstant, CivilTime.cut, cut, nanosPerSecond, CivilTime.mk.injEq, true_and]
  omega

/-- What is below a millisecond is not written. -/
theorem civilText_cut (c : CivilTime) : civilText c.cut = civilText c := by
  rw [civilText, CivilTime.cut, Nat.mul_div_cancel _ (by decide)]
  rfl

theorem toText_cut (i : Instant) : i.cut.toText = i.toText := by
  rw [toText, ofInstant_cut, civilText_cut]
  rfl

/-! ### Texts -/

/-- A date as `YYYY-MM-DD`. -/
def dateText (d : Date) : String :=
  yearText d.year ++ "-" ++ padded 2 d.month ++ "-" ++ padded 2 d.day

/-- A time of day as `HH:MM:SS.mmm`. -/
def timeText (c : CivilTime) : String :=
  padded 2 c.hour ++ ":" ++ padded 2 c.minute ++ ":" ++ padded 2 c.second ++ "." ++
    padded 3 (c.nanos / 1000000)

theorem toList_dateText_append (d : Date) (rest : List Char) :
    (dateText d).toList ++ rest = (yearText d.year).toList ++
      '-' :: ((padded 2 d.month).toList ++ '-' :: ((padded 2 d.day).toList ++ rest)) := by
  simp [dateText]

theorem toList_timeText_append (c : CivilTime) (rest : List Char) :
    (timeText c).toList ++ rest = (padded 2 c.hour).toList ++
      ':' :: ((padded 2 c.minute).toList ++ ':' :: ((padded 2 c.second).toList ++
        '.' :: ((padded 3 (c.nanos / 1000000)).toList ++ rest))) := by
  simp [timeText]

theorem toList_civilText (c : CivilTime) :
    (civilText c).toList = (padded 2 c.date.day).toList ++
      ' ' :: ((monthNames.getD (c.date.month - 1) "").toList ++
        ' ' :: ((yearText c.date.year).toList ++ ' ' :: (timeText c).toList)) := by
  simp [civilText, timeText]

/-! ### Parts of layouts -/

theorem bind_of_eq_some {α β : Type} {x : Option α} {a : α} (h : x = some a) (f : α → Option β) :
    x >>= f = f a := by
  rw [h]
  rfl

theorem bind_of_eq_none {α β : Type} {x : Option α} (h : x = none) (f : α → Option β) :
    x >>= f = none := by
  rw [h]
  rfl

theorem mark?_self (m : Char) (rest : List Char) : mark? m (m :: rest) = some rest :=
  if_pos rfl

theorem millis_lt {nanos : Nat} (h : nanos < nanosPerSecond) : nanos / 1000000 < 1000 := by
  rw [nanosPerSecond] at h
  omega

theorem timeOfDay?_timeText (h : c.Exists) (hnanos : c.nanos < nanosPerSecond) :
    timeOfDay? d (timeText c).toList = some { c.cut with date := d } := by
  obtain ⟨hdate, hhour, hminute, hsecond⟩ := h
  rw [← List.append_nil (timeText c).toList, toList_timeText_append]
  refine (bind_of_eq_some (place?_padded (by omega) _) _).trans ?_
  refine (bind_of_eq_some (mark?_self ':' _) _).trans ?_
  refine (bind_of_eq_some (place?_padded (by omega) _) _).trans ?_
  refine (bind_of_eq_some (mark?_self ':' _) _).trans ?_
  refine (bind_of_eq_some (place?_padded (by omega) _) _).trans ?_
  exact bind_of_eq_some (fraction?_padded (millis_lt hnanos) startsOutside_nil) _

theorem timeOfDay?_space (h : c.Exists) (hnanos : c.nanos < nanosPerSecond) :
    timeOfDay? d (' ' :: (timeText c).toList) = some { c.cut with date := d } := by
  rw [timeOfDay?, place?_cons_of_isSpace (by decide), ← timeOfDay?]
  exact timeOfDay?_timeText h hnanos

theorem dashedDate?_dateText (h : d.Exists) (rest : List Char) :
    dashedDate? ((dateText d).toList ++ rest) = some (d, rest) := by
  have hday := h.day_le
  obtain ⟨hlow, hhigh, hfirst, hlast⟩ := h
  rw [toList_dateText_append]
  refine (bind_of_eq_some (year?_yearText (startsOutside_cons rfl _)) _).trans ?_
  refine (bind_of_eq_some (mark?_self '-' _) _).trans ?_
  refine (bind_of_eq_some (place?_padded (by omega) _) _).trans ?_
  refine (bind_of_eq_some (mark?_self '-' _) _).trans ?_
  exact bind_of_eq_some (place?_padded (by omega) _) _

/-! ### The written layout -/

theorem readFixed?_civilText (h : c.Exists) : readFixed? (civilText c).toList = none := by
  have hlength : (padded 2 c.date.day).toList.length < 4 := by
    rw [length_padded (by decide) (Nat.lt_of_le_of_lt h.1.day_le (by decide))]
    decide
  rw [toList_civilText]
  exact bind_of_eq_none (exactly?_eq_none hlength rfl) _

theorem readWritten?_civilText (h : c.Exists) (hnanos : c.nanos < nanosPerSecond) :
    readWritten? (civilText c).toList = some c.cut := by
  have hmonth : 1 ≤ c.date.month ∧ c.date.month ≤ 12 := ⟨h.1.1, h.1.2.1⟩
  rw [toList_civilText]
  refine (bind_of_eq_some (place?_padded (Nat.lt_of_le_of_lt h.1.day_le (by decide)) _) _).trans ?_
  refine (bind_of_eq_some (month?_monthName hmonth _) _).trans ?_
  refine (bind_of_eq_some ((year?_cons_of_isSpace (by decide) _).trans
    (year?_yearText (startsOutside_cons rfl _))) _).trans ?_
  exact timeOfDay?_space h hnanos

/-! ### The layouts with dashes -/

/-- Where the written layout has the name of a month a year of four digits has its third one. -/
theorem readWritten?_dateText (hyear : 0 ≤ d.year ∧ d.year ≤ 9999) (rest : List Char) :
    readWritten? ((dateText d).toList ++ rest) = none := by
  have hlength : (padded 4 d.year.toNat).toList.length = 4 := length_padded (by decide) (by omega)
  obtain ⟨a₁, a₂, a₃, cs, hcs⟩ :
      ∃ a₁ a₂ a₃ cs, (padded 4 d.year.toNat).toList = [a₁, a₂] ++ a₃ :: cs := by
    match h : (padded 4 d.year.toNat).toList, hlength with
    | a₁ :: a₂ :: a₃ :: cs, _ => exact ⟨a₁, a₂, a₃, cs, rfl⟩
  have hdigits : ∀ a ∈ [a₁, a₂] ++ a₃ :: cs, a.isDigit := fun a ha =>
    isDigit_of_mem_padded (hcs ▸ ha)
  have hthird : a₃.isDigit := hdigits a₃ (by simp)
  rw [toList_dateText_append, yearText_of_four hyear, hcs, List.append_assoc]
  refine (bind_of_eq_some (place?_append rfl fun a ha =>
    hdigits a (List.mem_append_left _ ha)) _).trans ?_
  exact bind_of_eq_none (month?_eq_none_of_isDigit hthird _) _

/-- What the layout with fixed places reads after the mark behind the date. -/
def fixedTime? (date : Date) (cs : List Char) : Option Instant := do
  let (hour, cs) ← exactly? 2 cs
  let cs ← mark? ':' cs
  let (minute, cs) ← exactly? 2 cs
  let cs ← mark? ':' cs
  let (second, cs) ← exactly? 2 cs
  let (nanos, cs) ← fraction? cs
  let offset ← offset? cs
  CivilTime.toInstant? ⟨date, hour, minute, second, nanos⟩ offset

theorem readFixed?_dateText_append (h : d.Exists) (hyear : 0 ≤ d.year ∧ d.year ≤ 9999)
    (rest : List Char) :
    readFixed? ((dateText d).toList ++ rest) =
      (mark? 'T' rest <|> mark? 't' rest <|> mark? ' ' rest).bind (fixedTime? d) := by
  have hday := h.day_le
  have hdate : d = ⟨(d.year.toNat : Int), d.month, d.day⟩ := by
    rw [Int.toNat_of_nonneg hyear.1]
  obtain ⟨hlow, hhigh, hfirst, hlast⟩ := h
  -- one step for each place; rewriting below the binds is slow
  rw [toList_dateText_append, yearText_of_four hyear]
  refine (bind_of_eq_some (exactly?_padded (by decide) (by omega) _) _).trans ?_
  refine (bind_of_eq_some (mark?_self '-' _) _).trans ?_
  refine (bind_of_eq_some (exactly?_padded (by decide) (by omega) _) _).trans ?_
  refine (bind_of_eq_some (mark?_self '-' _) _).trans ?_
  refine (bind_of_eq_some (exactly?_padded (by decide) (by omega) _) _).trans ?_
  exact congrArg (fun date => Option.bind _ (fixedTime? date)) hdate.symm

theorem readFixed?_dateText_cons (h : d.Exists) (hyear : 0 ≤ d.year ∧ d.year ≤ 9999)
    {mark : Char} (hmark : mark = 'T' ∨ mark = ' ') (cs : List Char) :
    readFixed? ((dateText d).toList ++ mark :: cs) = fixedTime? d cs := by
  have hmarks : (mark? 'T' (mark :: cs) <|> mark? 't' (mark :: cs) <|> mark? ' ' (mark :: cs)) =
      some cs := by
    rcases hmark with rfl | rfl <;> rfl
  rw [readFixed?_dateText_append h hyear, hmarks, Option.bind_some]

theorem fixedTime?_timeText_append (h : c.Exists) (hnanos : c.nanos < nanosPerSecond)
    (hrest : StartsOutside Char.isDigit rest) :
    fixedTime? c.date ((timeText c).toList ++ rest) = (offset? rest).bind c.cut.toInstant? := by
  obtain ⟨hdate, hhour, hminute, hsecond⟩ := h
  rw [toList_timeText_append]
  refine (bind_of_eq_some (exactly?_padded (by decide) (by omega) _) _).trans ?_
  refine (bind_of_eq_some (mark?_self ':' _) _).trans ?_
  refine (bind_of_eq_some (exactly?_padded (by decide) (by omega) _) _).trans ?_
  refine (bind_of_eq_some (mark?_self ':' _) _).trans ?_
  refine (bind_of_eq_some (exactly?_padded (by decide) (by omega) _) _).trans ?_
  exact bind_of_eq_some (fraction?_padded (millis_lt hnanos) hrest) _

/-- Without a distance from universal time the layout with fixed places does not fit. -/
theorem readFixed?_eq_none (h : c.Exists) (hyear : 0 ≤ c.date.year ∧ c.date.year ≤ 9999)
    (hnanos : c.nanos < nanosPerSecond) {mark : Char} (hmark : mark = 'T' ∨ mark = ' ') :
    readFixed? ((dateText c.date).toList ++ mark :: (timeText c).toList) = none := by
  have htime : fixedTime? c.date (timeText c).toList = none := by
    rw [← List.append_nil (timeText c).toList,
      fixedTime?_timeText_append h hnanos startsOutside_nil]
    rfl
  rw [readFixed?_dateText_cons h.1 hyear hmark, htime]

theorem readFixed?_dateText (h : d.Exists) (hyear : 0 ≤ d.year ∧ d.year ≤ 9999) :
    readFixed? (dateText d).toList = none := by
  rw [← List.append_nil (dateText d).toList, readFixed?_dateText_append h hyear]
  rfl

theorem readSpaced?_dateText (h : c.Exists) (hnanos : c.nanos < nanosPerSecond) :
    readSpaced? ((dateText c.date).toList ++ ' ' :: (timeText c).toList) = some c.cut := by
  refine (bind_of_eq_some (dashedDate?_dateText h.1 _) _).trans ?_
  exact timeOfDay?_space h hnanos

theorem readLettered?_dateText (h : c.Exists) (hnanos : c.nanos < nanosPerSecond) :
    readLettered? ((dateText c.date).toList ++ 'T' :: (timeText c).toList) = some c.cut := by
  refine (bind_of_eq_some (dashedDate?_dateText h.1 _) _).trans ?_
  refine (bind_of_eq_some (mark?_self 'T' _) _).trans ?_
  exact timeOfDay?_timeText h hnanos

theorem readSpaced?_eq_none_of_lettered (h : d.Exists) (cs : List Char) :
    readSpaced? ((dateText d).toList ++ 'T' :: cs) = none := by
  have hplace : place? ('T' :: cs) = none := upTo?_cons_eq_none rfl
  refine (bind_of_eq_some (dashedDate?_dateText h _) _).trans ?_
  exact bind_of_eq_none hplace _

theorem readSpaced?_dateText_eq_none (h : d.Exists) : readSpaced? (dateText d).toList = none := by
  rw [← List.append_nil (dateText d).toList]
  exact bind_of_eq_some (dashedDate?_dateText h []) _

theorem readLettered?_dateText_eq_none (h : d.Exists) :
    readLettered? (dateText d).toList = none := by
  rw [← List.append_nil (dateText d).toList]
  exact bind_of_eq_some (dashedDate?_dateText h []) _

theorem readDate?_dateText (h : d.Exists) :
    readDate? (dateText d).toList = some (.midnight d) := by
  rw [← List.append_nil (dateText d).toList]
  exact bind_of_eq_some (dashedDate?_dateText h []) _

/-! ### Whole texts -/

theorem universal?_some (c : CivilTime) : universal? (some c) = c.toInstant? 0 :=
  rfl

theorem read?_of_outside {text : String} (hstart : StartsOutside isSpace text.toList)
    (hend : EndsOutside isSpace text.toList) : read? text = readChars? text.toList := by
  have htrim : TrimsTo text.toList text.toList := ⟨[], [], by simp, by simp, by simp, hstart, hend⟩
  rw [read?, trimsTo_iff.1 htrim]

theorem startsOutside_dateText (hyear : 0 ≤ d.year ∧ d.year ≤ 9999) (rest : List Char) :
    StartsOutside isSpace ((dateText d).toList ++ rest) := by
  rw [toList_dateText_append, yearText_of_four hyear]
  exact startsOutside_padded _ _ _

theorem endsOutside_dateText (d : Date) : EndsOutside isSpace (dateText d).toList := by
  rw [dateText, String.toList_append]
  exact endsOutside_padded _ _ _

theorem endsOutside_timeText (c : CivilTime) (front : List Char) :
    EndsOutside isSpace (front ++ (timeText c).toList) := by
  rw [timeText, String.toList_append, ← List.append_assoc]
  exact endsOutside_padded _ _ _

theorem read?_civilText (h : c.Exists) (hnanos : c.nanos < nanosPerSecond)
    (hi : c.cut.toInstant? 0 = some i) : read? (civilText c) = some i := by
  have hstart : StartsOutside isSpace (civilText c).toList := by
    rw [toList_civilText]
    exact startsOutside_padded _ _ _
  have hend : EndsOutside isSpace (civilText c).toList := by
    rw [civilText, String.toList_append]
    exact endsOutside_padded _ _ _
  rw [read?_of_outside hstart hend, readChars?, readFixed?_civilText h,
    readWritten?_civilText h hnanos, universal?_some, hi]
  rfl

theorem read?_spaced (h : c.Exists) (hyear : 0 ≤ c.date.year ∧ c.date.year ≤ 9999)
    (hnanos : c.nanos < nanosPerSecond) (hi : c.cut.toInstant? 0 = some i) :
    read? (dateText c.date ++ " " ++ timeText c) = some i := by
  have hchars : (dateText c.date ++ " " ++ timeText c).toList =
      (dateText c.date).toList ++ ' ' :: (timeText c).toList := by simp
  have hstart := startsOutside_dateText hyear (' ' :: (timeText c).toList)
  have hend := endsOutside_timeText c (dateText c.date ++ " ").toList
  rw [← String.toList_append, hchars] at hend
  rw [read?_of_outside (hchars ▸ hstart) (hchars ▸ hend), hchars, readChars?,
    readFixed?_eq_none h hyear hnanos (Or.inr rfl), readWritten?_dateText hyear,
    readSpaced?_dateText h hnanos, universal?_some, hi]
  rfl

theorem read?_lettered (h : c.Exists) (hyear : 0 ≤ c.date.year ∧ c.date.year ≤ 9999)
    (hnanos : c.nanos < nanosPerSecond) (hi : c.cut.toInstant? 0 = some i) :
    read? (dateText c.date ++ "T" ++ timeText c) = some i := by
  have hchars : (dateText c.date ++ "T" ++ timeText c).toList =
      (dateText c.date).toList ++ 'T' :: (timeText c).toList := by simp
  have hstart := startsOutside_dateText hyear ('T' :: (timeText c).toList)
  have hend := endsOutside_timeText c (dateText c.date ++ "T").toList
  rw [← String.toList_append, hchars] at hend
  rw [read?_of_outside (hchars ▸ hstart) (hchars ▸ hend), hchars, readChars?,
    readFixed?_eq_none h hyear hnanos (Or.inl rfl), readWritten?_dateText hyear,
    readSpaced?_eq_none_of_lettered h.1, readLettered?_dateText h hnanos, universal?_some, hi]
  rfl

theorem read?_fixed (h : c.Exists) (hyear : 0 ≤ c.date.year ∧ c.date.year ≤ 9999)
    (hnanos : c.nanos < nanosPerSecond) (hi : c.cut.toInstant? 0 = some i) :
    read? (dateText c.date ++ "T" ++ timeText c ++ "Z") = some i := by
  have hchars : (dateText c.date ++ "T" ++ timeText c ++ "Z").toList =
      (dateText c.date).toList ++ 'T' :: ((timeText c).toList ++ ['Z']) := by simp
  have hstart := startsOutside_dateText hyear ('T' :: ((timeText c).toList ++ ['Z']))
  have hend : EndsOutside isSpace (dateText c.date ++ "T" ++ timeText c ++ "Z").toList := by
    rw [String.toList_append]
    exact endsOutside_append_singleton (by decide) _
  have hoffset : offset? ['Z'] = some 0 := rfl
  rw [read?_of_outside (hchars ▸ hstart) hend, hchars, readChars?,
    readFixed?_dateText_cons h.1 hyear (Or.inl rfl),
    fixedTime?_timeText_append h hnanos (startsOutside_cons rfl []), hoffset, Option.bind_some, hi]
  rfl

theorem read?_dateText (h : d.Exists) (hyear : 0 ≤ d.year ∧ d.year ≤ 9999)
    (hi : (CivilTime.midnight d).toInstant? 0 = some i) : read? (dateText d) = some i := by
  have hstart := startsOutside_dateText hyear []
  have hwritten := readWritten?_dateText hyear []
  rw [List.append_nil] at hstart hwritten
  rw [read?_of_outside hstart (endsOutside_dateText d), readChars?, readFixed?_dateText h hyear,
    hwritten, readSpaced?_dateText_eq_none h, readLettered?_dateText_eq_none h,
    readDate?_dateText h, universal?_some, hi]
  rfl

/-! ### Instants -/

/-- The text of an instant is read as that instant without what is below a millisecond. -/
theorem read?_toText (i : Instant) : read? i.toText = some i.cut := by
  refine read?_civilText (CivilTime.exists_ofInstant i) (Nat.mod_lt _ (by decide)) ?_
  rw [← ofInstant_cut]
  exact CivilTime.toInstant?_ofInstant i.cut

end Instant

end FlightScript
