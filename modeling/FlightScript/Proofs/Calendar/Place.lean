import FlightScript.Calendar.Layout
import FlightScript.Proofs.Text.Trim
import Mathlib.Tactic.IntervalCases

/-!
# Places of a layout

Each place of a layout reads what is written in it and leaves the rest of the text: digits
filled up with zeros (`exactly?_padded`, `place?_padded`), a year with its sign
(`year?_yearText`), the name of a month (`month?_monthName`) and a fraction of three digits
(`fraction?_padded`). A place fails on what another layout has there
(`month?_eq_none_of_isDigit`, `exactly?_eq_none`).
-/

namespace FlightScript

namespace Instant

open Text

variable {n width : Nat} {ds rest : List Char}

/-! ### Digits -/

theorem isSpace_eq_false_of_isDigit {c : Char} (h : c.isDigit) : isSpace c = false := by
  obtain ⟨hlow, hhigh⟩ : 48 ≤ c.toNat ∧ c.toNat ≤ 57 := Char.isDigit_iff_toNat.1 h
  simp only [isSpace, Bool.or_eq_false_iff, Bool.and_eq_false_iff, decide_eq_false_iff_not]
  omega

theorem toList_padded (width n : Nat) :
    (padded width n).toList =
      List.replicate (width - (Nat.toDigits 10 n).length) '0' ++ Nat.toDigits 10 n :=
  String.toList_ofList

theorem isDigit_of_mem_padded {c : Char} (h : c ∈ (padded width n).toList) : c.isDigit := by
  rw [toList_padded, List.mem_append] at h
  rcases h with h | h
  · rw [(List.mem_replicate.1 h).2]
    rfl
  · exact Nat.isDigit_of_mem_toDigits (by decide) (by decide) h

theorem toList_padded_ne_nil (width n : Nat) : (padded width n).toList ≠ [] := by
  rw [toList_padded]
  exact List.append_ne_nil_of_right_ne_nil _ Nat.toDigits_ne_nil

theorem length_padded (hwidth : 0 < width) (h : n < 10 ^ width) :
    (padded width n).toList.length = width := by
  have hlength := (Nat.length_toDigits_le_iff (by decide) hwidth).2 h
  rw [toList_padded, List.length_append, List.length_replicate]
  omega

theorem natOfDigits_padded (width n : Nat) : Decimal.natOfDigits (padded width n).toList = n := by
  rw [toList_padded]
  change Nat.ofDigitChars 10 _ 0 = n
  rw [Nat.ofDigitChars_append, Nat.ofDigitChars_replicate_zero, Nat.mul_zero,
    Nat.ofDigitChars_ten_toDigits]

theorem startsOutside_padded (width n : Nat) (rest : List Char) :
    StartsOutside isSpace ((padded width n).toList ++ rest) := by
  refine StartsOutside.append (fun c hc => ?_) (toList_padded_ne_nil width n) rest
  exact isSpace_eq_false_of_isDigit (isDigit_of_mem_padded (List.mem_of_head? hc))

theorem endsOutside_padded (width n : Nat) (front : List Char) :
    EndsOutside isSpace (front ++ (padded width n).toList) := by
  refine EndsOutside.append (fun c hc => ?_) (toList_padded_ne_nil width n) front
  exact isSpace_eq_false_of_isDigit (isDigit_of_mem_padded (List.mem_of_getLast? hc))

/-! ### Numbers -/

theorem exactly?_append (hlength : ds.length = n) (hdigits : ∀ c ∈ ds, c.isDigit) :
    exactly? n (ds ++ rest) = some (Decimal.natOfDigits ds, rest) := by
  subst hlength
  rw [exactly?, List.take_left, List.drop_left, if_pos ⟨rfl, List.all_eq_true.2 hdigits⟩]

theorem exactly?_padded (hwidth : 0 < width) (h : n < 10 ^ width) (rest : List Char) :
    exactly? width ((padded width n).toList ++ rest) = some (n, rest) := by
  rw [exactly?_append (length_padded hwidth h) (fun _ => isDigit_of_mem_padded),
    natOfDigits_padded]

/-- There is something else before the place is full. -/
theorem exactly?_eq_none {c : Char} (hlength : ds.length < n) (hc : c.isDigit = false) :
    exactly? n (ds ++ c :: rest) = none := by
  refine if_neg fun hall => ?_
  have hmem : c ∈ (ds ++ c :: rest).take n := by
    rw [List.take_append, List.mem_append]
    obtain ⟨k, hk⟩ := Nat.exists_eq_add_of_lt hlength
    exact Or.inr (by simp [hk, Nat.add_assoc])
  rw [List.all_eq_true.1 hall.2 c hmem] at hc
  cases hc

/-- A row of digits is read to its end, also if more digits follow where it is as long as the
place. -/
theorem upTo?_append (hds : ds ≠ []) (hlength : ds.length ≤ n) (hdigits : ∀ c ∈ ds, c.isDigit)
    (hrest : ds.length = n ∨ StartsOutside Char.isDigit rest) :
    upTo? n (ds ++ rest) = some (Decimal.natOfDigits ds, rest) := by
  have htake : ((ds ++ rest).take n).takeWhile Char.isDigit = ds := by
    rw [List.take_append, List.take_of_length_le hlength]
    refine takeWhile_append_of_startsOutside hdigits ?_
    rcases hrest with hfull | hrest
    · rw [hfull, Nat.sub_self]
      exact startsOutside_nil
    · intro c hc
      rw [List.head?_take] at hc
      split at hc
      · cases hc
      · exact hrest c hc
  simp only [upTo?, htake, if_neg hds, List.drop_left]

theorem upTo?_cons_eq_none {c : Char} (hc : c.isDigit = false) : upTo? n (c :: rest) = none := by
  have hnil : ((c :: rest).take n).takeWhile Char.isDigit = [] := by
    cases n with
    | zero => rfl
    | succ n => exact List.takeWhile_cons_of_neg (by rw [hc]; decide)
  exact if_pos hnil

theorem trimStartChars_of_isDigit {c : Char} (h : c.isDigit) (cs : List Char) :
    trimStartChars (c :: cs) = c :: cs :=
  dropWhile_of_startsOutside (startsOutside_cons (isSpace_eq_false_of_isDigit h) cs)

theorem place?_append (hlength : ds.length = 2) (hdigits : ∀ c ∈ ds, c.isDigit) :
    place? (ds ++ rest) = some (Decimal.natOfDigits ds, rest) := by
  have hds : ds ≠ [] := List.ne_nil_of_length_eq_add_one hlength
  obtain ⟨c, cs, rfl⟩ := List.exists_cons_of_ne_nil hds
  rw [place?, List.cons_append, trimStartChars_of_isDigit (hdigits c List.mem_cons_self)]
  exact upTo?_append hds hlength.le hdigits (Or.inl hlength)

theorem place?_padded (h : n < 100) (rest : List Char) :
    place? ((padded 2 n).toList ++ rest) = some (n, rest) := by
  rw [place?_append (length_padded (by decide) h) (fun _ => isDigit_of_mem_padded),
    natOfDigits_padded]

theorem place?_cons_of_isSpace {c : Char} (h : isSpace c) (cs : List Char) :
    place? (c :: cs) = place? cs := by
  rw [place?, trimStartChars, List.dropWhile_cons_of_pos h]
  rfl

/-! ### Years -/

theorem yearText_of_four {year : Int} (h : 0 ≤ year ∧ year ≤ 9999) :
    yearText year = padded 4 year.toNat := by
  rw [yearText, if_neg (by omega), if_neg (by omega)]
  congr 1
  omega

theorem year?_cons_of_isSpace {c : Char} (h : isSpace c) (cs : List Char) :
    year? (c :: cs) = year? cs := by
  rw [year?, trimStartChars, List.dropWhile_cons_of_pos h]
  rfl

/-- After a sign the digits are read to their end. -/
theorem upTo?_padded_of_startsOutside (hrest : StartsOutside Char.isDigit rest) :
    upTo? ((padded width n).toList ++ rest).length ((padded width n).toList ++ rest) =
      some (n, rest) := by
  rw [upTo?_append (toList_padded_ne_nil width n) (by simp) (fun _ => isDigit_of_mem_padded)
    (Or.inr hrest), natOfDigits_padded]

theorem year?_minus (cs : List Char) :
    year? ('-' :: cs) = (upTo? cs.length cs).map fun (n, rest) => (-(n : Int), rest) :=
  rfl

theorem year?_plus (cs : List Char) :
    year? ('+' :: cs) = (upTo? cs.length cs).map fun (n, rest) => ((n : Int), rest) :=
  rfl

theorem year?_of_isDigit {c : Char} (h : c.isDigit) (cs : List Char) :
    year? (c :: cs) = (upTo? 4 (c :: cs)).map fun (n, rest) => ((n : Int), rest) := by
  rw [year?, trimStartChars_of_isDigit h]
  split
  · next heq =>
      obtain ⟨rfl, -⟩ := List.cons.inj heq
      cases h
  · next heq =>
      obtain ⟨rfl, -⟩ := List.cons.inj heq
      cases h
  · rfl

theorem year?_yearText {year : Int} (hrest : StartsOutside Char.isDigit rest) :
    year? ((yearText year).toList ++ rest) = some (year, rest) := by
  by_cases hneg : year < 0
  · have hsign : (yearText year).toList = '-' :: (padded 4 year.natAbs).toList := by
      rw [yearText, if_pos hneg, String.toList_append]
      rfl
    rw [hsign, List.cons_append, year?_minus, upTo?_padded_of_startsOutside hrest]
    simp only [Option.map_some, Option.some.injEq, Prod.mk.injEq, and_true]
    omega
  by_cases hlong : 9999 < year
  · have hsign : (yearText year).toList = '+' :: (padded 4 year.natAbs).toList := by
      rw [yearText, if_neg hneg, if_pos hlong, String.toList_append]
      rfl
    rw [hsign, List.cons_append, year?_plus, upTo?_padded_of_startsOutside hrest]
    simp only [Option.map_some, Option.some.injEq, Prod.mk.injEq, and_true]
    omega
  · rw [yearText_of_four ⟨by omega, by omega⟩]
    have hlength : (padded 4 year.toNat).toList.length = 4 :=
      length_padded (by decide) (by omega)
    obtain ⟨c, cs, hcs⟩ := List.exists_cons_of_ne_nil (toList_padded_ne_nil 4 year.toNat)
    have hread : upTo? 4 ((padded 4 year.toNat).toList ++ rest) = some (year.toNat, rest) := by
      rw [upTo?_append (toList_padded_ne_nil 4 _) hlength.le (fun _ => isDigit_of_mem_padded)
        (Or.inl hlength), natOfDigits_padded]
    have hc : c.isDigit := isDigit_of_mem_padded (hcs ▸ List.mem_cons_self)
    rw [hcs, List.cons_append] at hread ⊢
    rw [year?_of_isDigit hc, hread]
    simp only [Option.map_some, Option.some.injEq, Prod.mk.injEq, and_true]
    omega

/-! ### Months -/

theorem month?_monthName {month : Nat} (h : 1 ≤ month ∧ month ≤ 12) (rest : List Char) :
    month? (trimStartChars (' ' :: ((monthNames.getD (month - 1) "").toList ++ rest))) =
      some (month, rest) := by
  obtain ⟨hlow, hhigh⟩ := h
  interval_cases month <;> rfl

/-- The names of months begin with letters. -/
theorem month?_eq_none_of_isDigit {c : Char} (h : c.isDigit) (cs : List Char) :
    month? (trimStartChars (c :: cs)) = none := by
  have hletters : ∀ m ∈ monthNames, (foldChars m.toList).head?.all (fun a => !a.isDigit) :=
    List.all_eq_true.1 rfl
  have hlower : c.toLower = c := by
    have hhigh : c.toNat ≤ 57 := (Char.isDigit_iff_toNat.1 h).2
    exact dif_neg fun hupper => absurd (UInt32.le_iff_toNat_le.1 hupper.1) (by
      change ¬ 65 ≤ c.toNat
      omega)
  rw [trimStartChars_of_isDigit h, month?, Option.map_eq_none_iff, List.findIdx?_eq_none_iff]
  intro m hm
  refine decide_eq_false fun heq => ?_
  have hfirst := hletters m hm
  rw [heq, List.take_succ_cons, foldChars, List.map_cons, hlower, List.head?_cons,
    Option.all_some, h] at hfirst
  cases hfirst

/-! ### Fractions -/

theorem fraction?_padded (h : n < 1000) (hrest : StartsOutside Char.isDigit rest) :
    fraction? ('.' :: ((padded 3 n).toList ++ rest)) = some (n * 1000000, rest) := by
  have hlength : (padded 3 n).toList.length = 3 := length_padded (by decide) h
  have hdigits : ∀ c ∈ (padded 3 n).toList, c.isDigit := fun _ => isDigit_of_mem_padded
  rw [fraction?, takeWhile_append_of_startsOutside hdigits hrest,
    dropWhile_append_of_startsOutside hdigits hrest, if_neg (toList_padded_ne_nil 3 n)]
  rw [nanosOfDigits, List.take_of_length_le (by omega), natOfDigits_padded, hlength]

end Instant

end FlightScript
