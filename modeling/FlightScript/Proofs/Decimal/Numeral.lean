import FlightScript.Decimal.Reader
import FlightScript.Decimal.Text
import FlightScript.Proofs.Decimal.Nearest
import FlightScript.Proofs.Text.Trim

/-!
# The number in a written numeral

A numeral is written as digits with a point among them, and perhaps a power of ten. Reading it
gives a numeral that stands for the same number (`Decimal.exists_read?_plain`,
`Decimal.exists_read?_scientific`), though its digits may have more zeros at the end than the
one that was written.
-/

namespace FlightScript

namespace Decimal

open Text

variable {ws fs digits rest : List Char}

/-! ### Reading digits -/

theorem natOfDigits_append (ws fs : List Char) :
    natOfDigits (ws ++ fs) = Nat.ofDigitChars 10 fs (natOfDigits ws) :=
  Nat.ofDigitChars_append 0

theorem natOfDigits_append_zeros (ws : List Char) (n : Nat) :
    natOfDigits (ws ++ zeros n) = 10 ^ n * natOfDigits ws := by
  rw [natOfDigits_append, zeros, Nat.ofDigitChars_replicate_zero]

theorem natOfDigits_zeros_append (n : Nat) (ws : List Char) :
    natOfDigits (zeros n ++ ws) = natOfDigits ws := by
  have hzeros : natOfDigits (zeros n) = 0 := by
    rw [← List.nil_append (zeros n), natOfDigits_append_zeros]
    rfl
  rw [natOfDigits_append, hzeros]
  rfl

theorem natOfDigits_toDigits (n : Nat) : natOfDigits (Nat.toDigits 10 n) = n :=
  Nat.ofDigitChars_ten_toDigits

theorem isDigit_of_mem_toDigits {n : Nat} {c : Char} (h : c ∈ Nat.toDigits 10 n) : c.isDigit :=
  Nat.isDigit_of_mem_toDigits (by decide) (by decide) h

theorem isDigit_of_mem_zeros {n : Nat} {c : Char} (h : c ∈ zeros n) : c.isDigit := by
  rw [(List.mem_replicate.1 h).2]
  rfl

/-- Digits without a point are read to their end. -/
theorem read?_whole (hws : ∀ c ∈ ws, c.isDigit) (hne : ws ≠ [])
    (hrest : StartsOutside Char.isDigit rest) (hpoint : rest.head? ≠ some '.') :
    read? (ws ++ rest) = (readExponent? rest).map fun e => ⟨natOfDigits ws, e⟩ := by
  have hwhole : (ws ++ rest).takeWhile Char.isDigit = ws :=
    takeWhile_append_of_startsOutside hws hrest
  have hafter : (ws ++ rest).dropWhile Char.isDigit = rest :=
    dropWhile_append_of_startsOutside hws hrest
  rw [read?, hwhole, hafter]
  split
  next fraction tail hparts =>
    split at hparts
    · exact (hpoint rfl).elim
    · obtain ⟨rfl, rfl⟩ := Prod.mk.inj hparts
      simp only [List.append_nil, if_neg hne, List.length_nil, Nat.cast_zero, sub_zero]

/-- Digits with a point after some of them are read to their end. -/
theorem read?_fraction (hws : ∀ c ∈ ws, c.isDigit) (hfs : ∀ c ∈ fs, c.isDigit)
    (hne : ws ++ fs ≠ []) (hrest : StartsOutside Char.isDigit rest) :
    read? (ws ++ '.' :: (fs ++ rest)) =
      (readExponent? rest).map fun e => ⟨natOfDigits (ws ++ fs), e - fs.length⟩ := by
  have hpoint : StartsOutside Char.isDigit ('.' :: (fs ++ rest)) := startsOutside_cons rfl _
  have hwhole : (ws ++ '.' :: (fs ++ rest)).takeWhile Char.isDigit = ws :=
    takeWhile_append_of_startsOutside hws hpoint
  have hafter : (ws ++ '.' :: (fs ++ rest)).dropWhile Char.isDigit = '.' :: (fs ++ rest) :=
    dropWhile_append_of_startsOutside hws hpoint
  rw [read?, hwhole, hafter]
  simp only [takeWhile_append_of_startsOutside hfs hrest,
    dropWhile_append_of_startsOutside hfs hrest, if_neg hne]

theorem readExponent?_plus (n : Nat) :
    readExponent? ('e' :: '+' :: Nat.toDigits 10 n) = some (n : Int) := by
  have hdigits : Nat.toDigits 10 n ≠ [] ∧ (Nat.toDigits 10 n).all Char.isDigit :=
    ⟨Nat.toDigits_ne_nil, List.all_eq_true.2 fun _ => isDigit_of_mem_toDigits⟩
  rw [readExponent?, if_pos (Or.inl rfl)]
  simp only [if_pos hdigits, natOfDigits_toDigits, Bool.false_eq_true, if_false]

theorem readExponent?_minus (n : Nat) :
    readExponent? ('e' :: '-' :: Nat.toDigits 10 n) = some (-n : Int) := by
  have hdigits : Nat.toDigits 10 n ≠ [] ∧ (Nat.toDigits 10 n).all Char.isDigit :=
    ⟨Nat.toDigits_ne_nil, List.all_eq_true.2 fun _ => isDigit_of_mem_toDigits⟩
  rw [readExponent?, if_pos (Or.inl rfl)]
  simp only [if_pos hdigits, natOfDigits_toDigits, if_true]

/-! ### The characters of a number -/

/-- A character that may stand in a number: a letter, a digit, a point or a sign. -/
def isNumeral (c : Char) : Bool :=
  c.isAlphanum || c = '.' || c = '-' || c = '+'

theorem isNumeral_of_isAlpha {c : Char} (h : c.isAlpha) : isNumeral c := by
  have halphanum : c.isAlphanum = (c.isAlpha || c.isDigit) := rfl
  rw [isNumeral, halphanum, h]
  rfl

theorem isNumeral_of_isDigit {c : Char} (h : c.isDigit) : isNumeral c := by
  have halphanum : c.isAlphanum = (c.isAlpha || c.isDigit) := rfl
  rw [isNumeral, halphanum, h, Bool.or_true]
  rfl

theorem isAlpha_iff_toNat {c : Char} :
    c.isAlpha ↔ (65 ≤ c.toNat ∧ c.toNat ≤ 90) ∨ (97 ≤ c.toNat ∧ c.toNat ≤ 122) := by
  have halpha : c.isAlpha = (decide (c.val ≥ 'A'.val ∧ c.val ≤ 'Z'.val) ||
      decide (c.val ≥ 'a'.val) && decide (c.val ≤ 'z'.val)) := rfl
  simp only [halpha, Bool.or_eq_true, Bool.and_eq_true, decide_eq_true_eq, ge_iff_le,
    UInt32.le_iff_toNat_le]
  rfl

theorem isAlpha_eq_false_of_isDigit {c : Char} (h : c.isDigit) : c.isAlpha = false := by
  obtain ⟨-, hhigh⟩ : 48 ≤ c.toNat ∧ c.toNat ≤ 57 := Char.isDigit_iff_toNat.1 h
  rw [Bool.eq_false_iff, Ne, isAlpha_iff_toNat]
  omega

/-- A character of a number is neither white space nor a quote. -/
theorem outside_of_isNumeral {c : Char} (h : isNumeral c) :
    isSpace c = false ∧ c ≠ '\'' ∧ c ≠ '"' := by
  have halphanum : c.isAlphanum = (c.isAlpha || c.isDigit) := rfl
  have hcases : c.isAlpha ∨ c.isDigit ∨ c = '.' ∨ c = '-' ∨ c = '+' := by
    simpa [isNumeral, halphanum, or_assoc] using h
  have hdigit : c.isDigit ↔ 48 ≤ c.toNat ∧ c.toNat ≤ 57 := Char.isDigit_iff_toNat
  have hrange : 43 ≤ c.toNat ∧ c.toNat ≤ 122 := by
    rw [isAlpha_iff_toNat, hdigit] at hcases
    rcases hcases with h | h | rfl | rfl | rfl
    · omega
    · omega
    all_goals decide
  have hne : ∀ d : Char, d.toNat < 43 → c ≠ d := by
    rintro d hd rfl
    omega
  refine ⟨?_, hne '\'' (by decide), hne '"' (by decide)⟩
  simp only [isSpace, Bool.or_eq_false_iff, Bool.and_eq_false_iff, decide_eq_false_iff_not]
  omega

theorem forall_isNumeral_of_readExponent? {cs : List Char} {e : Int}
    (h : readExponent? cs = some e) :
    ∀ c ∈ cs, isNumeral c := by
  have hdigits : ∀ ds : List Char, ds ≠ [] ∧ ds.all Char.isDigit → ∀ d ∈ ds, isNumeral d :=
    fun ds hds d hd => isNumeral_of_isDigit (List.all_eq_true.1 hds.2 d hd)
  unfold readExponent? at h
  split at h
  · simp
  · next c rest =>
    split at h
    · next hc =>
      have hfirst : isNumeral c := by
        rcases hc with rfl | rfl <;> rfl
      refine List.forall_mem_cons.2 ⟨hfirst, ?_⟩
      split at h
      next negative digits hsign =>
      split at h
      · next hds =>
        have hall := hdigits digits hds
        split at hsign
        · obtain ⟨-, rfl⟩ := Prod.mk.inj hsign
          exact List.forall_mem_cons.2 ⟨rfl, hall⟩
        · obtain ⟨-, rfl⟩ := Prod.mk.inj hsign
          exact List.forall_mem_cons.2 ⟨rfl, hall⟩
        · obtain ⟨-, rfl⟩ := Prod.mk.inj hsign
          exact hall
      · cases h
    · cases h

theorem read?_cons_of_sign (cs : List Char) {c : Char} (hc : c = '-' ∨ c = '+') :
    read? (c :: cs) = none := by
  rcases hc with rfl | rfl <;> rfl

/-- What is read as a numeral has a digit, and nothing that does not belong in a number. -/
theorem read?_sound {cs : List Char} {x : Decimal} (h : read? cs = some x) :
    (∃ c ∈ cs, c.isDigit) ∧ ∀ c ∈ cs, isNumeral c := by
  have hsplit : cs.takeWhile Char.isDigit ++ cs.dropWhile Char.isDigit = cs :=
    List.takeWhile_append_dropWhile
  have hwhole : ∀ c ∈ cs.takeWhile Char.isDigit, c.isDigit :=
    fun c hc => List.mem_takeWhile_imp hc
  rw [read?] at h
  rw [← hsplit]
  generalize cs.takeWhile Char.isDigit = ws at *
  generalize cs.dropWhile Char.isDigit = tail at *
  split at h
  next fraction rest hparts =>
  obtain ⟨hfraction, htail⟩ : (∀ c ∈ fraction, c.isDigit) ∧
      (tail = fraction ++ rest ∨ tail = '.' :: (fraction ++ rest)) := by
    split at hparts
    · obtain ⟨rfl, rfl⟩ := Prod.mk.inj hparts
      exact ⟨fun c hc => List.mem_takeWhile_imp hc,
        Or.inr (by rw [List.takeWhile_append_dropWhile])⟩
    · obtain ⟨rfl, rfl⟩ := Prod.mk.inj hparts
      exact ⟨by simp, Or.inl rfl⟩
  split at h
  · cases h
  · next hne =>
    obtain ⟨e, he, -⟩ := Option.map_eq_some_iff.1 h
    obtain ⟨c, hc⟩ := List.exists_mem_of_ne_nil _ hne
    have hrest := forall_isNumeral_of_readExponent? he
    have hdigits : ∀ c ∈ ws ++ fraction, c.isDigit := by
      simpa [or_imp, forall_and] using And.intro hwhole hfraction
    have hmem : ∀ c, c ∈ ws ++ fraction → c ∈ ws ++ tail := by
      rcases htail with rfl | rfl <;> simp +contextual [or_imp]
    have hcover : ∀ c ∈ ws ++ tail, c ∈ ws ++ fraction ∨ c ∈ rest ∨ c = '.' := by
      rcases htail with rfl | rfl <;> simp +contextual [or_imp]
    refine ⟨⟨c, hmem c hc, hdigits c hc⟩, fun d hd => ?_⟩
    rcases hcover d hd with hd | hd | rfl
    · exact isNumeral_of_isDigit (hdigits d hd)
    · exact hrest d hd
    · rfl
/-! ### Digits in places -/

/-- The digits around a point have the value of a row of digits, of which `size` stand before
the point. -/
structure ArePlaced (digits : List Char) (size : Int) (ws fs : List Char) : Prop where
  isDigit_whole : ∀ c ∈ ws, c.isDigit
  isDigit_fraction : ∀ c ∈ fs, c.isDigit
  whole_ne_nil : ws ≠ []
  value_eq : (⟨natOfDigits (ws ++ fs), -fs.length⟩ : Decimal).value =
    (⟨natOfDigits digits, size - digits.length⟩ : Decimal).value

theorem arePlaced_positional (hdigits : ∀ c ∈ digits, c.isDigit) (hne : digits ≠ []) (size : Int) :
    ArePlaced digits size (positional digits size).1 (positional digits size).2 := by
  rw [positional]
  split
  · next hsize =>
    have hnat : natOfDigits (['0'] ++ (zeros (-size).toNat ++ digits)) = natOfDigits digits := by
      rw [← List.append_assoc]
      exact natOfDigits_zeros_append ((-size).toNat + 1) digits
    refine ⟨by simp, ?_, by simp, ?_⟩
    · intro c hc
      exact (List.mem_append.1 hc).elim isDigit_of_mem_zeros (hdigits c)
    · have hexponent : (-((zeros (-size).toNat ++ digits).length : Int)) =
          size - digits.length := by
        rw [List.length_append, zeros, List.length_replicate]
        omega
      rw [hnat, hexponent]
  · next hsize =>
    refine ⟨?_, fun c hc => hdigits c (List.mem_of_mem_drop hc), ?_, ?_⟩
    · intro c hc
      exact (List.mem_append.1 hc).elim (fun h => hdigits c (List.mem_of_mem_take h))
        isDigit_of_mem_zeros
    · refine List.append_ne_nil_of_left_ne_nil (fun hnil => ?_) _
      have hlength := congrArg List.length hnil
      have hpos := List.length_pos_iff.2 hne
      rw [List.length_take, List.length_nil] at hlength
      omega
    · rcases Nat.le_total digits.length size.toNat with hall | hpart
      · have hexponent : (size : Int) - digits.length = (size.toNat - digits.length : Nat) := by
          omega
        rw [List.take_of_length_le hall, List.drop_of_length_le hall, List.append_nil,
          natOfDigits_append_zeros, hexponent, value, value, zpow_natCast]
        simp only [List.length_nil, Nat.cast_zero, neg_zero, zpow_zero, mul_one]
        push_cast
        exact mul_comm _ _
      · have hexponent : (-((digits.drop size.toNat).length : Int)) = size - digits.length := by
          rw [List.length_drop]
          omega
        rw [Nat.sub_eq_zero_of_le hpart, zeros, List.replicate_zero, List.append_nil,
          List.take_append_drop, hexponent]

/-- The digits of a numeral around its point have its value. -/
theorem exists_positional (x : Decimal) :
    ∃ ws fs, positional (Nat.toDigits 10 x.coefficient)
        ((Nat.toDigits 10 x.coefficient).length + x.exponent) = (ws, fs) ∧
      (∀ c ∈ ws, c.isDigit) ∧ (∀ c ∈ fs, c.isDigit) ∧ ws ≠ [] ∧
      (⟨natOfDigits (ws ++ fs), -fs.length⟩ : Decimal).value = x.value := by
  have hdigits : ∀ c ∈ Nat.toDigits 10 x.coefficient, c.isDigit :=
    fun _ => isDigit_of_mem_toDigits
  obtain ⟨hws, hfs, hne, hvalue⟩ := arePlaced_positional hdigits Nat.toDigits_ne_nil
    ((Nat.toDigits 10 x.coefficient).length + x.exponent)
  rw [add_sub_cancel_left, natOfDigits_toDigits] at hvalue
  exact ⟨_, _, rfl, hws, hfs, hne, hvalue⟩

/-- A numeral that is written without a power of ten is read as one of the same number. -/
theorem exists_read?_plain (x : Decimal) :
    ∃ y, read? x.plain = some y ∧ y.value = x.value := by
  obtain ⟨ws, fs, hpositional, hws, hfs, hne, hvalue⟩ := x.exists_positional
  refine ⟨⟨natOfDigits (ws ++ fs), -fs.length⟩, ?_, hvalue⟩
  by_cases hnil : fs = []
  · have hread := read?_whole hws hne startsOutside_nil (by simp)
    rw [List.append_nil] at hread
    simp only [plain, hpositional, hnil, if_true, hread, List.append_nil]
    rfl
  · have hread := read?_fraction hws hfs (List.append_ne_nil_of_left_ne_nil hne fs)
      startsOutside_nil
    rw [List.append_nil] at hread
    simp only [plain, hpositional, if_neg hnil, hread, readExponent?, Option.map_some, zero_sub]

theorem value_zero_append (ws : List Char) :
    (⟨natOfDigits (ws ++ ['0']), -1⟩ : Decimal).value = (⟨natOfDigits ws, 0⟩ : Decimal).value := by
  have hnat : natOfDigits (ws ++ ['0']) = 10 ^ 1 * natOfDigits ws := natOfDigits_append_zeros ws 1
  rw [value, value, hnat, zpow_zero, zpow_neg_one]
  push_cast
  ring

/-- The text of a power of ten is read as that power. -/
theorem readExponent?_power (size : Int) :
    readExponent? ((if 0 < size then ['e', '+'] else ['e', '-']) ++
      Nat.toDigits 10 (size - 1).natAbs) = some (size - 1) := by
  by_cases hsize : 0 < size
  · rw [if_pos hsize]
    exact (readExponent?_plus _).trans (congrArg some (by omega))
  · rw [if_neg hsize]
    exact (readExponent?_minus _).trans (congrArg some (by omega))

/-- A numeral that needs a power of ten is read as itself. -/
theorem read?_scientific_of_power {x : Decimal}
    (h : ¬ (-5 < (Nat.toDigits 10 x.coefficient).length + x.exponent ∧
      (Nat.toDigits 10 x.coefficient).length + x.exponent ≤ 16)) :
    read? x.scientific = some x := by
  obtain ⟨c, rest, hdigits⟩ := List.exists_cons_of_ne_nil
    (Nat.toDigits_ne_nil (n := x.coefficient) (b := 10))
  have hall : ∀ d ∈ c :: rest, d.isDigit := fun d hd => isDigit_of_mem_toDigits (hdigits ▸ hd)
  have hnat : natOfDigits (c :: rest) = x.coefficient :=
    (congrArg natOfDigits hdigits.symm).trans (natOfDigits_toDigits _)
  have hexponent : ((c :: rest).length : Int) + x.exponent - 1 - rest.length = x.exponent := by
    rw [List.length_cons]
    omega
  have hmark : ∀ size : Int, StartsOutside Char.isDigit
      ((if 0 < size then ['e', '+'] else ['e', '-']) ++ Nat.toDigits 10 (size - 1).natAbs) := by
    intro size
    split <;> exact startsOutside_cons rfl _
  have hpower := readExponent?_power ((c :: rest).length + x.exponent)
  rw [hdigits] at h
  cases rest with
  | nil =>
      have hread := read?_whole hall (List.cons_ne_nil c [])
        (hmark ([c].length + x.exponent)) (by split <;> simp)
      have hparts : (⟨x.coefficient, [c].length + x.exponent - 1⟩ : Decimal) = x :=
        congrArg (Decimal.mk x.coefficient) ((sub_zero _).symm.trans hexponent)
      rw [hpower, hnat, Option.map_some, hparts] at hread
      simp only [scientific, hdigits, if_neg h]
      exact hread
  | cons d rest =>
      have hfirst : ∀ e ∈ [c], e.isDigit := fun e he =>
        hall e (List.mem_singleton.1 he ▸ List.mem_cons_self)
      have hothers : ∀ e ∈ d :: rest, e.isDigit := fun e he => hall e (List.mem_cons_of_mem c he)
      have hread := read?_fraction hfirst hothers (by simp)
        (hmark ((c :: d :: rest).length + x.exponent))
      rw [hpower, Option.map_some, List.singleton_append (l := d :: rest), hnat, hexponent] at hread
      simp only [scientific, hdigits, if_neg h]
      rw [List.append_assoc]
      exact hread

/-- A numeral that is written with a power of ten where it needs one is read as one of the same
number. -/
theorem exists_read?_scientific (x : Decimal) :
    ∃ y, read? x.scientific = some y ∧ y.value = x.value := by
  by_cases hsize : -5 < (Nat.toDigits 10 x.coefficient).length + x.exponent ∧
      (Nat.toDigits 10 x.coefficient).length + x.exponent ≤ 16
  · obtain ⟨ws, fs, hpositional, hws, hfs, hne, hvalue⟩ := x.exists_positional
    by_cases hnil : fs = []
    · have hzero : ∀ c ∈ ['0'], c.isDigit := by simp
      have hread := read?_fraction hws hzero (List.append_ne_nil_of_left_ne_nil hne ['0'])
        startsOutside_nil
      rw [hnil, List.append_nil] at hvalue
      refine ⟨⟨natOfDigits (ws ++ ['0']), -1⟩, ?_, (value_zero_append ws).trans hvalue⟩
      rw [List.append_nil] at hread
      simp only [scientific, if_pos hsize, hpositional, if_pos hnil, hread]
      rfl
    · have hread := read?_fraction hws hfs (List.append_ne_nil_of_left_ne_nil hne fs)
        startsOutside_nil
      rw [List.append_nil] at hread
      refine ⟨⟨natOfDigits (ws ++ fs), -fs.length⟩, ?_, hvalue⟩
      simp only [scientific, if_pos hsize, hpositional, if_neg hnil, hread, readExponent?,
        Option.map_some, zero_sub]
  · exact ⟨x, read?_scientific_of_power hsize, rfl⟩

/-- The text with a power of ten where one is needed is told from a row of digits. -/
theorem exists_not_isDigit_scientific (x : Decimal) : ∃ c ∈ x.scientific, c.isDigit = false := by
  by_cases hsize : -5 < (Nat.toDigits 10 x.coefficient).length + x.exponent ∧
      (Nat.toDigits 10 x.coefficient).length + x.exponent ≤ 16
  · simp only [scientific, if_pos hsize]
    exact ⟨'.', by simp, rfl⟩
  · obtain ⟨c, rest, hdigits⟩ := List.exists_cons_of_ne_nil
      (Nat.toDigits_ne_nil (n := x.coefficient) (b := 10))
    have hmark : ∀ size : Int, 'e' ∈ if 0 < size then ['e', '+'] else ['e', '-'] := by
      intro size
      split <;> simp
    rw [hdigits] at hsize
    refine ⟨'e', ?_, rfl⟩
    cases rest with
    | nil =>
        simp only [scientific, hdigits, if_neg hsize]
        simp [hmark]
    | cons d rest =>
        simp only [scientific, hdigits, if_neg hsize]
        simp [hmark]

end Decimal

end FlightScript
