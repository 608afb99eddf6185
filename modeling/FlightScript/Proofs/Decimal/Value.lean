import FlightScript.Proofs.Decimal.Rounded

/-!
# The number that a double stands for

A finite double stands for a fraction, `Double.value`. It is read from the bits, and it is also
the number of the unpacked form (`value_of_unpack_eq_finite`). `Double.roundToInt` goes to the
nearest whole number, from a half to the one away from zero (`roundToInt_eq`).
-/

namespace FlightScript

theorem roundDiv_up_bounds (num : Nat) {den : Nat} (h : 0 < den) :
    roundDiv .up num den * (2 * den) ≤ 2 * num + den ∧
      2 * num + den < (roundDiv .up num den + 1) * (2 * den) := by
  have hdm := Nat.div_add_mod num den
  have hlt := Nat.mod_lt num h
  have hsucc : (num / den + 1) * (2 * den) = 2 * (den * (num / den)) + 2 * den := by ring
  have hsucc' : (num / den + 1 + 1) * (2 * den) = 2 * (den * (num / den)) + 4 * den := by ring
  have hself : num / den * (2 * den) = 2 * (den * (num / den)) := by ring
  have key : (roundDiv .up num den = num / den ∧ 2 * (num % den) < den) ∨
      (roundDiv .up num den = num / den + 1 ∧ den ≤ 2 * (num % den)) := by
    unfold roundDiv
    grind
  rcases key with ⟨hk, hr⟩ | ⟨hk, hr⟩ <;> rw [hk] <;> omega

/-- A quotient ending in one half is rounded up. -/
theorem roundDiv_up_eq_floor (num : Nat) {den : Nat} (h : 0 < den) :
    (roundDiv .up num den : Int) = ⌊(num / den : ℚ) + 1 / 2⌋ := by
  obtain ⟨hle, hlt⟩ := roundDiv_up_bounds num h
  have hden : (0 : ℚ) < den := Nat.cast_pos.2 h
  have hsum : (num / den : ℚ) + 1 / 2 = (2 * num + den) / (2 * den) := by
    field_simp
  rw [eq_comm, Int.floor_eq_iff, hsum, le_div_iff₀ (by positivity), div_lt_iff₀ (by positivity)]
  exact ⟨by exact_mod_cast hle, by exact_mod_cast hlt⟩

namespace Dyadic

theorem num_div_den (d : Dyadic) : (d.num / d.den : ℚ) = d.mantissa * 2 ^ d.exponent := by
  have hnum : (d.num : ℚ) = d.mantissa * 2 ^ d.exponent.toNat := by
    exact_mod_cast rfl
  have hden : (d.den : ℚ) = 2 ^ (-d.exponent).toNat := by
    exact_mod_cast rfl
  have hexponent : d.exponent = (d.exponent.toNat : Int) - (-d.exponent).toNat := by omega
  conv_rhs => rw [hexponent]
  rw [hnum, hden, mul_div_assoc, zpow_sub₀ two_ne_zero, zpow_natCast, zpow_natCast]

end Dyadic

namespace Double

open Float.Model (UnpackedFloat Format)
open Float.Model.UnpackedFloat

variable {x : Float} {s : Sign} {m : Nat} {e : Int} {h : 0 < m}

def value (x : Float) : ℚ :=
  (if isNegative x then -1 else 1) * ((magnitude x).num / (magnitude x).den)

/-- The whole number nearest to a fraction, a half being rounded away from zero. -/
def roundAway (q : ℚ) : Int :=
  if 0 ≤ q then ⌊q + 1 / 2⌋ else -⌊-q + 1 / 2⌋

theorem roundToInt_eq (x : Float) : roundToInt x = roundAway (value x) := by
  have hfloor := roundDiv_up_eq_floor (magnitude x).num (magnitude x).den_pos
  have hnonneg : (0 : ℚ) ≤ (magnitude x).num / (magnitude x).den := by positivity
  simp only [roundToInt, roundAway, value, hfloor]
  by_cases hneg : isNegative x
  · simp only [hneg, ↓reduceIte, neg_one_mul, neg_neg]
    split
    · next hle =>
      obtain heq := le_antisymm (neg_nonneg.1 hle) hnonneg
      rw [heq]
      norm_num
    · rfl
  · simp only [hneg, Bool.false_eq_true, ↓reduceIte, one_mul, if_pos hnonneg]

/-! ### The unpacked form -/

theorem isNegative_iff (x : Float) :
    isNegative x ↔
      Sign.ofBitVec (@unpackSign Format.binary64 x.toModel.toBits.toBitVec) = .negative := by
  have hlt : x.toBits.toNat < 2 ^ 64 := x.toBits.toNat_lt
  rw [ofBitVec_eq_negative_iff, toNat_unpackSign, isNegative, decide_eq_true_iff]
  change 2 ^ 63 ≤ x.toBits.toNat ↔ x.toBits.toNat / 2 ^ 63 = 1
  omega

theorem magnitude_of_unpack_eq_finite (hx : x.toModel.unpack = .finite s m e h) :
    magnitude x = ⟨m, e⟩ := by
  obtain ⟨-, hfields⟩ := unpack_eq_finite hx
  change (x.toBits.toNat / 2 ^ 52 % 2 ^ 11 = 0 ∧ m = x.toBits.toNat % 2 ^ 52 ∧ _) ∨
    (0 < x.toBits.toNat / 2 ^ 52 % 2 ^ 11 ∧ x.toBits.toNat / 2 ^ 52 % 2 ^ 11 < 2047 ∧
      m = x.toBits.toNat % 2 ^ 52 + 2 ^ 52 ∧
      e = (x.toBits.toNat / 2 ^ 52 % 2 ^ 11 : Nat) - 1075) at hfields
  change (if x.toBits.toNat % 2 ^ 63 < 2 ^ 52 then (⟨x.toBits.toNat % 2 ^ 63, -1074⟩ : Dyadic)
    else ⟨x.toBits.toNat % 2 ^ 63 % 2 ^ 52 + 2 ^ 52,
      (x.toBits.toNat % 2 ^ 63 / 2 ^ 52 : Nat) - 1075⟩) = ⟨m, e⟩
  generalize x.toBits.toNat = bits at *
  rcases hfields with ⟨hfield, rfl, rfl⟩ | ⟨hfield, -, rfl, rfl⟩
  · rw [if_pos (by omega)]
    congr 1
    omega
  · rw [if_neg (by omega)]
    congr 1 <;> omega

theorem value_of_unpack_eq_finite (hx : x.toModel.unpack = .finite s m e h) :
    value x = s.apply m * 2 ^ e := by
  have hsign : s = Sign.ofBitVec (@unpackSign Format.binary64 x.toModel.toBits.toBitVec) :=
    (unpack_eq_finite hx).1
  have hneg : isNegative x ↔ s = .negative := hsign ▸ isNegative_iff x
  rw [value, Dyadic.num_div_den, magnitude_of_unpack_eq_finite hx]
  cases s with
  | negative => rw [if_pos (hneg.2 rfl)]; simp [Sign.apply]
  | positive => rw [if_neg (mt hneg.1 (by simp))]; simp [Sign.apply]

theorem value_of_unpack_eq_zero (hx : x.toModel.unpack = .zero s) : value x = 0 := by
  have hbits : magnitudeBits x = 0 := unpack_eq_zero hx
  rw [value, Dyadic.num_div_den, magnitude, hbits]
  simp [magnitudeOfBits]

/-- The size of the number is that of the unpacked form. -/
theorem abs_value (hx : x.isFinite) : |value x| = absolute x.toModel.unpack := by
  change x.toModel.unpack.isFinite at hx
  cases hu : x.toModel.unpack with
  | finite s m e h =>
      have hpos : (0 : ℚ) < 2 ^ e := by positivity
      rw [value_of_unpack_eq_finite hu, absolute, abs_mul, abs_of_pos hpos]
      cases s <;> simp [Sign.apply]
  | zero s => simp [value_of_unpack_eq_zero hu, absolute]
  | infinity s => simp [hu, UnpackedFloat.isFinite] at hx
  | notANumber => simp [hu, UnpackedFloat.isFinite] at hx

end Double

end FlightScript
