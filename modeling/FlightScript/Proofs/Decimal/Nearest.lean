import FlightScript.Proofs.Decimal.Value

/-!
# The double nearest to a fraction

Which double is nearest to a fraction depends on the value of the fraction only
(`Double.nearestBits_congr`, `Decimal.nearestBits_congr`), and a fraction that is the magnitude
of a double is nearest to that one (`Double.nearestBits_of_eq_magnitude`,
`Decimal.nearestBits_of_eq_magnitude`).
-/

namespace FlightScript

variable {n d n' d' : Nat} {q : ℚ}

theorem roundDiv_mul_mul (tie : Tie) (n d : Nat) {k : Nat} (hk : 0 < k) :
    roundDiv tie (k * n) (k * d) = roundDiv tie n d := by
  have hbelow : 2 * (k * (n % d)) < k * d ↔ 2 * (n % d) < d := by
    rw [Nat.mul_left_comm, Nat.mul_lt_mul_left hk]
  have habove : k * d < 2 * (k * (n % d)) ↔ d < 2 * (n % d) := by
    rw [Nat.mul_left_comm, Nat.mul_lt_mul_left hk]
  simp only [roundDiv, Nat.mul_div_mul_left n d hk, Nat.mul_mod_mul_left, hbelow, habove]

/-- Equal fractions are rounded alike. -/
theorem roundDiv_congr (tie : Tie) (hd : 0 < d) (hd' : 0 < d')
    (h : (n / d : ℚ) = n' / d') : roundDiv tie n d = roundDiv tie n' d' := by
  have hd₀ : (d : ℚ) ≠ 0 := Nat.cast_ne_zero.2 (Nat.ne_of_gt hd)
  have hd₀' : (d' : ℚ) ≠ 0 := Nat.cast_ne_zero.2 (Nat.ne_of_gt hd')
  have hcross : d' * n = d * n' := by
    rw [div_eq_div_iff hd₀ hd₀'] at h
    rw [Nat.mul_comm d', Nat.mul_comm d]
    exact_mod_cast h
  rw [← roundDiv_mul_mul tie n d hd', hcross, Nat.mul_comm d' d, roundDiv_mul_mul tie n' d' hd]

theorem log_eq_of_bounds {base : Nat} {p : Int} (hbase : 1 < base) (hle : (base : ℚ) ^ p ≤ q)
    (hlt : q < (base : ℚ) ^ (p + 1)) : Int.log base q = p := by
  have hpos : 0 < q := lt_of_lt_of_le (zpow_pos (by exact_mod_cast Nat.zero_lt_of_lt hbase) p) hle
  have hhigh := (Int.lt_zpow_iff_log_lt hbase hpos).1 hlt
  have hlow := (Int.zpow_le_iff_le_log hbase hpos).1 hle
  omega

namespace Double

/-- A power of two below a fraction, said with whole numbers. -/
theorem mul_twoPow_le_iff (hd : 0 < d) (p : Int) :
    d * twoPow p.toNat ≤ n * twoPow (-p).toNat ↔ (2 : ℚ) ^ p ≤ n / d := by
  have hp : p = (p.toNat : Int) - (-p).toNat := by omega
  have hd₀ : (0 : ℚ) < d := Nat.cast_pos.2 hd
  have hpow : (0 : ℚ) < 2 ^ (-p).toNat := by positivity
  conv_rhs => rw [hp, zpow_sub₀ two_ne_zero, zpow_natCast, zpow_natCast]
  rw [div_le_div_iff₀ hpow hd₀, mul_comm d]
  exact_mod_cast Iff.rfl

theorem binaryOrder_eq_log (hn : 0 < n) (hd : 0 < d) :
    binaryOrder n d = Int.log 2 (n / d : ℚ) := by
  have hn₀ : (0 : ℚ) < n := Nat.cast_pos.2 hn
  have hd₀ : (0 : ℚ) < d := Nat.cast_pos.2 hd
  have hnlow : (2 : ℚ) ^ n.log2 ≤ n := by exact_mod_cast Nat.log2_self_le (Nat.ne_of_gt hn)
  have hnhigh : (n : ℚ) < 2 ^ (n.log2 + 1) := by exact_mod_cast Nat.lt_log2_self
  have hdlow : (2 : ℚ) ^ d.log2 ≤ d := by exact_mod_cast Nat.log2_self_le (Nat.ne_of_gt hd)
  have hdhigh : (d : ℚ) < 2 ^ (d.log2 + 1) := by exact_mod_cast Nat.lt_log2_self
  have hlow : (2 : ℚ) ^ ((n.log2 : Int) - d.log2 - 1) ≤ n / d := by
    have hexponent : (n.log2 : Int) - d.log2 - 1 = n.log2 - (d.log2 + 1 : Nat) := by omega
    rw [hexponent, zpow_sub₀ two_ne_zero, zpow_natCast, zpow_natCast]
    exact div_le_div₀ hn₀.le hnlow hd₀ hdhigh.le
  have hhigh : (n / d : ℚ) < 2 ^ ((n.log2 : Int) - d.log2 + 1) := by
    have hexponent : (n.log2 : Int) - d.log2 + 1 = (n.log2 + 1 : Nat) - d.log2 := by omega
    rw [hexponent, zpow_sub₀ two_ne_zero, zpow_natCast, zpow_natCast]
    exact div_lt_div₀ hnhigh hdlow (by positivity) (by positivity)
  unfold binaryOrder
  simp only [mul_twoPow_le_iff hd]
  split
  · next hle => exact (log_eq_of_bounds one_lt_two (by exact_mod_cast hle) hhigh).symm
  · next hnot =>
    refine (log_eq_of_bounds one_lt_two hlow ?_).symm
    rw [sub_add_cancel]
    exact not_le.1 hnot

/-- Equal fractions are nearest to the same double. -/
theorem nearestBits_congr (hd : 0 < d) (hd' : 0 < d') (h : (n / d : ℚ) = n' / d') :
    nearestBits n d = nearestBits n' d' := by
  have hd₀ : (d : ℚ) ≠ 0 := Nat.cast_ne_zero.2 (Nat.ne_of_gt hd)
  have hd₀' : (d' : ℚ) ≠ 0 := Nat.cast_ne_zero.2 (Nat.ne_of_gt hd')
  have hzero : n = 0 ↔ n' = 0 := by
    have hfraction : (n / d : ℚ) = 0 ↔ (n' / d' : ℚ) = 0 := by rw [h]
    simpa only [div_eq_zero_iff, hd₀, hd₀', or_false, Nat.cast_eq_zero] using hfraction
  by_cases hn : n = 0
  · rw [hn, hzero.1 hn, nearestBits, nearestBits, if_pos rfl, if_pos rfl]
  · have hn' : n' ≠ 0 := mt hzero.2 hn
    have horder : binaryOrder n d = binaryOrder n' d' := by
      rw [binaryOrder_eq_log (Nat.pos_of_ne_zero hn) hd,
        binaryOrder_eq_log (Nat.pos_of_ne_zero hn') hd', h]
    have hround : ∀ s t : Nat, 0 < t →
        roundDiv .even (n * s) (d * t) = roundDiv .even (n' * s) (d' * t) := by
      intro s t ht
      refine roundDiv_congr .even (Nat.mul_pos hd ht) (Nat.mul_pos hd' ht) ?_
      push_cast
      rw [mul_div_mul_comm, mul_div_mul_comm, h]
    simp only [nearestBits, if_neg hn, if_neg hn', horder, hround _ _ (twoPow_pos _)]

theorem binaryOrder_num_den {x : Dyadic} (hx : x.mantissa ≠ 0) :
    binaryOrder x.num x.den = x.mantissa.log2 + x.exponent := by
  have hnum : 0 < x.num := Nat.mul_pos (Nat.pos_of_ne_zero hx) (twoPow_pos _)
  have hlow : (2 : ℚ) ^ x.mantissa.log2 ≤ x.mantissa := by
    exact_mod_cast Nat.log2_self_le hx
  have hhigh : (x.mantissa : ℚ) < 2 ^ (x.mantissa.log2 + 1) := by
    exact_mod_cast Nat.lt_log2_self
  have hpow : (0 : ℚ) < 2 ^ x.exponent := by positivity
  rw [binaryOrder_eq_log hnum x.den_pos, Dyadic.num_div_den]
  refine log_eq_of_bounds one_lt_two ?_ ?_
  · rw [Nat.cast_two, zpow_add₀ two_ne_zero, zpow_natCast]
    exact mul_le_mul_of_nonneg_right hlow hpow.le
  · have hexponent : (x.mantissa.log2 : Int) + x.exponent + 1 =
        (x.mantissa.log2 + 1 : Nat) + x.exponent := by omega
    rw [Nat.cast_two, hexponent, zpow_add₀ two_ne_zero, zpow_natCast]
    exact mul_lt_mul_of_pos_right hhigh hpow

/-- The mantissa and the exponent are those that a double of this size has. -/
def HasDoubleParts (x : Dyadic) : Prop :=
  x.mantissa < 2 ^ 53 ∧ (2 ^ 52 ≤ x.mantissa ∧ -1074 ≤ x.exponent ∨ x.exponent = -1074)

/-- A number with the parts of a double is not rounded. -/
theorem nearestBits_num_den {x : Dyadic} (h : HasDoubleParts x) :
    nearestBits x.num x.den =
      min ((x.exponent + 1074).toNat * twoPow 52 + x.mantissa) infinityBits := by
  obtain ⟨hlt, hcases⟩ := h
  by_cases hx : x.mantissa = 0
  · have hexponent : (x.exponent + 1074).toNat = 0 := by omega
    have hnum : x.num = 0 := by rw [Dyadic.num, hx, Nat.zero_mul]
    rw [hnum, nearestBits, if_pos rfl, hexponent, hx, Nat.zero_mul]
    exact (Nat.zero_min _).symm
  · have hnum : x.num ≠ 0 :=
      Nat.ne_of_gt (Nat.mul_pos (Nat.pos_of_ne_zero hx) (twoPow_pos _))
    have hlog : x.mantissa.log2 < 53 := (Nat.log2_lt hx).2 hlt
    have hexponent : max ((x.mantissa.log2 : Int) + x.exponent - 52) (-1074) = x.exponent := by
      rcases hcases with ⟨hfull, hle⟩ | hlow
      · have hfloor : 52 ≤ x.mantissa.log2 := (Nat.le_log2 hx).2 hfull
        omega
      · omega
    have hround : roundDiv .even (x.num * twoPow (-x.exponent).toNat)
        (x.den * twoPow x.exponent.toNat) = x.mantissa := by
      rw [Dyadic.num, Dyadic.den, Nat.mul_assoc, Nat.mul_comm (twoPow x.exponent.toNat)]
      exact roundDiv_mul_right .even _ (Nat.mul_pos (twoPow_pos _) (twoPow_pos _))
    simp only [nearestBits, if_neg hnum, binaryOrder_num_den hx, hexponent, hround]

/-- A finite magnitude has the parts of a double, and its pattern is put together from them. -/
theorem magnitudeOfBits_spec {bits : Nat} (h : bits < infinityBits) :
    HasDoubleParts (magnitudeOfBits bits) ∧ (magnitudeOfBits bits).exponent ≤ 971 ∧
      bits = ((magnitudeOfBits bits).exponent + 1074).toNat * twoPow 52 +
        (magnitudeOfBits bits).mantissa := by
  have hlimit : infinityBits = 2047 * 2 ^ 52 := rfl
  have htwo : twoPow 52 = 2 ^ 52 := rfl
  rw [hlimit] at h
  rw [magnitudeOfBits, htwo, HasDoubleParts]
  split
  · next hlow =>
    refine ⟨⟨?_, Or.inr rfl⟩, ?_, ?_⟩
    · exact hlow.trans (by decide)
    · exact Int.neg_le_of_neg_le (by decide)
    · rw [neg_add_cancel, Int.toNat_zero, Nat.zero_mul, Nat.zero_add]
  · simp only
    omega

/-- A fraction that is the magnitude of a double is nearest to it. -/
theorem nearestBits_of_eq_magnitude {bits : Nat} (h : bits < infinityBits) (hd : 0 < d)
    (hmagnitude : (n / d : ℚ) = (magnitudeOfBits bits).num / (magnitudeOfBits bits).den) :
    nearestBits n d = bits := by
  obtain ⟨hparts, -, hbits⟩ := magnitudeOfBits_spec h
  rw [nearestBits_congr hd (magnitudeOfBits bits).den_pos hmagnitude, nearestBits_num_den hparts,
    ← hbits]
  exact Nat.min_eq_left h.le

end Double

namespace Decimal

open Double

variable {x y : Decimal}

def value (x : Decimal) : ℚ :=
  x.coefficient * 10 ^ x.exponent

theorem num_div_den (x : Decimal) : (x.num / x.den : ℚ) = x.value := by
  have hnum : (x.num : ℚ) = x.coefficient * 10 ^ x.exponent.toNat := by
    exact_mod_cast rfl
  have hden : (x.den : ℚ) = 10 ^ (-x.exponent).toNat := by
    exact_mod_cast rfl
  have hexponent : x.exponent = (x.exponent.toNat : Int) - (-x.exponent).toNat := by omega
  have hten : (10 : ℚ) ≠ 0 := by norm_num
  rw [value]
  conv_rhs => rw [hexponent]
  rw [hnum, hden, mul_div_assoc, zpow_sub₀ hten, zpow_natCast, zpow_natCast]

theorem value_eq_zero_iff : x.value = 0 ↔ x.coefficient = 0 := by
  have hpow : (10 : ℚ) ^ x.exponent ≠ 0 := zpow_ne_zero _ (by norm_num)
  rw [value, mul_eq_zero, or_iff_left hpow, Nat.cast_eq_zero]

/-- The place of the first digit of a numeral. -/
theorem length_add_exponent (hx : x.coefficient ≠ 0) :
    (length x.coefficient : Int) + x.exponent = Int.log 10 x.value + 1 := by
  have hpos : 0 < length x.coefficient := List.length_pos_iff.2 Nat.toDigits_ne_nil
  have hhigh : x.coefficient < 10 ^ length x.coefficient :=
    (Nat.length_toDigits_le_iff (by decide) hpos).1 le_rfl
  have hlow : 10 ^ (length x.coefficient - 1) ≤ x.coefficient := by
    by_contra hlt
    rcases Nat.eq_zero_or_pos (length x.coefficient - 1) with hzero | hmore
    · rw [hzero] at hlt
      omega
    · have hle : length x.coefficient ≤ length x.coefficient - 1 :=
        (Nat.length_toDigits_le_iff (by decide) hmore).2 (not_le.1 hlt)
      omega
  have hlow' : (10 : ℚ) ^ (length x.coefficient - 1) ≤ x.coefficient := by exact_mod_cast hlow
  have hhigh' : (x.coefficient : ℚ) < 10 ^ length x.coefficient := by exact_mod_cast hhigh
  have hten : (10 : ℚ) ≠ 0 := by norm_num
  have hpow : (0 : ℚ) < 10 ^ x.exponent := by positivity
  have hlog : Int.log 10 x.value = length x.coefficient + x.exponent - 1 := by
    refine log_eq_of_bounds (by decide) ?_ ?_
    · have hexponent : (length x.coefficient : Int) + x.exponent - 1 =
          (length x.coefficient - 1 : Nat) + x.exponent := by omega
      rw [Nat.cast_ofNat, hexponent, zpow_add₀ hten, zpow_natCast]
      exact mul_le_mul_of_nonneg_right hlow' hpow.le
    · rw [Nat.cast_ofNat, sub_add_cancel, zpow_add₀ hten, zpow_natCast]
      exact mul_lt_mul_of_pos_right hhigh' hpow
  omega

/-- Numerals that stand for one number are nearest to the same double. -/
theorem nearestBits_congr (h : x.value = y.value) : x.nearestBits = y.nearestBits := by
  have hzero : x.coefficient = 0 ↔ y.coefficient = 0 := by
    rw [← value_eq_zero_iff, h, value_eq_zero_iff]
  by_cases hx : x.coefficient = 0
  · simp only [nearestBits, hx, hzero.1 hx, true_or, if_true]
  · have hy : y.coefficient ≠ 0 := mt hzero.2 hx
    have hbits : Double.nearestBits x.num x.den = Double.nearestBits y.num y.den :=
      Double.nearestBits_congr x.den_pos y.den_pos (by rw [num_div_den, num_div_den, h])
    simp only [nearestBits, hx, hy, length_add_exponent hx, length_add_exponent hy, h, hbits]

/-- No double is so small or so great that a numeral of it is settled by its length alone. -/
theorem log_magnitude_bounds {bits : Nat} (h : bits < infinityBits)
    (hm : (magnitudeOfBits bits).mantissa ≠ 0) :
    -400 ≤ Int.log 10 ((magnitudeOfBits bits).num / (magnitudeOfBits bits).den : ℚ) ∧
      Int.log 10 ((magnitudeOfBits bits).num / (magnitudeOfBits bits).den : ℚ) < 400 := by
  obtain ⟨⟨hlt, hcases⟩, hle, -⟩ := magnitudeOfBits_spec h
  rw [Dyadic.num_div_den]
  generalize magnitudeOfBits bits = d at *
  have hlow : -1074 ≤ d.exponent := by omega
  have hone : (1 : ℚ) ≤ d.mantissa := by exact_mod_cast Nat.pos_of_ne_zero hm
  have hfull : (d.mantissa : ℚ) < 2 ^ (53 : Int) := by exact_mod_cast hlt
  have hpow : (0 : ℚ) < 2 ^ d.exponent := by positivity
  have hpos : 0 < (d.mantissa : ℚ) * 2 ^ d.exponent := by positivity
  have hten : (2 : ℚ) ^ 1200 ≤ 10 ^ 400 := by
    calc (2 : ℚ) ^ 1200 = (2 ^ 3) ^ 400 := by rw [← pow_mul]
      _ ≤ 10 ^ 400 := pow_le_pow_left₀ (by norm_num) (by norm_num) 400
  constructor
  · refine (Int.zpow_le_iff_le_log (by decide) hpos).1 ?_
    calc ((10 : Nat) : ℚ) ^ (-400 : Int) = ((10 : ℚ) ^ 400)⁻¹ := by
          rw [zpow_neg, zpow_ofNat, Nat.cast_ofNat]
      _ ≤ ((2 : ℚ) ^ 1200)⁻¹ := inv_anti₀ (by positivity) hten
      _ = 2 ^ (-1200 : Int) := by rw [zpow_neg, zpow_ofNat]
      _ ≤ 2 ^ d.exponent := zpow_le_zpow_right₀ one_le_two (by omega)
      _ ≤ d.mantissa * 2 ^ d.exponent := le_mul_of_one_le_left hpow.le hone
  · refine (Int.lt_zpow_iff_log_lt (by decide) hpos).1 ?_
    calc (d.mantissa : ℚ) * 2 ^ d.exponent < 2 ^ (53 : Int) * 2 ^ d.exponent :=
          mul_lt_mul_of_pos_right hfull hpow
      _ = 2 ^ (53 + d.exponent) := (zpow_add₀ two_ne_zero _ _).symm
      _ ≤ 2 ^ (1200 : Int) := zpow_le_zpow_right₀ one_le_two (by omega)
      _ ≤ ((10 : Nat) : ℚ) ^ (400 : Int) := by
          rw [zpow_ofNat, zpow_ofNat, Nat.cast_ofNat]
          exact hten

/-- The pattern that is nearest to a numeral is that of a magnitude. -/
theorem nearestBits_le (x : Decimal) : x.nearestBits ≤ infinityBits := by
  simp only [nearestBits, Double.nearestBits]
  split
  · exact Nat.zero_le _
  · split
    · exact Nat.le_refl _
    · split
      · exact Nat.zero_le _
      · exact Nat.min_le_right _ _

/-- A numeral that stands for the magnitude of a double is nearest to it. -/
theorem nearestBits_of_eq_magnitude {bits : Nat} (h : bits < infinityBits)
    (hmagnitude : x.value = (magnitudeOfBits bits).num / (magnitudeOfBits bits).den) :
    x.nearestBits = bits := by
  have hbits : Double.nearestBits x.num x.den = bits :=
    Double.nearestBits_of_eq_magnitude h x.den_pos (by rw [num_div_den, hmagnitude])
  by_cases hx : x.coefficient = 0
  · have hnum : x.num = 0 := by rw [num, hx, Nat.zero_mul]
    rw [hnum, Double.nearestBits, if_pos rfl] at hbits
    simp only [nearestBits, hx, true_or, if_true, hbits]
  · have hm : (magnitudeOfBits bits).mantissa ≠ 0 := by
      intro hzero
      refine hx (value_eq_zero_iff.1 ?_)
      rw [hmagnitude, Dyadic.num, hzero, Nat.zero_mul, Nat.cast_zero, zero_div]
    obtain ⟨hlow, hhigh⟩ := log_magnitude_bounds h hm
    have hsize := length_add_exponent hx
    rw [hmagnitude] at hsize
    simp only [nearestBits, hx, false_or, hsize, hbits]
    rw [if_neg (by omega), if_neg (by omega)]

end Decimal

end FlightScript
