import FlightScript.Proofs.Decimal.Unpacked

/-!
# Rounding to a double

The library rounds a mantissa and an exponent, of which a part may have been cut off, by
cutting off bits until the mantissa fits and then going to the nearest whole mantissa
(`roundWithAccuracy_eq`). What the proofs about its operations need is that rounding keeps
bounds: it does not go beyond a number that a double can have, from below
(`absolute_roundWithAccuracy_le`) or from above (`le_absolute_roundWithAccuracy`).
-/

namespace FlightScript

namespace Double

open Float.Model (UnpackedFloat Format totalExponent)
open Float.Model.UnpackedFloat

/-- The least whole number that is not below the mantissa before it was cut. -/
def ceil (m : Nat) : Accuracy → Nat
  | .exact => m
  | .inexact _ => m + 1

def absolute : UnpackedFloat → ℚ
  | .finite _ m e _ => m * 2 ^ e
  | _ => 0

variable {s : Sign} {m n M : Nat} {e E : Int} {acc : Accuracy} {em : ExtendedMantissa}

theorem targetExponent_eq (t : Int) :
    Format.binary64.targetExponent t = max (t - 53) (-1074) :=
  rfl

theorem le_ceil (m : Nat) (acc : Accuracy) : m ≤ ceil m acc := by
  cases acc <;> simp [ceil]

theorem ceil_le_succ (m : Nat) (acc : Accuracy) : ceil m acc ≤ m + 1 := by
  cases acc <;> simp [ceil]

/-! ### Rounded mantissas -/

theorem mantissa_shiftRight (em : ExtendedMantissa) (n : Nat) :
    (em >>> n).mantissa = em.mantissa / 2 ^ n := by
  induction n with
  | zero => exact (Nat.div_one _).symm
  | succ n ih =>
      change (em >>> n).mantissa / 2 = _
      rw [ih, Nat.div_div_eq_div_mul, ← pow_succ]

/-- Nothing was cut off the mantissa. -/
def IsExact (em : ExtendedMantissa) : Prop :=
  em.roundBit = false ∧ em.stickyBit = false

theorem IsExact.shiftRight (h : IsExact em) (hdvd : 2 ^ n ∣ em.mantissa) : IsExact (em >>> n) := by
  induction n with
  | zero => exact h
  | succ n ih =>
      obtain ⟨hround, hsticky⟩ := ih ((pow_dvd_pow 2 n.le_succ).trans hdvd)
      have heven : em.mantissa / 2 ^ n % 2 = 0 :=
        Nat.mod_eq_zero_of_dvd (Nat.dvd_div_of_mul_dvd (pow_succ 2 n ▸ hdvd))
      refine ⟨?_, ?_⟩
      · change ((em >>> n).mantissa % 2 != 0) = false
        rw [mantissa_shiftRight, heven]
        rfl
      · change ((em >>> n).roundBit || (em >>> n).stickyBit) = false
        rw [hround, hsticky]
        rfl

theorem IsExact.roundedMantissa (h : IsExact em) : em.roundedMantissa = em.mantissa := by
  obtain ⟨m, _, _⟩ := em
  obtain ⟨rfl, rfl⟩ := h
  rfl

theorem mantissa_le_roundedMantissa (em : ExtendedMantissa) :
    em.mantissa ≤ em.roundedMantissa := by
  obtain ⟨m, round, sticky⟩ := em
  cases round <;> cases sticky <;>
    simp [ExtendedMantissa.roundedMantissa, ExtendedMantissa.accuracy,
      Accuracy.roundToNearestEven]

theorem roundedMantissa_le_succ (em : ExtendedMantissa) :
    em.roundedMantissa ≤ em.mantissa + 1 := by
  obtain ⟨m, round, sticky⟩ := em
  cases round <;> cases sticky <;>
    simp [ExtendedMantissa.roundedMantissa, ExtendedMantissa.accuracy,
      Accuracy.roundToNearestEven]
  omega

@[simp] theorem mantissa_ofMantissaAndAccuracy (m : Nat) (acc : Accuracy) :
    (ExtendedMantissa.ofMantissaAndAccuracy m acc).mantissa = m := by
  cases acc with
  | exact => rfl
  | inexact order => cases order <;> rfl

/-- The mantissa after `n` bits are cut off and it is rounded. -/
def rounded (m n : Nat) (acc : Accuracy) : Nat :=
  (ExtendedMantissa.ofMantissaAndAccuracy m acc >>> n).roundedMantissa

theorem rounded_exact_of_dvd (h : 2 ^ n ∣ m) : rounded m n .exact = m / 2 ^ n := by
  have hexact : IsExact (ExtendedMantissa.ofMantissaAndAccuracy m .exact) := ⟨rfl, rfl⟩
  rw [rounded, (hexact.shiftRight h).roundedMantissa, mantissa_shiftRight]
  rfl

theorem div_le_rounded (m n : Nat) (acc : Accuracy) : m / 2 ^ n ≤ rounded m n acc := by
  have h := mantissa_le_roundedMantissa (ExtendedMantissa.ofMantissaAndAccuracy m acc >>> n)
  rwa [mantissa_shiftRight, mantissa_ofMantissaAndAccuracy] at h

theorem rounded_le_div_succ (m n : Nat) (acc : Accuracy) : rounded m n acc ≤ m / 2 ^ n + 1 := by
  have h := roundedMantissa_le_succ (ExtendedMantissa.ofMantissaAndAccuracy m acc >>> n)
  rwa [mantissa_shiftRight, mantissa_ofMantissaAndAccuracy] at h

/-- Rounding does not go beyond a whole number. -/
theorem rounded_le (h : ceil m acc ≤ M * 2 ^ n) : rounded m n acc ≤ M := by
  by_cases hlt : m / 2 ^ n < M
  · exact (rounded_le_div_succ m n acc).trans hlt
  · have hle : M * 2 ^ n ≤ m := (Nat.le_div_iff_mul_le (by positivity)).1 (not_lt.1 hlt)
    cases acc with
    | exact =>
        obtain rfl : m = M * 2 ^ n := le_antisymm h hle
        rw [rounded_exact_of_dvd (dvd_mul_left _ _), Nat.mul_div_cancel _ (by positivity)]
    | inexact order => exact absurd (h.trans hle) (Nat.not_succ_le_self m)

theorem le_rounded (h : M * 2 ^ n ≤ m) : M ≤ rounded m n acc :=
  ((Nat.le_div_iff_mul_le (by positivity)).2 h).trans (div_le_rounded m n acc)

/-! ### Rounded numbers -/

/-- The exponent that a double of a size is given. -/
def target (m : Nat) (e : Int) : Int :=
  max ((m.log2 : Int) - 52 + e) (-1074)

theorem shiftToTargetExponent_eq (m : Nat) (e : Int) (acc : Accuracy) :
    shiftToTargetExponent Format.binary64 m e acc =
      (ExtendedMantissa.ofMantissaAndAccuracy m acc >>> (target m e - e).toNat,
        max (target m e) e) := by
  have htarget : Format.binary64.targetExponent (totalExponent m e) = target m e := by
    rw [targetExponent_eq, totalExponent, target]
    omega
  rw [shiftToTargetExponent, htarget, shiftToExponent]
  exact Prod.ext rfl (by simp only; omega)

theorem shiftToTargetExponent_of_lt (h : m < 2 ^ 53) (he : -1074 ≤ e) :
    shiftToTargetExponent Format.binary64 m e .exact = (⟨m, false, false⟩, e) := by
  have hlog : m.log2 ≤ 52 := by
    by_cases hm : m = 0
    · simp [hm]
    · exact Nat.le_of_lt_succ ((Nat.log2_lt hm).2 h)
  have htarget : target m e ≤ e := by
    rw [target]
    omega
  rw [shiftToTargetExponent_eq, Int.toNat_of_nonpos (by omega), max_eq_right htarget]
  rfl

theorem shiftToTargetExponent_two_pow (he : -1074 ≤ e) :
    shiftToTargetExponent Format.binary64 (2 ^ 53) e .exact =
      (⟨2 ^ 52, false, false⟩, e + 1) := by
  have htarget : target (2 ^ 53) e = e + 1 := by
    rw [target, Nat.log2_two_pow]
    omega
  rw [shiftToTargetExponent_eq, htarget, max_eq_left (by omega),
    show (e + 1 - e).toNat = 1 by omega]
  rfl

/-- A rounded mantissa has at most one bit too many, and then it is a power of two. -/
theorem rounded_target_le (m : Nat) (e : Int) (acc : Accuracy) :
    rounded m (target m e - e).toNat acc ≤ 2 ^ 53 := by
  refine rounded_le (?_ : ceil m acc ≤ _)
  have hlog : m.log2 + 1 ≤ 53 + (target m e - e).toNat := by
    rw [target]
    omega
  calc ceil m acc ≤ m + 1 := ceil_le_succ m acc
    _ ≤ 2 ^ (m.log2 + 1) := Nat.lt_log2_self
    _ ≤ 2 ^ (53 + (target m e - e).toNat) := Nat.pow_le_pow_right (by decide) hlog
    _ = 2 ^ 53 * 2 ^ (target m e - e).toNat := pow_add 2 53 _

theorem roundWithAccuracy_eq (he : e ≤ target m e) :
    let r := rounded m (target m e - e).toNat acc
    roundWithAccuracy Format.binary64 s m e acc =
      if h : r = 0 then .zero s
      else if r < 2 ^ 53 then .finite s r (target m e) (Nat.pos_of_ne_zero h)
      else .finite s (2 ^ 52) (target m e + 1) (by decide) := by
  intro r
  have hmin : -1074 ≤ target m e := le_max_right _ _
  have hle : r ≤ 2 ^ 53 := rounded_target_le m e acc
  have hfirst : (shiftToTargetExponent Format.binary64 m e acc).1.roundedMantissa = r := by
    rw [shiftToTargetExponent_eq]
    rfl
  have hexponent : (shiftToTargetExponent Format.binary64 m e acc).2 = target m e := by
    rw [shiftToTargetExponent_eq]
    exact max_eq_left he
  unfold roundWithAccuracy
  simp only [hfirst, hexponent]
  by_cases hlt : r < 2 ^ 53
  · simp only [shiftToTargetExponent_of_lt hlt hmin, if_pos hlt]
  · obtain heq : r = 2 ^ 53 := le_antisymm hle (not_lt.1 hlt)
    simp only [heq, shiftToTargetExponent_two_pow hmin]
    rfl

/-- Unless the exponent is the least one, no bits are wasted. -/
theorem le_rounded_target (he : e ≤ target m e) (hmin : target m e ≠ -1074) :
    2 ^ 52 * 2 ^ (target m e - e).toNat ≤ m := by
  have htarget : target m e = (m.log2 : Int) - 52 + e := (max_choice _ _).resolve_right hmin
  have hlog : 52 + (target m e - e).toNat = m.log2 := by omega
  have hm : m ≠ 0 := by
    rintro rfl
    simp [target] at htarget he
    omega
  rw [← pow_add, hlog]
  exact Nat.log2_self_le hm

theorem isCanonical_roundWithAccuracy (he : e ≤ target m e) :
    IsCanonical (roundWithAccuracy Format.binary64 s m e acc) := by
  have hmin : -1074 ≤ target m e := le_max_right _ _
  rw [roundWithAccuracy_eq he]
  split
  · trivial
  · split
    · next hlt =>
      refine ⟨hlt, hmin, ?_⟩
      by_cases htarget : target m e = -1074
      · exact Or.inr htarget
      · exact Or.inl (le_rounded (le_rounded_target he htarget))
    · exact ⟨by decide, by omega, Or.inl le_rfl⟩

theorem absolute_roundWithAccuracy (he : e ≤ target m e) :
    absolute (roundWithAccuracy Format.binary64 s m e acc) =
      rounded m (target m e - e).toNat acc * 2 ^ target m e := by
  rw [roundWithAccuracy_eq he]
  split
  · next hzero => simp [absolute, hzero]
  · split
    · rfl
    · next hlt =>
      rw [le_antisymm (rounded_target_le m e acc) (not_lt.1 hlt), absolute,
        zpow_add₀ two_ne_zero]
      push_cast
      ring

/-! ### Bounds that rounding keeps -/

theorem natCast_mul_zpow_le_iff {m n : Nat} {e : Int} :
    (m : ℚ) * 2 ^ e ≤ n * 2 ^ e ↔ m ≤ n := by
  rw [mul_le_mul_iff_left₀ (by positivity), Nat.cast_le]

theorem natCast_mul_zpow_lt_iff {m n : Nat} {e : Int} :
    (m : ℚ) * 2 ^ e < n * 2 ^ e ↔ m < n :=
  lt_iff_lt_of_le_iff_le natCast_mul_zpow_le_iff

/-- A number with a greater exponent is a multiple of the unit of a smaller one. -/
theorem zpow_eq_mul_zpow (h : e ≤ E) (M : Nat) :
    (M : ℚ) * 2 ^ E = (M * 2 ^ (E - e).toNat : Nat) * 2 ^ e := by
  have hexponent : E = ((E - e).toNat : Int) + e := by omega
  conv_lhs => rw [hexponent]
  rw [zpow_add₀ two_ne_zero, zpow_natCast]
  push_cast
  ring

/-- The numbers with fewer bits than a double has and smaller exponents are below those that
have all bits. -/
theorem lt_of_exponent_lt (hM : M < 2 ^ 53) (h : E < e) (hm : 2 ^ 52 ≤ m) :
    (M : ℚ) * 2 ^ E < m * 2 ^ e := by
  rw [zpow_eq_mul_zpow h.le m, mul_lt_mul_iff_left₀ (by positivity), Nat.cast_lt]
  have hpow : 2 ^ 1 ≤ 2 ^ (e - E).toNat := Nat.pow_le_pow_right (by decide) (by omega)
  calc M < 2 ^ 52 * 2 ^ 1 := hM
    _ ≤ m * 2 ^ (e - E).toNat := Nat.mul_le_mul hm hpow

/-- Rounding does not go beyond a number that a double can have. -/
theorem absolute_roundWithAccuracy_le (he : e ≤ target m e) (hM : M < 2 ^ 53) (hE : -1074 ≤ E)
    (h : (ceil m acc : ℚ) * 2 ^ e ≤ M * 2 ^ E) :
    absolute (roundWithAccuracy Format.binary64 s m e acc) ≤ M * 2 ^ E := by
  rw [absolute_roundWithAccuracy he]
  by_cases hcase : target m e ≤ E
  · rw [zpow_eq_mul_zpow (he.trans hcase), natCast_mul_zpow_le_iff] at h
    rw [zpow_eq_mul_zpow hcase, natCast_mul_zpow_le_iff]
    refine rounded_le (h.trans_eq ?_)
    rw [mul_assoc, ← pow_add]
    congr 2
    omega
  · -- the number has all bits, so it is above the bound
    have hfull : 2 ^ 52 * 2 ^ (target m e - e).toNat ≤ ceil m acc :=
      (le_rounded_target he (by omega)).trans (le_ceil m acc)
    have hlt : (M : ℚ) * 2 ^ E < (2 ^ 52 : Nat) * 2 ^ target m e :=
      lt_of_exponent_lt hM (not_le.1 hcase) le_rfl
    rw [zpow_eq_mul_zpow he] at hlt
    exact absurd (h.trans_lt hlt) (not_lt.2 (natCast_mul_zpow_le_iff.2 hfull))

theorem le_absolute_roundWithAccuracy (he : e ≤ target m e) (hM : M < 2 ^ 53) (hE : -1074 ≤ E)
    (h : (M : ℚ) * 2 ^ E ≤ m * 2 ^ e) :
    M * 2 ^ E ≤ absolute (roundWithAccuracy Format.binary64 s m e acc) := by
  rw [absolute_roundWithAccuracy he]
  by_cases hcase : target m e ≤ E
  · rw [zpow_eq_mul_zpow (he.trans hcase), natCast_mul_zpow_le_iff] at h
    rw [zpow_eq_mul_zpow hcase, natCast_mul_zpow_le_iff]
    refine le_rounded (h.trans_eq' ?_)
    rw [mul_assoc, ← pow_add]
    congr 2
    omega
  · have hfull : 2 ^ 52 ≤ rounded m (target m e - e).toNat acc :=
      le_rounded (le_rounded_target he (by omega))
    exact (lt_of_exponent_lt hM (not_le.1 hcase) hfull).le

/-- What is cut off a number below a power of two does not bring it beyond. -/
theorem absolute_roundWithAccuracy_le_zpow {k : Int} (he : e ≤ target m e) (hk : -1074 ≤ k)
    (hle : e ≤ k) (h : (m : ℚ) * 2 ^ e < 2 ^ k) :
    absolute (roundWithAccuracy Format.binary64 s m e acc) ≤ 2 ^ k := by
  have hone : (2 : ℚ) ^ k = (1 : Nat) * 2 ^ k := by simp
  rw [hone] at h ⊢
  refine absolute_roundWithAccuracy_le he (by decide) hk ?_
  rw [zpow_eq_mul_zpow hle, natCast_mul_zpow_lt_iff] at h
  rw [zpow_eq_mul_zpow hle, natCast_mul_zpow_le_iff]
  exact (ceil_le_succ m acc).trans h

end Double

end FlightScript
