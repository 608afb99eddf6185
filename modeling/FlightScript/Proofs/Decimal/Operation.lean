import FlightScript.Proofs.Decimal.Rounded

/-!
# Computing with unpacked doubles

The library multiplies, divides and takes square roots of mantissas, and cuts them off only so
far that the result can still be rounded (`le_target_mul`, `le_target_quotient`,
`le_target_root`). So the result is one that is packed as it is (`isCanonical_mul`,
`isCanonical_div`, `isCanonical_sqrt`) unless it is too great, and bounds on the exact result
that a double can have are bounds on the rounded one.
-/

namespace FlightScript

namespace Double

open Float.Model (UnpackedFloat Format totalExponent)
open Float.Model.UnpackedFloat

variable {u v : UnpackedFloat} {s s₁ s₂ : Sign} {m n m₁ m₂ : Nat} {e e₁ e₂ k : Int}
  {q r : ℚ} {acc : Accuracy}

/-- The fraction is the size of a finite double. -/
def IsSize (r : ℚ) : Prop :=
  ∃ (m : Nat) (e : Int), m < 2 ^ 53 ∧ -1074 ≤ e ∧ e ≤ 971 ∧ r = m * 2 ^ e

/-- The number is positive, or a positive zero, and infinite or at least `r`. -/
def AtLeast (r : ℚ) : UnpackedFloat → Prop
  | .infinity s => s = .positive
  | .zero s => s = .positive ∧ r ≤ 0
  | .finite s m e _ => s = .positive ∧ r ≤ m * 2 ^ e
  | .notANumber => False

theorem isSize_zpow {k : Int} (hlow : -1074 ≤ k) (hhigh : k ≤ 1023) : IsSize (2 ^ k) := by
  by_cases h : k ≤ 971
  · exact ⟨1, k, by decide, hlow, h, by simp⟩
  · have hexponent : k = ((k - 971).toNat : Int) + 971 := by omega
    refine ⟨2 ^ (k - 971).toNat, 971, Nat.pow_lt_pow_right (by decide) (by omega), by decide,
      le_rfl, ?_⟩
    conv_lhs => rw [hexponent]
    rw [zpow_add₀ two_ne_zero, zpow_natCast, Nat.cast_pow]
    rfl

theorem isSize_zero : IsSize 0 :=
  ⟨0, 0, by decide, by decide, by decide, by simp⟩

theorem overflow_eq_self (hu : IsCanonical u) (hr : IsSize r) (h : absolute u ≤ r) :
    overflow u = u := by
  cases u with
  | finite s m e hm =>
      obtain ⟨M, E, hM, hE, hE', rfl⟩ := hr
      refine if_neg fun htop => ?_
      have hfull : 2 ^ 52 ≤ m := hu.2.2.resolve_right (by omega)
      exact absurd (lt_of_exponent_lt hM (by omega : E < e) hfull) (not_lt.2 h)
  | _ => rfl

theorem overflow_of_isFinite (h : (overflow u).isFinite) : overflow u = u := by
  cases u with
  | finite s m e hm =>
      rw [overflow] at h ⊢
      split at h
      · simp [UnpackedFloat.isFinite] at h
      · next htop => exact if_neg htop
  | _ => rfl

theorem AtLeast.overflow (h : AtLeast r u) : AtLeast r (overflow u) := by
  cases u with
  | finite s m e hm =>
      rw [Double.overflow]
      split
      · exact h.1
      · exact h
  | _ => exact h

theorem isFinite_roundWithAccuracy :
    (roundWithAccuracy Format.binary64 s m e acc).isFinite := by
  unfold roundWithAccuracy
  simp only
  split <;> rfl

theorem atLeast_roundWithAccuracy (he : e ≤ target m e) (hr : IsSize r) (h : r ≤ m * 2 ^ e) :
    AtLeast r (roundWithAccuracy Format.binary64 .positive m e acc) := by
  obtain ⟨M, E, hM, hE, hE', rfl⟩ := hr
  have hle : M * 2 ^ E ≤ absolute (roundWithAccuracy Format.binary64 .positive m e acc) :=
    le_absolute_roundWithAccuracy he hM hE h
  generalize hu : roundWithAccuracy Format.binary64 .positive m e acc = u at *
  rw [roundWithAccuracy_eq he] at hu
  split at hu
  · subst hu
    exact ⟨rfl, hle⟩
  · split at hu
    · subst hu
      exact ⟨rfl, hle⟩
    · subst hu
      exact ⟨rfl, hle⟩

/-! ### Products -/

theorem le_target_mul {h₁ : 0 < m₁} {h₂ : 0 < m₂} (hu : IsCanonical (.finite s₁ m₁ e₁ h₁))
    (hv : IsCanonical (.finite s₂ m₂ e₂ h₂)) : e₁ + e₂ ≤ target (m₁ * m₂) (e₁ + e₂) := by
  have hpos := Nat.mul_pos h₁ h₂
  obtain ⟨-, -, hfull₁ | rfl⟩ := hu
  · have hlog := (Nat.le_log2 hpos.ne').2 (hfull₁.trans (Nat.le_mul_of_pos_right m₁ h₂))
    rw [target]
    omega
  · obtain ⟨-, -, hfull₂ | rfl⟩ := hv
    · have hlog := (Nat.le_log2 hpos.ne').2 (hfull₂.trans (Nat.le_mul_of_pos_left m₂ h₁))
      rw [target]
      omega
    · rw [target]
      omega

theorem isCanonical_mul (hu : IsCanonical u) (hv : IsCanonical v) :
    IsCanonical (mul Format.binary64 u v) := by
  cases u with
  | finite s₁ m₁ e₁ h₁ =>
      cases v with
      | finite s₂ m₂ e₂ h₂ => exact isCanonical_roundWithAccuracy (le_target_mul hu hv)
      | _ => trivial
  | _ => cases v <;> trivial

theorem isFinite_mul : ∀ {u v : UnpackedFloat}, u.isFinite → v.isFinite →
    (mul Format.binary64 u v).isFinite
  | .finite .., .finite .., _, _ => isFinite_roundWithAccuracy
  | .finite .., .zero _, _, _ => rfl
  | .zero _, .finite .., _, _ => rfl
  | .zero _, .zero _, _, _ => rfl

theorem absolute_mul_le (hu : IsCanonical u) (hv : IsCanonical v) (hr : IsSize r)
    (h : absolute u * absolute v ≤ r) : absolute (mul Format.binary64 u v) ≤ r := by
  obtain ⟨M, E, hM, hE, -, rfl⟩ := hr
  cases u with
  | finite s₁ m₁ e₁ h₁ =>
      cases v with
      | finite s₂ m₂ e₂ h₂ =>
          refine absolute_roundWithAccuracy_le (le_target_mul hu hv) hM hE (h.trans_eq' ?_)
          rw [ceil, absolute, absolute, zpow_add₀ two_ne_zero]
          push_cast
          ring
      | _ => simp [mul, absolute]; positivity
  | _ => cases v <;> simp [mul, absolute] <;> positivity

theorem le_absolute_mul (hu : IsCanonical u) (hv : IsCanonical v) (hr : IsSize r)
    (h : r ≤ absolute u * absolute v) : r ≤ absolute (mul Format.binary64 u v) := by
  obtain ⟨M, E, hM, hE, -, rfl⟩ := hr
  cases u with
  | finite s₁ m₁ e₁ h₁ =>
      cases v with
      | finite s₂ m₂ e₂ h₂ =>
          refine le_absolute_roundWithAccuracy (le_target_mul hu hv) hM hE (h.trans_eq ?_)
          rw [absolute, absolute, zpow_add₀ two_ne_zero]
          push_cast
          ring
      | _ => simpa [mul, absolute] using h
  | _ => cases v <;> simpa [mul, absolute] using h

/-- A product of a positive number and one that is positive or infinite. -/
theorem atLeast_mul {h : 0 < m} (hu : IsCanonical (.finite .positive m e h)) (hv : IsCanonical v)
    (hq : AtLeast q v) (hr : IsSize r) (hle : r ≤ m * 2 ^ e * q) :
    AtLeast r (mul Format.binary64 (.finite .positive m e h) v) := by
  cases v with
  | finite s₂ m₂ e₂ h₂ =>
      obtain ⟨rfl, hq⟩ := hq
      refine atLeast_roundWithAccuracy (le_target_mul hu hv) hr (hle.trans ?_)
      calc (m : ℚ) * 2 ^ e * q ≤ m * 2 ^ e * (m₂ * 2 ^ e₂) :=
            mul_le_mul_of_nonneg_left hq (by positivity)
        _ = (m * m₂ : Nat) * 2 ^ (e + e₂) := by
          rw [zpow_add₀ two_ne_zero]
          push_cast
          ring
  | infinity s => obtain rfl : s = .positive := hq; rfl
  | zero s =>
      obtain ⟨rfl, hq⟩ := hq
      exact ⟨rfl, hle.trans (mul_nonpos_of_nonneg_of_nonpos (by positivity) hq)⟩
  | notANumber => exact hq.elim

/-! ### Quotients -/

/-- A mantissa and an exponent for a quotient, before it is rounded, and what was cut off. -/
abbrev quotient (m₁ : Nat) (e₁ : Int) (m₂ : Nat) (e₂ : Int) : Nat × Int × Accuracy :=
  divCore Format.binary64 m₁ e₁ m₂ e₂

theorem quotient_exponent (m₁ : Nat) (e₁ : Int) (m₂ : Nat) (e₂ : Int) :
    (quotient m₁ e₁ m₂ e₂).2.1 =
      min (e₁ - e₂) (max (m₁.log2 + e₁ - (m₂.log2 + e₂) - 53) (-1074)) := by
  have htarget : Format.binary64.targetExponent (totalExponent m₁ e₁ - totalExponent m₂ e₂) =
      max (((m₁.log2 : Int) + e₁) - ((m₂.log2 : Int) + e₂) - 53) (-1074) := by
    rw [targetExponent_eq, totalExponent, totalExponent]
    omega
  rw [← htarget]
  rfl

theorem quotient_mantissa (m₁ : Nat) (e₁ : Int) (m₂ : Nat) (e₂ : Int) :
    (quotient m₁ e₁ m₂ e₂).1 = m₁ * 2 ^ (e₁ - e₂ - (quotient m₁ e₁ m₂ e₂).2.1).toNat / m₂ := by
  rw [← Nat.shiftLeft_eq]
  rfl

/-- A quotient has at most one bit less than its terms let expect. -/
theorem le_log2_div (h₁ : 0 < m₁) (h₂ : 0 < m₂) :
    (m₁.log2 : Int) + n - m₂.log2 - 1 ≤ (m₁ * 2 ^ n / m₂).log2 := by
  by_cases hn : m₂.log2 + 1 ≤ m₁.log2 + n
  · have hpow : 2 ^ (m₁.log2 + n - (m₂.log2 + 1)) * m₂ ≤ m₁ * 2 ^ n := by
      calc 2 ^ (m₁.log2 + n - (m₂.log2 + 1)) * m₂
          ≤ 2 ^ (m₁.log2 + n - (m₂.log2 + 1)) * 2 ^ (m₂.log2 + 1) :=
            Nat.mul_le_mul_left _ Nat.lt_log2_self.le
        _ = 2 ^ m₁.log2 * 2 ^ n := by rw [← pow_add, ← pow_add, Nat.sub_add_cancel hn]
        _ ≤ m₁ * 2 ^ n := Nat.mul_le_mul_right _ (Nat.log2_self_le h₁.ne')
    have hquotient := (Nat.le_div_iff_mul_le h₂).2 hpow
    have hlog := (Nat.le_log2 (Nat.pos_of_neZero _ |>.trans_le hquotient).ne').2 hquotient
    omega
  · omega

theorem le_target_quotient (h₁ : 0 < m₁) (h₂ : 0 < m₂) :
    (quotient m₁ e₁ m₂ e₂).2.1 ≤ target (quotient m₁ e₁ m₂ e₂).1 (quotient m₁ e₁ m₂ e₂).2.1 := by
  have hexponent := quotient_exponent m₁ e₁ m₂ e₂
  have hlog := le_log2_div (n := (e₁ - e₂ - (quotient m₁ e₁ m₂ e₂).2.1).toNat) h₁ h₂
  rw [← quotient_mantissa] at hlog
  rw [target]
  omega

theorem isCanonical_div (u v : UnpackedFloat) : IsCanonical (div Format.binary64 u v) := by
  cases u with
  | finite s₁ m₁ e₁ h₁ =>
      cases v with
      | finite s₂ m₂ e₂ h₂ => exact isCanonical_roundWithAccuracy (le_target_quotient h₁ h₂)
      | _ => trivial
  | _ => cases v <;> trivial

/-- A quotient is cut off, not rounded up. -/
theorem quotient_mul_le (m₁ : Nat) (e₁ : Int) (m₂ : Nat) (e₂ : Int) :
    ((quotient m₁ e₁ m₂ e₂).1 : ℚ) * 2 ^ (quotient m₁ e₁ m₂ e₂).2.1 * (m₂ * 2 ^ e₂) ≤
      m₁ * 2 ^ e₁ := by
  have hle : (quotient m₁ e₁ m₂ e₂).2.1 ≤ e₁ - e₂ := by
    rw [quotient_exponent]
    exact min_le_left _ _
  have hmantissa := quotient_mantissa m₁ e₁ m₂ e₂
  generalize quotient m₁ e₁ m₂ e₂ = c at *
  obtain ⟨c, t, acc⟩ := c
  simp only at hle hmantissa ⊢
  have hcut : c * m₂ ≤ m₁ * 2 ^ (e₁ - e₂ - t).toNat := by
    rw [hmantissa]
    exact Nat.div_mul_le_self _ _
  calc (c : ℚ) * 2 ^ t * (m₂ * 2 ^ e₂) = (c * m₂ : Nat) * 2 ^ (t + e₂) := by
        rw [zpow_add₀ two_ne_zero]
        push_cast
        ring
    _ ≤ (m₁ * 2 ^ (e₁ - (t + e₂)).toNat : Nat) * 2 ^ (t + e₂) := by
        rw [natCast_mul_zpow_le_iff, show e₁ - (t + e₂) = e₁ - e₂ - t by omega]
        exact hcut
    _ = m₁ * 2 ^ e₁ := (zpow_eq_mul_zpow (by omega) m₁).symm

theorem zpow_log2_le (h : 0 < m) : (2 : ℚ) ^ ((m.log2 : Int) + e) ≤ m * 2 ^ e := by
  rw [zpow_add₀ two_ne_zero, zpow_natCast]
  exact mul_le_mul_of_nonneg_right (by exact_mod_cast Nat.log2_self_le h.ne') (by positivity)

theorem lt_zpow_log2 : (m : ℚ) * 2 ^ e < 2 ^ ((m.log2 : Int) + 1 + e) := by
  rw [zpow_add₀ two_ne_zero, ← Nat.cast_succ, zpow_natCast]
  exact mul_lt_mul_of_pos_right (by exact_mod_cast Nat.lt_log2_self) (by positivity)

theorem quotient_exponent_le (h₁ : 0 < m₁) (hk : -1074 ≤ k)
    (h : (m₁ : ℚ) * 2 ^ e₁ < 2 ^ k * (m₂ * 2 ^ e₂)) : (quotient m₁ e₁ m₂ e₂).2.1 ≤ k := by
  have hpow : (2 : ℚ) ^ ((m₁.log2 : Int) + e₁) < 2 ^ (k + ((m₂.log2 : Int) + 1 + e₂)) := by
    rw [zpow_add₀ two_ne_zero k]
    calc (2 : ℚ) ^ ((m₁.log2 : Int) + e₁) ≤ m₁ * 2 ^ e₁ := zpow_log2_le h₁
      _ < 2 ^ k * (m₂ * 2 ^ e₂) := h
      _ ≤ 2 ^ k * 2 ^ ((m₂.log2 : Int) + 1 + e₂) :=
        mul_le_mul_of_nonneg_left lt_zpow_log2.le (by positivity)
  rw [zpow_lt_zpow_iff_right₀ one_lt_two] at hpow
  rw [quotient_exponent]
  omega

theorem absolute_div_le (hk : -1074 ≤ k) (h : absolute u < 2 ^ k * absolute v) :
    absolute (div Format.binary64 u v) ≤ 2 ^ k := by
  cases u with
  | finite s₁ m₁ e₁ h₁ =>
      cases v with
      | finite s₂ m₂ e₂ h₂ =>
          have hlt : ((quotient m₁ e₁ m₂ e₂).1 : ℚ) * 2 ^ (quotient m₁ e₁ m₂ e₂).2.1 < 2 ^ k :=
            lt_of_mul_lt_mul_right ((quotient_mul_le m₁ e₁ m₂ e₂).trans_lt h) (by positivity)
          exact absolute_roundWithAccuracy_le_zpow (le_target_quotient h₁ h₂) hk
            (quotient_exponent_le h₁ hk h) hlt
      | _ => simp [div, absolute]; positivity
  | _ => cases v <;> simp [div, absolute] <;> positivity

theorem atLeast_div {h : 0 < m} (hv : AtLeast 0 v) :
    AtLeast 0 (div Format.binary64 (.finite .positive m e h) v) := by
  cases v with
  | finite s₂ m₂ e₂ h₂ =>
      obtain ⟨rfl, -⟩ := hv
      exact atLeast_roundWithAccuracy (le_target_quotient h h₂) isSize_zero (by positivity)
  | infinity s => obtain rfl : s = .positive := hv; exact ⟨rfl, le_rfl⟩
  | zero s => obtain ⟨rfl, -⟩ := hv; rfl
  | notANumber => exact hv.elim

/-! ### Square roots -/

/-- A mantissa and an exponent for a square root, before it is rounded, and what was cut
off. -/
abbrev root (m : Nat) (e : Int) : Nat × Int × Accuracy :=
  sqrtCore Format.binary64 m e

theorem root_exponent (m : Nat) (e : Int) :
    (root m e).2.1 = min (e / 2) (max ((m.log2 + e) / 2 - 52) (-1074)) := by
  have htarget : Format.binary64.targetExponent ((totalExponent m e + 1).ediv 2) =
      max (((m.log2 : Int) + e) / 2 - 52) (-1074) := by
    rw [targetExponent_eq, totalExponent]
    change max (((m.log2 : Int) + 1 + e + 1) / 2 - 53) (-1074) = _
    omega
  rw [← htarget]
  rfl

theorem root_mantissa (m : Nat) (e : Int) :
    (root m e).1 = Nat.sqrt (m * 2 ^ (e - 2 * (root m e).2.1).toNat) := by
  rw [← Nat.shiftLeft_eq]
  rfl

theorem le_log2_sqrt (h : 0 < m) : (m.log2 + n) / 2 ≤ (Nat.sqrt (m * 2 ^ n)).log2 := by
  have hsquare : (2 ^ ((m.log2 + n) / 2)) ^ 2 ≤ m * 2 ^ n := by
    calc (2 ^ ((m.log2 + n) / 2)) ^ 2 = 2 ^ ((m.log2 + n) / 2 * 2) := (pow_mul 2 _ 2).symm
      _ ≤ 2 ^ (m.log2 + n) := Nat.pow_le_pow_right (by decide) (Nat.div_mul_le_self _ 2)
      _ = 2 ^ m.log2 * 2 ^ n := pow_add 2 _ _
      _ ≤ m * 2 ^ n := Nat.mul_le_mul_right _ (Nat.log2_self_le h.ne')
  have hroot := Nat.le_sqrt'.2 hsquare
  exact (Nat.le_log2 (Nat.pos_of_neZero _ |>.trans_le hroot).ne').2 hroot

theorem le_target_root (h : 0 < m) : (root m e).2.1 ≤ target (root m e).1 (root m e).2.1 := by
  have hexponent := root_exponent m e
  have hlog := le_log2_sqrt (n := (e - 2 * (root m e).2.1).toNat) h
  rw [← root_mantissa] at hlog
  rw [target]
  omega

theorem isCanonical_sqrt (u : UnpackedFloat) : IsCanonical (sqrt Format.binary64 u) := by
  cases u with
  | finite s m e h =>
      cases s with
      | negative => trivial
      | positive => exact isCanonical_roundWithAccuracy (le_target_root h)
  | infinity s => cases s <;> trivial
  | _ => trivial

/-- A square root is cut off, not rounded up. -/
theorem root_sq_le (m : Nat) (e : Int) :
    ((root m e).1 * 2 ^ (root m e).2.1 : ℚ) ^ 2 ≤ m * 2 ^ e := by
  have hle : 2 * (root m e).2.1 ≤ e := by
    rw [root_exponent]
    omega
  have hmantissa := root_mantissa m e
  generalize root m e = c at *
  obtain ⟨c, t, acc⟩ := c
  simp only at hle hmantissa ⊢
  have hcut : c ^ 2 ≤ m * 2 ^ (e - 2 * t).toNat := by
    rw [hmantissa]
    exact Nat.sqrt_le' _
  calc ((c : ℚ) * 2 ^ t) ^ 2 = (c ^ 2 : Nat) * 2 ^ (2 * t) := by
        rw [mul_pow, ← zpow_natCast (2 ^ t : ℚ), ← zpow_mul, mul_comm t]
        push_cast
        rfl
    _ ≤ (m * 2 ^ (e - 2 * t).toNat : Nat) * 2 ^ (2 * t) := natCast_mul_zpow_le_iff.2 hcut
    _ = m * 2 ^ e := (zpow_eq_mul_zpow hle m).symm

theorem root_exponent_le (hm : 0 < m) (h : (m : ℚ) * 2 ^ e < 2 ^ (2 * k)) :
    (root m e).2.1 ≤ k := by
  have hpow : (m.log2 : Int) + e < 2 * k := by
    rw [← zpow_lt_zpow_iff_right₀ (one_lt_two : (1 : ℚ) < 2)]
    exact (zpow_log2_le hm).trans_lt h
  rw [root_exponent]
  omega

theorem absolute_sqrt_le (hk : -1074 ≤ k) (h : absolute u < 2 ^ (2 * k)) :
    absolute (sqrt Format.binary64 u) ≤ 2 ^ k := by
  cases u with
  | finite s m e hm =>
      cases s with
      | negative => exact (zpow_pos two_pos k).le
      | positive =>
          have hsquare : ((root m e).1 * 2 ^ (root m e).2.1 : ℚ) ^ 2 < (2 ^ k) ^ 2 := by
            calc ((root m e).1 * 2 ^ (root m e).2.1 : ℚ) ^ 2 ≤ m * 2 ^ e := root_sq_le m e
              _ < 2 ^ (2 * k) := h
              _ = (2 ^ k) ^ 2 := by rw [mul_comm, zpow_mul, zpow_ofNat]
          exact absolute_roundWithAccuracy_le_zpow (le_target_root hm) hk
            (root_exponent_le hm h) (lt_of_pow_lt_pow_left₀ 2 (by positivity) hsquare)
  | infinity s => cases s <;> exact (zpow_pos two_pos k).le
  | _ => exact (zpow_pos two_pos k).le

/-! ### Sums and differences -/

theorem isFinite_normalize (m : Int) (e : Int) (s : Sign) :
    (UnpackedFloat.normalize Format.binary64 m e s).isFinite := by
  unfold UnpackedFloat.normalize
  split
  · exact isFinite_roundWithAccuracy
  · rfl
  · exact isFinite_roundWithAccuracy

theorem notANumber_add (v : UnpackedFloat) : add Format.binary64 .notANumber v = .notANumber := by
  cases v <;> rfl

theorem notANumber_sub (v : UnpackedFloat) : sub Format.binary64 .notANumber v = .notANumber := by
  cases v <;> rfl

theorem isFinite_add : ∀ {u v : UnpackedFloat}, u.isFinite → v.isFinite →
    (add Format.binary64 u v).isFinite
  | .finite .., .finite .., _, _ => isFinite_normalize _ _ _
  | .finite .., .zero _, _, _ => rfl
  | .zero _, .finite .., _, _ => rfl
  | .zero s₁, .zero s₂, _, _ => by cases s₁ <;> cases s₂ <;> rfl

theorem isFinite_sub : ∀ {u v : UnpackedFloat}, u.isFinite → v.isFinite →
    (sub Format.binary64 u v).isFinite
  | .finite .., .finite .., _, _ => isFinite_normalize _ _ _
  | .finite .., .zero _, _, _ => rfl
  | .zero _, .finite .., _, _ => rfl
  | .zero s₁, .zero s₂, _, _ => by cases s₁ <;> cases s₂ <;> rfl

end Double

end FlightScript
