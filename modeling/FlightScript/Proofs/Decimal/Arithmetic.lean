import FlightScript.Proofs.Decimal.Operation
import FlightScript.Proofs.Decimal.Value

/-!
# Computing with doubles

What the proofs about propagation need of the arithmetic of doubles: when a product, a quotient
or a square root is finite, which bounds it keeps, and when a result is a number at all.
-/

namespace FlightScript

namespace Double

open Float.Model (UnpackedFloat Format)
open Float.Model.UnpackedFloat

variable {x y : Float} {u : UnpackedFloat} {s : Sign} {m : Nat} {e k : Int} {q r : ℚ}

theorem isCanonical_unpacked (x : Float) : IsCanonical x.toModel.unpack :=
  isCanonical_unpack _

theorem unpacked_exponent_le {h : 0 < m} (hx : x.toModel.unpack = .finite s m e h) : e ≤ 971 := by
  obtain ⟨-, ⟨-, -, he⟩ | ⟨-, hlt, -, he⟩⟩ := unpack_eq_finite hx
  · omega
  · omega

theorem isSize_abs_value (hx : x.isFinite) : IsSize |value x| := by
  have hcanonical := isCanonical_unpacked x
  rw [abs_value hx]
  cases hu : x.toModel.unpack with
  | finite s m e h =>
      rw [hu] at hcanonical
      exact ⟨m, e, hcanonical.1, hcanonical.2.1, unpacked_exponent_le hu, rfl⟩
  | _ => exact isSize_zero

theorem unpack_mul (x y : Float) :
    (x * y).toModel.unpack = overflow (mul Format.binary64 x.toModel.unpack y.toModel.unpack) :=
  unpack_pack (isCanonical_mul (isCanonical_unpacked x) (isCanonical_unpacked y))

theorem unpack_div (x y : Float) :
    (x / y).toModel.unpack = overflow (div Format.binary64 x.toModel.unpack y.toModel.unpack) :=
  unpack_pack (isCanonical_div _ _)

theorem unpack_sqrt (x : Float) :
    x.sqrt.toModel.unpack = overflow (sqrt Format.binary64 x.toModel.unpack) :=
  unpack_pack (isCanonical_sqrt _)

theorem unpack_add (x y : Float) :
    (x + y).toModel.unpack =
      unpack Format.binary64
        (pack Format.binary64 (add Format.binary64 x.toModel.unpack y.toModel.unpack)) :=
  rfl

theorem unpack_sub (x y : Float) :
    (x - y).toModel.unpack =
      unpack Format.binary64
        (pack Format.binary64 (sub Format.binary64 x.toModel.unpack y.toModel.unpack)) :=
  rfl

/-! ### What is no number -/

theorem isNaN_iff : x.isNaN ↔ x.toModel.unpack = .notANumber := by
  change x.toModel.unpack.isNaN ↔ _
  cases x.toModel.unpack <;> simp [UnpackedFloat.isNaN]

theorem isNaN_mul_right (hy : y.isNaN) : (x * y).isNaN := by
  rw [isNaN_iff] at hy ⊢
  rw [unpack_mul, hy]
  cases x.toModel.unpack <;> rfl

theorem isNaN_sub_left (hx : x.isNaN) : (x - y).isNaN := by
  rw [isNaN_iff] at hx ⊢
  rw [unpack_sub, hx, notANumber_sub]
  exact unpack_pack (u := .notANumber) trivial

theorem isNaN_add_left (hx : x.isNaN) : (x + y).isNaN := by
  rw [isNaN_iff] at hx ⊢
  rw [unpack_add, hx, notANumber_add]
  exact unpack_pack (u := .notANumber) trivial

theorem ne_notANumber_of_isFinite (h : u.isFinite) : u ≠ .notANumber := by
  rintro rfl
  cases h

theorem not_isNaN_add (hx : x.isFinite) (hy : y.isFinite) : ¬ (x + y).isNaN := by
  rw [isNaN_iff, unpack_add]
  exact unpack_pack_ne_notANumber (ne_notANumber_of_isFinite (isFinite_add hx hy))

theorem not_isNaN_sub (hx : x.isFinite) (hy : y.isFinite) : ¬ (x - y).isNaN := by
  rw [isNaN_iff, unpack_sub]
  exact unpack_pack_ne_notANumber (ne_notANumber_of_isFinite (isFinite_sub hx hy))

theorem not_isNaN_mul (hx : x.isFinite) (hy : y.isFinite) : ¬ (x * y).isNaN := by
  rw [isNaN_iff]
  exact unpack_pack_ne_notANumber (ne_notANumber_of_isFinite (isFinite_mul hx hy))

theorem isInf_iff : x.isInf ↔ ¬ x.isFinite ∧ ¬ x.isNaN := by
  change x.toModel.unpack.isInf ↔ ¬ x.toModel.unpack.isFinite ∧ ¬ x.toModel.unpack.isNaN
  cases x.toModel.unpack <;>
    simp [UnpackedFloat.isInf, UnpackedFloat.isFinite, UnpackedFloat.isNaN]

/-! ### Results that are finite -/

theorem isFinite_of_overflow_eq (hx : x.toModel.unpack = overflow u) (hu : u.isFinite)
    (hover : overflow u = u) : x.isFinite ∧ |value x| = absolute u := by
  have hfinite : x.isFinite := by
    change x.toModel.unpack.isFinite
    rw [hx, hover]
    exact hu
  exact ⟨hfinite, by rw [abs_value hfinite, hx, hover]⟩

theorem isFinite_mul_of_le (hx : x.isFinite) (hy : y.isFinite) (hr : IsSize r)
    (h : |value x| * |value y| ≤ r) : (x * y).isFinite ∧ |value (x * y)| ≤ r := by
  have hcx := isCanonical_unpacked x
  have hcy := isCanonical_unpacked y
  rw [abs_value hx, abs_value hy] at h
  have hle := absolute_mul_le hcx hcy hr h
  obtain ⟨hfinite, hvalue⟩ := isFinite_of_overflow_eq (unpack_mul x y) (isFinite_mul hx hy)
    (overflow_eq_self (isCanonical_mul hcx hcy) hr hle)
  exact ⟨hfinite, hvalue.trans_le hle⟩

theorem le_abs_value_mul (hx : x.isFinite) (hy : y.isFinite) (hxy : (x * y).isFinite)
    (hr : IsSize r) (h : r ≤ |value x| * |value y|) : r ≤ |value (x * y)| := by
  have hcx := isCanonical_unpacked x
  have hcy := isCanonical_unpacked y
  rw [abs_value hx, abs_value hy] at h
  have hover : overflow (UnpackedFloat.mul Format.binary64 x.toModel.unpack y.toModel.unpack) = _ :=
    overflow_of_isFinite ((congrArg _ (unpack_mul x y)).symm.trans hxy)
  rw [abs_value hxy, unpack_mul, hover]
  exact le_absolute_mul hcx hcy hr h

/-! ### Numbers that are not negative -/

theorem pos_iff_compare :
    0 < x ↔ UnpackedFloat.compare (.zero .positive) x.toModel.unpack = some .lt := by
  have hzero : (0 : Float).toModel.unpack = .zero .positive := by rfl
  rw [← hzero]
  exact decide_eq_true_iff.trans beq_iff_eq

theorem exists_unpack_of_pos (hx : x.isFinite) (hpos : 0 < x) :
    ∃ m e h, x.toModel.unpack = .finite .positive m e h ∧ value x = m * 2 ^ e := by
  change x.toModel.unpack.isFinite at hx
  rw [pos_iff_compare] at hpos
  cases hu : x.toModel.unpack with
  | finite s m e h =>
      cases s with
      | positive => exact ⟨m, e, h, rfl, value_of_unpack_eq_finite hu⟩
      | negative => simp [hu, UnpackedFloat.compare] at hpos
  | zero s => simp [hu, UnpackedFloat.compare] at hpos
  | infinity s => simp [hu, UnpackedFloat.isFinite] at hx
  | notANumber => simp [hu, UnpackedFloat.isFinite] at hx

theorem AtLeast.of_pos (hx : x.isFinite) (hpos : 0 < x) :
    0 < value x ∧ AtLeast (value x) x.toModel.unpack := by
  obtain ⟨m, e, h, hu, hvalue⟩ := exists_unpack_of_pos hx hpos
  rw [hvalue, hu]
  exact ⟨by positivity, rfl, le_rfl⟩

theorem AtLeast.mul (hx : x.isFinite) (hpos : 0 < x) (hy : AtLeast q y.toModel.unpack)
    (hr : IsSize r) (h : r ≤ value x * q) : AtLeast r (x * y).toModel.unpack := by
  obtain ⟨m, e, hm, hu, hvalue⟩ := exists_unpack_of_pos hx hpos
  have hcanonical := isCanonical_unpacked x
  rw [hu] at hcanonical
  rw [unpack_mul, hu]
  exact (atLeast_mul hcanonical (isCanonical_unpacked y) hy hr (hvalue ▸ h)).overflow

theorem AtLeast.div (hx : x.isFinite) (hpos : 0 < x) (hy : AtLeast 0 y.toModel.unpack) :
    AtLeast 0 (x / y).toModel.unpack := by
  obtain ⟨m, e, hm, hu, -⟩ := exists_unpack_of_pos hx hpos
  rw [unpack_div, hu]
  exact (atLeast_div hy).overflow

/-- A quotient by a number that is great enough, or by infinity, is finite. -/
theorem isFinite_div_of_lt (hx : x.isFinite) (hy : AtLeast q y.toModel.unpack) (hq : 0 < q)
    (hlow : -1074 ≤ k) (hhigh : k ≤ 1023) (h : |value x| < 2 ^ k * q) : (x / y).isFinite := by
  rw [abs_value hx] at h
  change x.toModel.unpack.isFinite at hx
  change (x / y).toModel.unpack.isFinite
  rw [unpack_div]
  generalize x.toModel.unpack = u at *
  cases hv : y.toModel.unpack with
  | finite s m e hm =>
      rw [hv] at hy
      have hfinite : (UnpackedFloat.div Format.binary64 u (.finite s m e hm)).isFinite := by
        cases u with
        | finite => exact isFinite_roundWithAccuracy
        | zero => rfl
        | _ => simp [UnpackedFloat.isFinite] at hx
      have hlt : absolute u < 2 ^ k * absolute (.finite s m e hm) :=
        h.trans_le (mul_le_mul_of_nonneg_left hy.2 (by positivity))
      rw [overflow_eq_self (isCanonical_div _ _) (isSize_zpow hlow hhigh)
        (absolute_div_le hlow hlt)]
      exact hfinite
  | infinity s =>
      cases u with
      | finite => rfl
      | zero => rfl
      | _ => simp [UnpackedFloat.isFinite] at hx
  | zero s => rw [hv] at hy; exact absurd hy.2 (not_le.2 hq)
  | notANumber => rw [hv] at hy; exact hy.elim

theorem absolute_unpacked_lt (x : Float) : absolute x.toModel.unpack < 2 ^ (1024 : Int) := by
  have hcanonical := isCanonical_unpacked x
  cases hu : x.toModel.unpack with
  | finite s m e h =>
      rw [hu] at hcanonical
      calc (m : ℚ) * 2 ^ e < (2 ^ 53 : Nat) * 2 ^ e := natCast_mul_zpow_lt_iff.2 hcanonical.1
        _ ≤ (2 ^ 53 : Nat) * 2 ^ (971 : Int) := mul_le_mul_of_nonneg_left
          (zpow_le_zpow_right₀ one_le_two (unpacked_exponent_le hu)) (by positivity)
        _ = 2 ^ (1024 : Int) := by
          rw [show (1024 : Int) = 53 + 971 from rfl, zpow_add₀ two_ne_zero]
          norm_num
  | _ => exact zpow_pos two_pos _

/-- A positive number divided by zero is infinite. -/
theorem pos_of_isFinite_div (hx : x.isFinite) (hpos : 0 < x) (hy : AtLeast 0 y.toModel.unpack)
    (h : (x / y).isFinite) : 0 < y := by
  obtain ⟨m, e, hm, hu, -⟩ := exists_unpack_of_pos hx hpos
  change (x / y).toModel.unpack.isFinite at h
  rw [unpack_div, hu] at h
  rw [pos_iff_compare]
  cases hv : y.toModel.unpack with
  | finite s m e hm =>
      rw [hv] at hy
      obtain ⟨rfl, -⟩ := hy
      rfl
  | infinity s =>
      rw [hv] at hy
      obtain rfl : s = .positive := hy
      rfl
  | zero s => simp [hv, UnpackedFloat.div, overflow, UnpackedFloat.isFinite] at h
  | notANumber => rw [hv] at hy; exact hy.elim

/-- The square root of a finite number is far from the greatest double. -/
theorem isFinite_sqrt (hx : x.isFinite) (h : AtLeast 0 x.toModel.unpack) :
    x.sqrt.isFinite ∧ |value x.sqrt| ≤ 2 ^ (512 : Int) := by
  have hle := absolute_sqrt_le (k := 512) (by decide) (absolute_unpacked_lt x)
  have hfinite : (UnpackedFloat.sqrt Format.binary64 x.toModel.unpack).isFinite := by
    change x.toModel.unpack.isFinite at hx
    cases hu : x.toModel.unpack with
    | finite s m e hm =>
        rw [hu] at h
        obtain ⟨rfl, -⟩ := h
        exact isFinite_roundWithAccuracy
    | zero s => rfl
    | infinity s => simp [hu, UnpackedFloat.isFinite] at hx
    | notANumber => simp [hu, UnpackedFloat.isFinite] at hx
  obtain ⟨hroot, hvalue⟩ := isFinite_of_overflow_eq (unpack_sqrt x) hfinite
    (overflow_eq_self (isCanonical_sqrt _) (isSize_zpow (by decide) (by decide)) hle)
  exact ⟨hroot, hvalue.trans_le hle⟩

theorem unpack_sqrt_of_not_isFinite (hx : ¬ x.isFinite) (h : AtLeast 0 x.toModel.unpack) :
    x.sqrt.toModel.unpack = .infinity .positive := by
  change ¬ x.toModel.unpack.isFinite at hx
  rw [unpack_sqrt]
  cases hu : x.toModel.unpack with
  | infinity s =>
      rw [hu] at h
      obtain rfl : s = .positive := h
      rfl
  | notANumber => rw [hu] at h; exact h.elim
  | _ => simp [hu, UnpackedFloat.isFinite] at hx

theorem not_isFinite_mul (hx : x.toModel.unpack = .infinity s) : ¬ (x * y).isFinite := by
  change ¬ (x * y).toModel.unpack.isFinite
  rw [unpack_mul, hx]
  cases y.toModel.unpack <;> simp [UnpackedFloat.mul, overflow, UnpackedFloat.isFinite]

end Double

end FlightScript
