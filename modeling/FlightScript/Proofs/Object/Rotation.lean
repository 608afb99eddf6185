import FlightScript.Proofs.Object.Propagation

/-!
# Numbers that stay numbers

A propagation turns position and velocity by the mean motion times the interval. The mean motion
is the root of a quotient by the cube of the radius, and of the radius it is only checked that it
is positive. While the quotient is finite the angle is finite, too
(`Spacecraft.isFinite_angle_iff`), and the coordinates stay numbers
(`Spacecraft.not_isNaN_turnBy`). But near the centre the cube is so small that the quotient is
infinite, and then all of them are lost (`Spacecraft.isNaN_turnBy`). The sine and the cosine are
those of the platform, so they are taken as any two functions that have a few properties of
them.
-/

namespace FlightScript

open Double

/-- What is known of the sine and the cosine: a number of size one at most at every finite angle,
and none elsewhere. -/
structure IsCircular (f : Float → Float) : Prop where
  isFinite : ∀ {a : Float}, a.isFinite → (f a).isFinite
  abs_value_le : ∀ {a : Float}, a.isFinite → |value (f a)| ≤ 1
  isNaN : ∀ {a : Float}, ¬ a.isFinite → (f a).isNaN

/-- The simplest such functions. -/
theorem isCircular_const {c : Float} (hfinite : c.isFinite) (hle : |value c| ≤ 1) :
    IsCircular fun a => if a.isFinite then c else nan where
  isFinite h := by
    rw [if_pos h]
    exact hfinite
  abs_value_le h := by
    rw [if_pos h]
    exact hle
  isNaN h := by
    rw [if_neg h]
    decide +kernel

namespace Spacecraft

variable {s t : Spacecraft} {seconds : Float} {sine cosine : Float → Float}

/-- The spacecraft with its position and velocity turned by an angle with given sine and
cosine. -/
def turnBy (s : Spacecraft) (sin cos : Float) : Spacecraft :=
  { s with
    x := s.x * cos - s.y * sin
    y := s.x * sin + s.y * cos
    vx := s.vx * cos - s.vy * sin
    vy := s.vx * sin + s.vy * cos }

/-- The spacecraft after an interval in seconds, with any two functions as the sine and the
cosine. -/
def propagateWith (sine cosine : Float → Float) (s : Spacecraft) (seconds : Float) :
    Except PropagationError Spacecraft :=
  (s.propagate seconds).map fun t =>
    let angle := meanMotion s.radius * seconds
    { s.turnBy (sine angle) (cosine angle) with epoch := t.epoch }

/-- It is what the program does with the functions of the platform. -/
theorem propagateWith_sin_cos (s : Spacecraft) (seconds : Float) :
    s.propagateWith Float.sin Float.cos seconds = s.propagate seconds := by
  rcases s.propagate_cases seconds with ⟨-, hp⟩ | ⟨-, -, hp⟩ | ⟨-, -, hp⟩ | ⟨-, epoch, -, hp⟩
  all_goals
    rw [propagateWith, hp]
    rfl

theorem propagateWith_eq_ok_iff :
    s.propagateWith sine cosine seconds = .ok t ↔
      s.CanMove seconds ∧ ∃ epoch, s.epochAfter? seconds = some epoch ∧
        t = { s.turnBy (sine (meanMotion s.radius * seconds))
          (cosine (meanMotion s.radius * seconds)) with epoch := epoch } := by
  rcases s.propagate_cases seconds with ⟨h, hp⟩ | ⟨-, h, hp⟩ | ⟨h, hnone, hp⟩ |
    ⟨h, epoch, hepoch, hp⟩
  · simp [propagateWith, Except.map, hp, CanMove, h]
  · simp [propagateWith, Except.map, hp, h]
  · simp [propagateWith, Except.map, hp, hnone]
  · simp [propagateWith, Except.map, hp, h, hepoch, eq_comm]

/-- The divisor under the root of the mean motion. -/
def cube (s : Spacecraft) : Float :=
  s.radius * (s.radius * s.radius)

/-- The position and the velocity across the axis are finite. -/
structure HasFiniteState (s : Spacecraft) : Prop where
  x : s.x.isFinite
  y : s.y.isFinite
  vx : s.vx.isFinite
  vy : s.vy.isFinite

/-! ### The angle -/

theorem le_natAbs_roundAway {n : Nat} {q : ℚ} (h : (n : ℚ) ≤ |q|) : n ≤ (roundAway q).natAbs := by
  unfold roundAway
  split
  · next hnonneg =>
    rw [abs_of_nonneg hnonneg] at h
    have hle : (n : Int) ≤ ⌊q + 1 / 2⌋ := Int.le_floor.2 (by push_cast; linarith)
    omega
  · next hneg =>
    rw [abs_of_neg (not_le.1 hneg)] at h
    have hle : (n : Int) ≤ ⌊-q + 1 / 2⌋ := Int.le_floor.2 (by push_cast; linarith)
    omega

theorem value_thousand : value 1000 = 1000 := by
  decide +kernel

/-- An interval of more than `2 ^ 54` seconds has too many milliseconds. -/
theorem abs_value_le_of_epochAfter? {epoch : Instant} (hfinite : seconds.isFinite)
    (h : s.epochAfter? seconds = some epoch) : |value seconds| ≤ 2 ^ (54 : Int) := by
  obtain ⟨hmillis, hlt, -⟩ := epochAfter?_eq_some_iff.1 h
  by_contra hgt
  have hproduct : (2 : ℚ) ^ (63 : Int) ≤ |value seconds| * |value 1000| := by
    rw [value_thousand]
    norm_num at hgt ⊢
    linarith
  have hle := le_abs_value_mul hfinite isFinite_thousand hmillis
    (isSize_zpow (by decide) (by decide)) hproduct
  exact absurd (le_natAbs_roundAway (n := 2 ^ 63) (by exact_mod_cast hle)) (not_le.2 hlt)

theorem earthMu_pos : 0 < earthMu := by
  decide +kernel

theorem isFinite_earthMu : earthMu.isFinite := by
  decide +kernel

theorem value_earthMu_lt : |value earthMu| < 2 ^ 19 := by
  decide +kernel

theorem atLeast_cube (h : s.CanMove seconds) : AtLeast 0 s.cube.toModel.unpack := by
  obtain ⟨-, hfinite, hpos⟩ := h
  obtain ⟨hvalue, hradius⟩ := AtLeast.of_pos hfinite hpos
  have hsquare := AtLeast.mul hfinite hpos hradius isSize_zero (mul_self_nonneg _)
  exact AtLeast.mul hfinite hpos hsquare isSize_zero (mul_zero _).ge

theorem atLeast_quotient (h : s.CanMove seconds) :
    AtLeast 0 (earthMu / s.cube).toModel.unpack :=
  AtLeast.div isFinite_earthMu earthMu_pos (atLeast_cube h)

/-- The angle is finite just if the quotient under the root is. -/
theorem isFinite_angle_iff {epoch : Instant} (h : s.CanMove seconds)
    (hepoch : s.epochAfter? seconds = some epoch) :
    (meanMotion s.radius * seconds).isFinite ↔ (earthMu / s.cube).isFinite := by
  have hseconds := abs_value_le_of_epochAfter? h.1 hepoch
  change ((earthMu / s.cube).sqrt * seconds).isFinite ↔ _
  by_cases hquotient : (earthMu / s.cube).isFinite
  · obtain ⟨hroot, hle⟩ := isFinite_sqrt hquotient (atLeast_quotient h)
    have hproduct : |value (earthMu / s.cube).sqrt| * |value seconds| ≤ 2 ^ (566 : Int) := by
      calc _ ≤ (2 : ℚ) ^ (512 : Int) * 2 ^ (54 : Int) :=
            mul_le_mul hle hseconds (abs_nonneg _) (by positivity)
        _ = 2 ^ (566 : Int) := (zpow_add₀ two_ne_zero 512 54).symm
    exact iff_of_true (isFinite_mul_of_le hroot h.1 (isSize_zpow (by decide) (by decide))
      hproduct).1 hquotient
  · exact iff_of_false
      (not_isFinite_mul (unpack_sqrt_of_not_isFinite hquotient (atLeast_quotient h))) hquotient

/-- At least `2 ^ -334` kilometres from the centre the quotient is finite. -/
theorem isFinite_quotient_of_le (h : s.CanMove seconds)
    (hle : (2 : ℚ) ^ (-334 : Int) ≤ value s.radius) : (earthMu / s.cube).isFinite := by
  obtain ⟨-, hfinite, hpos⟩ := h
  obtain ⟨hvalue, hradius⟩ := AtLeast.of_pos hfinite hpos
  have hsquare : AtLeast (2 ^ (-668 : Int)) (s.radius * s.radius).toModel.unpack := by
    refine AtLeast.mul hfinite hpos hradius (isSize_zpow (by decide) (by decide)) ?_
    rw [show (-668 : Int) = -334 + -334 from rfl, zpow_add₀ two_ne_zero]
    exact mul_le_mul hle hle (by positivity) hvalue.le
  have hcube : AtLeast (2 ^ (-1002 : Int)) s.cube.toModel.unpack := by
    refine AtLeast.mul hfinite hpos hsquare (isSize_zpow (by decide) (by decide)) ?_
    rw [show (-1002 : Int) = -334 + -668 from rfl, zpow_add₀ two_ne_zero]
    exact mul_le_mul_of_nonneg_right hle (by positivity)
  refine isFinite_div_of_lt (k := 1021) isFinite_earthMu hcube (by positivity) (by decide)
    (by decide) ?_
  rw [← zpow_add₀ two_ne_zero]
  exact value_earthMu_lt

/-! ### The coordinates -/

/-- A number of size one at most makes no finite product infinite. -/
theorem isFinite_mul_of_abs_le_one {x y : Float} (hx : x.isFinite) (hy : y.isFinite)
    (hle : |value y| ≤ 1) : (x * y).isFinite :=
  (isFinite_mul_of_le hx hy (isSize_abs_value hx)
    (mul_le_of_le_one_right (abs_nonneg _) hle)).1

theorem not_isNaN_turnBy {sin cos : Float} (hs : s.HasFiniteState) (hsin : sin.isFinite)
    (hsin' : |value sin| ≤ 1) (hcos : cos.isFinite) (hcos' : |value cos| ≤ 1) :
    ¬ (s.turnBy sin cos).x.isNaN ∧ ¬ (s.turnBy sin cos).y.isNaN ∧
      ¬ (s.turnBy sin cos).vx.isNaN ∧ ¬ (s.turnBy sin cos).vy.isNaN :=
  ⟨not_isNaN_sub (isFinite_mul_of_abs_le_one hs.x hcos hcos')
      (isFinite_mul_of_abs_le_one hs.y hsin hsin'),
    not_isNaN_add (isFinite_mul_of_abs_le_one hs.x hsin hsin')
      (isFinite_mul_of_abs_le_one hs.y hcos hcos'),
    not_isNaN_sub (isFinite_mul_of_abs_le_one hs.vx hcos hcos')
      (isFinite_mul_of_abs_le_one hs.vy hsin hsin'),
    not_isNaN_add (isFinite_mul_of_abs_le_one hs.vx hsin hsin')
      (isFinite_mul_of_abs_le_one hs.vy hcos hcos')⟩

theorem isNaN_turnBy {sin cos : Float} (hsin : sin.isNaN) (hcos : cos.isNaN) :
    (s.turnBy sin cos).x.isNaN ∧ (s.turnBy sin cos).y.isNaN ∧
      (s.turnBy sin cos).vx.isNaN ∧ (s.turnBy sin cos).vy.isNaN :=
  ⟨isNaN_sub_left (isNaN_mul_right hcos), isNaN_add_left (isNaN_mul_right hsin),
    isNaN_sub_left (isNaN_mul_right hcos), isNaN_add_left (isNaN_mul_right hsin)⟩

/-- A spacecraft that is moved has a finite angle just if the quotient under the root of its
mean motion is finite. Then the divisor was not zero, and finite coordinates stay numbers. If
the quotient is infinite all of them are lost. At least `2 ^ -334` kilometres from the centre it
is finite. -/
theorem numbers_after_propagateWith (hsine : IsCircular sine) (hcosine : IsCircular cosine)
    (hs : s.HasFiniteState) (h : s.propagateWith sine cosine seconds = .ok t) :
    ((meanMotion s.radius * seconds).isFinite ↔ (earthMu / s.cube).isFinite) ∧
    ((earthMu / s.cube).isFinite →
      0 < s.cube ∧ ¬ t.x.isNaN ∧ ¬ t.y.isNaN ∧ ¬ t.vx.isNaN ∧ ¬ t.vy.isNaN) ∧
    (¬ (earthMu / s.cube).isFinite →
      t.x.isNaN ∧ t.y.isNaN ∧ t.vx.isNaN ∧ t.vy.isNaN) ∧
    ((2 : ℚ) ^ (-334 : Int) ≤ value s.radius → (earthMu / s.cube).isFinite) := by
  obtain ⟨hmove, epoch, hepoch, rfl⟩ := propagateWith_eq_ok_iff.1 h
  have hangle := isFinite_angle_iff hmove hepoch
  refine ⟨hangle, fun hquotient => ⟨pos_of_isFinite_div isFinite_earthMu
    earthMu_pos (atLeast_cube hmove) hquotient, ?_⟩,
    fun hquotient => ?_, isFinite_quotient_of_le hmove⟩
  · have hfinite := hangle.2 hquotient
    exact not_isNaN_turnBy hs (hsine.isFinite hfinite) (hsine.abs_value_le hfinite)
      (hcosine.isFinite hfinite) (hcosine.abs_value_le hfinite)
  · have hfinite := mt hangle.1 hquotient
    exact isNaN_turnBy (hsine.isNaN hfinite) (hcosine.isNaN hfinite)

/-- A spacecraft far from the centre keeps its numbers for a minute; it is turned, and its epoch
goes on. -/
theorem numbers_after_one_minute :
    let sine (a : Float) : Float := if a.isFinite then 0.6 else nan
    let cosine (a : Float) : Float := if a.isFinite then 0.8 else nan
    let s : Spacecraft := { initial with x := 6800, y := -1900 }
    ∃ t, s.propagateWith sine cosine 60 = .ok t ∧ 0 < s.cube ∧
      (¬ t.x.isNaN ∧ ¬ t.y.isNaN ∧ ¬ t.vx.isNaN ∧ ¬ t.vy.isNaN) ∧
      t.x = 6800 * 0.8 - -1900 * 0.6 ∧ t.epoch.seconds = s.epoch.seconds + 60 := by
  intro sine cosine s
  have hsine : IsCircular sine := isCircular_const (by decide +kernel) (by decide +kernel)
  have hcosine : IsCircular cosine := isCircular_const (by decide +kernel) (by decide +kernel)
  have hstate : s.HasFiniteState :=
    ⟨by decide +kernel, by decide +kernel, by decide +kernel, by decide +kernel⟩
  have hmove : s.CanMove 60 := by decide +kernel
  have hepoch : s.epochAfter? 60 = some ⟨946728028, 0, by decide⟩ := by decide +kernel
  have hangle : (meanMotion s.radius * 60).isFinite := by decide +kernel
  obtain ⟨t, ht⟩ : ∃ t, s.propagateWith sine cosine 60 = .ok t :=
    ⟨_, propagateWith_eq_ok_iff.2 ⟨hmove, _, hepoch, rfl⟩⟩
  obtain ⟨-, hnumbers, -, hfar⟩ := numbers_after_propagateWith hsine hcosine hstate ht
  obtain ⟨hcube, hcoordinates⟩ := hnumbers (hfar (by decide +kernel))
  obtain ⟨-, epoch, hafter, hturned⟩ := propagateWith_eq_ok_iff.1 ht
  have hx : t.x = 6800 * cosine (meanMotion s.radius * 60) -
      -1900 * sine (meanMotion s.radius * 60) := congrArg Spacecraft.x hturned
  have hseconds : t.epoch = epoch := congrArg Spacecraft.epoch hturned
  rw [hepoch, Option.some.injEq] at hafter
  refine ⟨t, ht, hcube, hcoordinates, ?_, ?_⟩
  · rw [hx]
    exact congrArg₂ (fun c d : Float => 6800 * c - -1900 * d) (if_pos hangle) (if_pos hangle)
  · rw [hseconds, ← hafter]
    decide +kernel

/-- The cube of a radius that passes the check is rounded to zero. The spacecraft is moved, by an
angle that is not finite, and its coordinates are lost. -/
theorem cube_eq_zero_near_centre :
    let s : Spacecraft := { initial with x := 1e-120, y := 0, z := 0 }
    s.HasFiniteState ∧ (∃ t, s.propagate 60 = .ok t) ∧ s.cube = 0 ∧
      ¬ (meanMotion s.radius * 60).isFinite ∧
      ∀ sine cosine, IsCircular sine → IsCircular cosine →
        ∃ t, s.propagateWith sine cosine 60 = .ok t ∧
          t.x.isNaN ∧ t.y.isNaN ∧ t.vx.isNaN ∧ t.vy.isNaN := by
  intro s
  have hmove : s.CanMove 60 := by decide +kernel
  have hepoch : s.epochAfter? 60 = some ⟨946728028, 0, by decide⟩ := by decide +kernel
  have hangle : ¬ (meanMotion s.radius * 60).isFinite := by decide +kernel
  refine ⟨⟨by decide +kernel, by decide +kernel, by decide +kernel, by decide +kernel⟩,
    ⟨_, propagate_eq_ok_iff.2 ⟨hmove, _, hepoch, rfl⟩⟩, by decide +kernel, hangle,
    fun sine cosine hsine hcosine => ?_⟩
  exact ⟨_, propagateWith_eq_ok_iff.2 ⟨hmove, _, hepoch, rfl⟩,
    isNaN_turnBy (hsine.isNaN hangle) (hcosine.isNaN hangle)⟩

end Spacecraft

end FlightScript
