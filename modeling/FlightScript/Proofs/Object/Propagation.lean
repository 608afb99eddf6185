import FlightScript.Object.Propagation
import FlightScript.Proofs.Calendar.Shift
import FlightScript.Proofs.Decimal.Arithmetic

/-!
# Moving a spacecraft

Propagation has four outcomes (`Spacecraft.propagate_cases`): the interval is not finite, the
radius is not a positive number, the calendar does not reach so far, or the spacecraft is moved.
All checks come before the first change, so that moving a spacecraft in place
(`Spacecraft.propagateInPlace`) either changes nothing or comes to the moved spacecraft
(`Spacecraft.run_propagateInPlace`).
-/

namespace FlightScript

open Double

variable {seconds : Float} {n : Int}

/-- An interval has `2 ^ 63` milliseconds or more in either direction. -/
def IsOverlong (seconds : Float) : Prop :=
  (seconds * 1000).isInf ∨ 2 ^ 63 ≤ (roundAway (value (seconds * 1000))).natAbs

theorem wholeMillis?_eq_some_iff :
    wholeMillis? seconds = some n ↔
      (seconds * 1000).isFinite ∧ roundAway (value (seconds * 1000)) = n ∧ n.natAbs < 2 ^ 63 := by
  have hpow : twoPow 63 = 2 ^ 63 := rfl
  unfold wholeMillis?
  simp only [roundToInt_eq, hpow]
  split
  · next hfinite =>
    split
    · next hlt =>
      simp only [hfinite, true_and, Option.some.injEq]
      constructor
      · rintro rfl
        exact ⟨rfl, hlt⟩
      · exact And.left
    · next hlt =>
      simp only [hfinite, true_and, reduceCtorEq, false_iff]
      rintro ⟨rfl, h⟩
      exact hlt h
  · next hfinite => simp [hfinite]

theorem isFinite_thousand : (1000 : Float).isFinite := by
  decide +kernel

theorem wholeMillis?_eq_none_iff (h : seconds.isFinite) :
    wholeMillis? seconds = none ↔ IsOverlong seconds := by
  have hinf : (seconds * 1000).isInf ↔ ¬ (seconds * 1000).isFinite := by
    rw [isInf_iff, and_iff_left (not_isNaN_mul h isFinite_thousand)]
  rw [Option.eq_none_iff_forall_ne_some, IsOverlong, hinf]
  simp only [ne_eq, wholeMillis?_eq_some_iff]
  grind

namespace Spacecraft

variable {s t : Spacecraft} {epoch : Instant} {e : PropagationError}

theorem epochAfter?_eq_some_iff :
    s.epochAfter? seconds = some epoch ↔
      (seconds * 1000).isFinite ∧ (roundAway (value (seconds * 1000))).natAbs < 2 ^ 63 ∧
        s.epoch.shift? (roundAway (value (seconds * 1000))) = some epoch := by
  simp only [epochAfter?, Option.bind_eq_some_iff, wholeMillis?_eq_some_iff]
  constructor
  · rintro ⟨n, ⟨hfinite, rfl, hlt⟩, hshift⟩
    exact ⟨hfinite, hlt, hshift⟩
  · rintro ⟨hfinite, hlt, hshift⟩
    exact ⟨_, ⟨hfinite, rfl, hlt⟩, hshift⟩

theorem epochAfter?_eq_none_iff (h : seconds.isFinite) :
    s.epochAfter? seconds = none ↔
      IsOverlong seconds ∨ ¬ s.epoch.Reaches (roundAway (value (seconds * 1000))) := by
  rw [epochAfter?, Option.bind_eq_none_iff, ← wholeMillis?_eq_none_iff h]
  cases hn : wholeMillis? seconds with
  | none => simp
  | some n =>
      obtain ⟨-, rfl, -⟩ := wholeMillis?_eq_some_iff.1 hn
      simp [← Instant.isSome_shift?_iff]

/-- The interval and the radius pass the checks. -/
def CanMove (s : Spacecraft) (seconds : Float) : Prop :=
  seconds.isFinite ∧ s.radius.isFinite ∧ 0 < s.radius

instance (s : Spacecraft) (seconds : Float) : Decidable (s.CanMove seconds) :=
  inferInstanceAs (Decidable (_ ∧ _))

/-- A spacecraft is moved, or the first check that fails is reported. -/
theorem propagate_cases (s : Spacecraft) (seconds : Float) :
    (¬ seconds.isFinite ∧ s.propagate seconds = .error (.invalidInterval seconds)) ∨
    (seconds.isFinite ∧ ¬ s.CanMove seconds ∧ s.propagate seconds = .error .noRadius) ∨
    (s.CanMove seconds ∧ s.epochAfter? seconds = none ∧
      s.propagate seconds = .error (.outOfRange seconds)) ∨
    (s.CanMove seconds ∧ ∃ epoch, s.epochAfter? seconds = some epoch ∧
      s.propagate seconds =
        .ok { s.turn (meanMotion s.radius * seconds) with epoch := epoch }) := by
  unfold CanMove propagate
  by_cases hseconds : seconds.isFinite
  · by_cases hradius : s.radius.isFinite ∧ 0 < s.radius
    · cases s.epochAfter? seconds with
      | none => simp [hseconds, hradius]
      | some epoch => simp [hseconds, hradius]
    · simp [hseconds, hradius]
  · simp [hseconds]

theorem propagate_eq_ok_iff :
    s.propagate seconds = .ok t ↔
      s.CanMove seconds ∧ ∃ epoch, s.epochAfter? seconds = some epoch ∧
        t = { s.turn (meanMotion s.radius * seconds) with epoch := epoch } := by
  rcases s.propagate_cases seconds with ⟨h, hp⟩ | ⟨-, h, hp⟩ | ⟨h, hnone, hp⟩ |
    ⟨h, epoch, hepoch, hp⟩
  · simp [hp, CanMove, h]
  · simp [hp, h]
  · simp [hp, hnone]
  · simp [hp, h, hepoch, eq_comm]

theorem exists_propagate_error_iff :
    (∃ e, s.propagate seconds = .error e) ↔
      ¬ s.CanMove seconds ∨ s.epochAfter? seconds = none := by
  rcases s.propagate_cases seconds with ⟨h, hp⟩ | ⟨-, h, hp⟩ | ⟨h, hnone, hp⟩ |
    ⟨h, epoch, hepoch, hp⟩
  · simp [hp, CanMove, h]
  · simp [hp, h]
  · simp [hp, hnone]
  · simp [hp, h, hepoch]

/-- Turning a spacecraft in place, one field after the other. -/
def turnInPlace (angle : Float) : EStateM PropagationError Spacecraft Unit := do
  let ⟨x, y⟩ := ((← getThe Spacecraft).x, (← getThe Spacecraft).y)
  modify fun s => { s with x := x * angle.cos - y * angle.sin }
  modify fun s => { s with y := x * angle.sin + y * angle.cos }
  let ⟨vx, vy⟩ := ((← getThe Spacecraft).vx, (← getThe Spacecraft).vy)
  modify fun s => { s with vx := vx * angle.cos - vy * angle.sin }
  modify fun s => { s with vy := vx * angle.sin + vy * angle.cos }

/-- Moving a spacecraft in place: first the checks, then one field after the other. -/
def propagateInPlace (seconds : Float) : EStateM PropagationError Spacecraft Unit := do
  if !seconds.isFinite then throw (.invalidInterval seconds)
  else
    let radius := (← getThe Spacecraft).radius
    if !(radius.isFinite && 0 < radius) then throw .noRadius
    else
      match (← getThe Spacecraft).epochAfter? seconds with
      | none => throw (.outOfRange seconds)
      | some epoch =>
        turnInPlace (meanMotion radius * seconds)
        modify fun s => { s with epoch := epoch }

theorem run_turnInPlace (s : Spacecraft) (angle : Float) :
    (turnInPlace angle).run s = .ok () (s.turn angle) :=
  rfl

theorem run_propagateInPlace (s : Spacecraft) (seconds : Float) :
    (propagateInPlace seconds).run s =
      match s.propagate seconds with
      | .error e => .error e s
      | .ok t => .ok () t := by
  have hread : EStateM.run (getThe Spacecraft) s =
      (.ok s s : EStateM.Result PropagationError _ _) := rfl
  rw [propagateInPlace, propagate]
  by_cases hseconds : !seconds.isFinite
  · rw [if_pos hseconds, if_pos hseconds, EStateM.run_throw]
  · rw [if_neg hseconds, if_neg hseconds, EStateM.run_bind, hread]
    dsimp only
    by_cases hradius : !(s.radius.isFinite && 0 < s.radius)
    · rw [if_pos hradius, if_pos hradius, EStateM.run_throw]
    · rw [if_neg hradius, if_neg hradius, EStateM.run_bind, hread]
      dsimp only
      cases s.epochAfter? seconds with
      | none =>
          dsimp only
          rw [EStateM.run_throw]
      | some epoch =>
          dsimp only
          rw [EStateM.run_bind, run_turnInPlace]
          dsimp only
          rw [EStateM.run_modify]

/-- Moving a spacecraft is all or nothing. If it fails nothing has changed, and it fails just if
the interval is not finite, the radius is not finite or not positive, the interval has `2 ^ 63`
milliseconds or more, or the calendar does not reach so far. If it succeeds, what lies along the
axis, the masses and what was assigned are as before, and the epoch has gone on by the
milliseconds of the interval, a half rounded away from zero. -/
theorem propagate_all_or_nothing (s : Spacecraft) (seconds : Float) :
    let millis := roundAway (value (seconds * 1000))
    (∀ e t, (propagateInPlace seconds).run s = .error e t →
      t = s ∧ s.propagate seconds = .error e) ∧
    ((∃ e, s.propagate seconds = .error e) ↔
      ¬ seconds.isFinite ∨ ¬ s.radius.isFinite ∨ ¬ 0 < s.radius ∨ IsOverlong seconds ∨
        ¬ s.epoch.Reaches millis) ∧
    (¬ s.epoch.isLeap → (s.epoch.Reaches millis ↔
      Instant.InCalendar (s.epoch.ticks + millis * 1000000))) ∧
    ∀ t, s.propagate seconds = .ok t →
      (propagateInPlace seconds).run s = .ok () t ∧
      t.z = s.z ∧ t.vz = s.vz ∧ t.fuelMass = s.fuelMass ∧ t.dryMass = s.dryMass ∧
      t.properties = s.properties ∧ millis.natAbs < 2 ^ 63 ∧
      t.epoch.ticks = s.epoch.ticksAfter millis ∧
      (t.epoch.isLeap ↔ s.epoch.StaysInLeap millis) ∧
      (¬ s.epoch.isLeap → t.epoch.ticks = s.epoch.ticks + millis * 1000000) ∧
      t.epoch.nanos % 1000000 = s.epoch.nanos % 1000000 := by
  intro millis
  refine ⟨fun e t h => ?_, ?_, fun h => Instant.reaches_iff_of_not_isLeap h millis,
    fun t h => ?_⟩
  · rw [run_propagateInPlace] at h
    cases hp : s.propagate seconds with
    | error e' =>
        rw [hp] at h
        injection h with he ht
        exact ⟨ht.symm, congrArg Except.error he⟩
    | ok t' =>
        rw [hp] at h
        cases h
  · rw [exists_propagate_error_iff, CanMove]
    by_cases hfinite : seconds.isFinite
    · rw [epochAfter?_eq_none_iff hfinite]
      tauto
    · simp [hfinite]
  · have hrun := run_propagateInPlace s seconds
    rw [h] at hrun
    obtain ⟨-, epoch, hepoch, rfl⟩ := propagate_eq_ok_iff.1 h
    obtain ⟨-, hlt, hshift⟩ := epochAfter?_eq_some_iff.1 hepoch
    obtain ⟨hticks, hleap⟩ := Instant.shift?_eq_some_iff.1 hshift
    exact ⟨hrun, rfl, rfl, rfl, rfl, rfl, hlt, hticks, hleap,
      fun hnot => hticks.trans (Instant.ticksAfter_of_not_isLeap hnot millis),
      Instant.nanos_mod_of_ticks_eq hticks⟩

/-- Half a millisecond back is rounded to a whole one, and an interval that the calendar does
not hold changes nothing. -/
theorem propagate_all_or_nothing_initial :
    (∃ t, initial.propagate (-0.0005) = .ok t ∧
      t.epoch.ticks = initial.epoch.ticks - 1000000 ∧ t.z = 1300 ∧ t.properties = .empty) ∧
    ∃ e, (propagateInPlace 1e16).run initial = .error e initial := by
  constructor
  · obtain ⟨-, -, -, h⟩ := propagate_all_or_nothing initial (-0.0005)
    obtain ⟨t, ht⟩ : ∃ t, initial.propagate (-0.0005) = .ok t :=
      ⟨_, propagate_eq_ok_iff.2 ⟨by decide +kernel, ⟨946727967, 999000000, by decide⟩,
        by decide +kernel, rfl⟩⟩
    obtain ⟨-, hz, -, -, -, hproperties, -, -, -, hticks, -⟩ := h t ht
    refine ⟨t, ht, (hticks (by decide)).trans ?_, hz, hproperties⟩
    decide +kernel
  · obtain ⟨-, hfails, -, -⟩ := propagate_all_or_nothing initial 1e16
    have hoverlong : IsOverlong 1e16 := Or.inr (by decide +kernel)
    obtain ⟨e, he⟩ := hfails.2 (Or.inr (Or.inr (Or.inr (Or.inl hoverlong))))
    refine ⟨e, ?_⟩
    rw [run_propagateInPlace, he]

end Spacecraft

end FlightScript
