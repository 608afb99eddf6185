import FlightScript.Object.Spacecraft

/-!
# Propagation

A spacecraft is moved on a circular orbit: position and velocity are turned about
the third axis by the mean motion at the present radius, and the epoch goes on by
the same interval in whole milliseconds. Everything is checked before anything
changes, in the order of the constructors of `PropagationError`.
-/

namespace FlightScript

inductive PropagationError where
  /-- The interval is not a finite number. -/
  | invalidInterval (seconds : Float)
  /-- The distance from the centre is zero or not a finite number. -/
  | noRadius
  /-- The calendar does not reach so far. -/
  | outOfRange (seconds : Float)
  deriving DecidableEq

namespace PropagationError

def message : PropagationError → String
  | .invalidInterval seconds => "Invalid propagation interval: " ++ Double.plain seconds
  | .noRadius => "Cannot propagate a spacecraft at zero radius"
  | .outOfRange seconds =>
    "Propagation interval of " ++ Double.plain seconds ++ " s is out of range"

end PropagationError

/-- The gravitational parameter of the Earth, in cubic kilometres per square
second. -/
def earthMu : Float := 398600.4418

def daySeconds : Float := 86400

/-- An interval in whole milliseconds, a half rounded away from zero, if it has
fewer than `2 ^ 63` of them. -/
def wholeMillis? (seconds : Float) : Option Int :=
  let millis := seconds * 1000
  if millis.isFinite then
    let n := Double.roundToInt millis
    if n.natAbs < twoPow 63 then some n else none
  else none

namespace Spacecraft

def radius (s : Spacecraft) : Float :=
  (s.x * s.x + s.y * s.y + s.z * s.z).sqrt

/-- The mean motion on the circular orbit of a given radius. -/
def meanMotion (radius : Float) : Float :=
  (earthMu / (radius * (radius * radius))).sqrt

/-- The spacecraft with its position and velocity turned by an angle. -/
def turn (s : Spacecraft) (angle : Float) : Spacecraft :=
  let sin := angle.sin
  let cos := angle.cos
  { s with
    x := s.x * cos - s.y * sin
    y := s.x * sin + s.y * cos
    vx := s.vx * cos - s.vy * sin
    vy := s.vx * sin + s.vy * cos }

def epochAfter? (s : Spacecraft) (seconds : Float) : Option Instant :=
  (wholeMillis? seconds).bind s.epoch.shift?

def propagate (s : Spacecraft) (seconds : Float) : Except PropagationError Spacecraft :=
  if !seconds.isFinite then .error (.invalidInterval seconds)
  else if !(s.radius.isFinite && 0 < s.radius) then .error .noRadius
  else
    match s.epochAfter? seconds with
    | none => .error (.outOfRange seconds)
    | some epoch => .ok { s.turn (meanMotion s.radius * seconds) with epoch := epoch }

def propagateDays (s : Spacecraft) (days : Float) : Except PropagationError Spacecraft :=
  s.propagate (days * daySeconds)

/-- Turning leaves alone what lies along the axis, the masses, the epoch and what
was assigned. -/
theorem turn_rest (s : Spacecraft) (angle : Float) :
    (s.turn angle).z = s.z ∧ (s.turn angle).vz = s.vz ∧
      (s.turn angle).fuelMass = s.fuelMass ∧ (s.turn angle).dryMass = s.dryMass ∧
      (s.turn angle).epoch = s.epoch ∧ (s.turn angle).properties = s.properties :=
  ⟨rfl, rfl, rfl, rfl, rfl, rfl⟩

end Spacecraft

end FlightScript
