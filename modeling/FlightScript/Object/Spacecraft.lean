import FlightScript.Calendar.Layout
import FlightScript.Table
import FlightScript.Value

/-!
# Spacecraft

A spacecraft has an epoch, a position, a velocity and two masses. A property whose
name is in this vocabulary, in any case, is also a field; a field takes values of
its own kind only. What is assigned is kept in `properties` under the name as
written, whether or not it names a field.
-/

namespace FlightScript

inductive FieldKind where
  | number
  | epoch
  deriving DecidableEq, Repr

namespace FieldKind

def toText : FieldKind → String
  | .number => "number"
  | .epoch => "epoch"

end FieldKind

/-- A value cannot be read as what the field takes that it was assigned to. -/
structure CoercionError where
  property : String
  value : Value
  expected : FieldKind
  deriving DecidableEq

namespace CoercionError

def message (e : CoercionError) : String :=
  "Cannot convert '" ++ e.value.toText ++ "' to " ++ e.expected.toText ++ " for property " ++
    e.property

end CoercionError

namespace Value

def toNumber (property : String) (v : Value) : Except CoercionError Float :=
  match v.number? with
  | some x => .ok x
  | none => .error ⟨property, v, .number⟩

def toEpoch (property : String) (v : Value) : Except CoercionError Instant :=
  match Instant.read? v.toText with
  | some i => .ok i
  | none => .error ⟨property, v, .epoch⟩

end Value

/-- A spacecraft. Lengths are in kilometres, velocities in kilometres per second,
masses in kilograms. -/
structure Spacecraft where
  epoch : Instant
  x : Float
  y : Float
  z : Float
  vx : Float
  vy : Float
  vz : Float
  fuelMass : Float
  dryMass : Float
  /-- What was assigned, under the names as written. -/
  properties : Table Value
  deriving DecidableEq

namespace Spacecraft

inductive Quantity where
  | x
  | y
  | z
  | vx
  | vy
  | vz
  | fuelMass
  | dryMass
  deriving DecidableEq, Repr

inductive Field where
  | epoch
  | quantity (q : Quantity)
  deriving DecidableEq, Repr

def Field.ofName? (property : String) : Option Field :=
  match Text.foldCase property with
  | "epoch" => some .epoch
  | "x" => some (.quantity .x)
  | "y" => some (.quantity .y)
  | "z" => some (.quantity .z)
  | "vx" => some (.quantity .vx)
  | "vy" => some (.quantity .vy)
  | "vz" => some (.quantity .vz)
  | "fuelmass" => some (.quantity .fuelMass)
  | "drymass" => some (.quantity .dryMass)
  | _ => none

/-- The epoch of a new spacecraft, 28 seconds after 11:59 on the first day of the
year 2000. -/
def defaultEpoch : Instant :=
  ⟨946727968, 0, by decide⟩

def initial : Spacecraft where
  epoch := defaultEpoch
  x := 7100
  y := 0
  z := 1300
  vx := 0
  vy := 7.35
  vz := 1
  fuelMass := 0
  dryMass := 850
  properties := .empty

def get (s : Spacecraft) : Quantity → Float
  | .x => s.x
  | .y => s.y
  | .z => s.z
  | .vx => s.vx
  | .vy => s.vy
  | .vz => s.vz
  | .fuelMass => s.fuelMass
  | .dryMass => s.dryMass

def put (s : Spacecraft) (q : Quantity) (v : Float) : Spacecraft :=
  match q with
  | .x => { s with x := v }
  | .y => { s with y := v }
  | .z => { s with z := v }
  | .vx => { s with vx := v }
  | .vy => { s with vy := v }
  | .vz => { s with vz := v }
  | .fuelMass => { s with fuelMass := v }
  | .dryMass => { s with dryMass := v }

theorem get_put (s : Spacecraft) (q r : Quantity) (v : Float) :
    (s.put q v).get r = if q = r then v else s.get r := by
  cases q <;> cases r <;> rfl

@[simp] theorem epoch_put (s : Spacecraft) (q : Quantity) (v : Float) :
    (s.put q v).epoch = s.epoch := by
  cases q <;> rfl

@[simp] theorem properties_put (s : Spacecraft) (q : Quantity) (v : Float) :
    (s.put q v).properties = s.properties := by
  cases q <;> rfl

/-- The spacecraft with a value in the field that a property names; without such a
field it is left as it is. -/
def assign (s : Spacecraft) (property : String) (v : Value) : Except CoercionError Spacecraft :=
  match Field.ofName? property with
  | none => .ok s
  | some .epoch => (v.toEpoch property).map fun i => { s with epoch := i }
  | some (.quantity q) => (v.toNumber property).map fun x => s.put q x

/-- The number of places with which a quantity is reported. -/
def places : Quantity → Nat
  | .vx | .vy | .vz => 9
  | .x | .y | .z | .fuelMass | .dryMass => 6

def fieldText (s : Spacecraft) : Field → String
  | .epoch => s.epoch.toText
  | .quantity q => Double.fixed (places q) (s.get q)

end Spacecraft

end FlightScript
