import FlightScript.Object.Spacecraft

/-!
# Propagators

A propagator has a type and four numbers. Only its step size bears on how a
spacecraft is moved: it is the interval of a propagation without a stop clause.
The type takes any value, as text.
-/

namespace FlightScript

/-- A propagator. Steps are in seconds. -/
structure Propagator where
  kind : String
  stepSize : Float
  minStep : Float
  maxStep : Float
  accuracy : Float
  /-- What was assigned, under the names as written. -/
  properties : Table Value
  deriving DecidableEq

namespace Propagator

inductive Quantity where
  | stepSize
  | minStep
  | maxStep
  | accuracy
  deriving DecidableEq, Repr

inductive Field where
  | kind
  | quantity (q : Quantity)
  deriving DecidableEq, Repr

def Field.ofName? (property : String) : Option Field :=
  match Text.foldCase property with
  | "type" => some .kind
  | "stepsize" => some (.quantity .stepSize)
  | "minstep" => some (.quantity .minStep)
  | "maxstep" => some (.quantity .maxStep)
  | "accuracy" => some (.quantity .accuracy)
  | _ => none

def initial : Propagator where
  kind := "RungeKutta89"
  stepSize := 60
  minStep := 0.001
  maxStep := 2700
  accuracy := 1e-11
  properties := .empty

def get (p : Propagator) : Quantity → Float
  | .stepSize => p.stepSize
  | .minStep => p.minStep
  | .maxStep => p.maxStep
  | .accuracy => p.accuracy

def put (p : Propagator) (q : Quantity) (v : Float) : Propagator :=
  match q with
  | .stepSize => { p with stepSize := v }
  | .minStep => { p with minStep := v }
  | .maxStep => { p with maxStep := v }
  | .accuracy => { p with accuracy := v }

theorem get_put (p : Propagator) (q r : Quantity) (v : Float) :
    (p.put q v).get r = if q = r then v else p.get r := by
  cases q <;> cases r <;> rfl

/-- The propagator with a value in the field that a property names; without such a
field it is left as it is. -/
def assign (p : Propagator) (property : String) (v : Value) : Except CoercionError Propagator :=
  match Field.ofName? property with
  | none => .ok p
  | some .kind => .ok { p with kind := v.toText }
  | some (.quantity q) => (v.toNumber property).map fun x => p.put q x

def fieldText (p : Propagator) : Field → String
  | .kind => p.kind
  | .quantity q => Double.plain (p.get q)

end Propagator

end FlightScript
