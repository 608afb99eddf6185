import FlightScript.Object.Propagation
import FlightScript.Object.Propagator

/-!
# Objects

An object is a spacecraft, a propagator or something else, of which only what was
assigned is known. An assignment is first noted under the name as written and then
brought into the field of that name, so that a value that the field does not take
is still noted. A report reads the field; where there is none it reads what was
assigned, under the name as written or else under the first one that differs from
it in case only.
-/

namespace FlightScript

/-- An object without fields. -/
structure PlainObject where
  /-- The kind as written. -/
  kind : String
  properties : Table Value
  deriving DecidableEq

inductive Object where
  | spacecraft (s : Spacecraft)
  | propagator (p : Propagator)
  | other (o : PlainObject)
  deriving DecidableEq

namespace Object

/-- A new object of a kind, which is given in any case. -/
def create (kind : String) : Object :=
  match Text.foldCase kind with
  | "spacecraft" => .spacecraft .initial
  | "propagator" => .propagator .initial
  | _ => .other ⟨kind, .empty⟩

def kind : Object → String
  | .spacecraft _ => "Spacecraft"
  | .propagator _ => "Propagator"
  | .other o => o.kind

/-- What was assigned, under the names as written. -/
def properties : Object → Table Value
  | .spacecraft s => s.properties
  | .propagator p => p.properties
  | .other o => o.properties

def note (o : Object) (property : String) (v : Value) : Object :=
  match o with
  | .spacecraft s => .spacecraft { s with properties := s.properties.insert property v }
  | .propagator p => .propagator { p with properties := p.properties.insert property v }
  | .other o => .other { o with properties := o.properties.insert property v }

/-- The object with a value in the field that a property names. -/
def assign (o : Object) (property : String) (v : Value) : Except CoercionError Object :=
  match o with
  | .spacecraft s => (s.assign property v).map .spacecraft
  | .propagator p => (p.assign property v).map .propagator
  | .other o => .ok (.other o)

/-- The object after an assignment, and the error if the field of that name does
not take the value. -/
def set (o : Object) (property : String) (v : Value) : Object × Option CoercionError :=
  let noted := o.note property v
  match noted.assign property v with
  | .ok assigned => (assigned, none)
  | .error e => (noted, some e)

def fieldText? (o : Object) (property : String) : Option String :=
  match o with
  | .spacecraft s => (Spacecraft.Field.ofName? property).map s.fieldText
  | .propagator p => (Propagator.Field.ofName? property).map p.fieldText
  | .other _ => none

/-- What was assigned under a name, or else under the first of the `entries` whose
name differs from it in case only. -/
def notedValue? (properties : Table Value) (property : String) : Option Value :=
  match properties.get? property with
  | some v => some v
  | none => (properties.entries.find? fun e => Text.sameIgnoringCase e.1 property).map Prod.snd

def report? (o : Object) (property : String) : Option String :=
  match o.fieldText? property with
  | some text => some text
  | none => (notedValue? o.properties property).map Value.toText

def spacecraft? : Object → Option Spacecraft
  | .spacecraft s => some s
  | _ => none

def propagator? : Object → Option Propagator
  | .propagator p => some p
  | _ => none

@[simp] theorem properties_note (o : Object) (property : String) (v : Value) :
    (o.note property v).properties = o.properties.insert property v := by
  cases o <;> rfl

@[simp] theorem kind_note (o : Object) (property : String) (v : Value) :
    (o.note property v).kind = o.kind := by
  cases o <;> rfl

end Object

end FlightScript
