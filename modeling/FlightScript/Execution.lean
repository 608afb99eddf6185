import FlightScript.Bindings
import FlightScript.Command
import FlightScript.Problem

/-!
# Execution

A command changes the bindings and appends one line to the log, or it fails.
Control flow is not followed: its commands change nothing and append nothing, and
so do comments and unknown lines. A command that fails appends nothing either, and
leaves the bindings as they were but for a value that a field did not take, which
stays noted with the object.
-/

namespace FlightScript

inductive ExecutionError where
  /-- A field does not take the value assigned to it. -/
  | coercion (e : CoercionError)
  /-- There is no object of the name of the spacecraft. -/
  | objectNotFound (name : String)
  /-- The object to be moved is no spacecraft. -/
  | notSpacecraft (name : String)
  /-- The value of a stop clause is no number. -/
  | stopNotNumeric (stop : StopClause)
  /-- The spacecraft cannot be moved. -/
  | propagation (e : PropagationError)
  deriving DecidableEq

namespace ExecutionError

def problem : ExecutionError → Problem
  | .coercion e => ⟨.coercion, e.message⟩
  | .objectNotFound name => ⟨.objectNotFound, name⟩
  | .notSpacecraft name => ⟨.execution, "'" ++ name ++ "' is not a Spacecraft"⟩
  | .stopNotNumeric stop =>
    ⟨.execution, "Stop value '" ++ stop.value.toText ++ "' for " ++ stop.object ++ "." ++
      stop.property ++ " is not numeric"⟩
  | .propagation e => ⟨.execution, e.message⟩

def message (e : ExecutionError) : String :=
  e.problem.message

end ExecutionError

namespace Bindings

def reportLine (b : Bindings) (tokens : List String) : String :=
  "Report: " ++ " ".intercalate (tokens.map fun token => token ++ "=" ++ b.resolve token)

/-- An assignment to a property of an object, or to a variable if there is no such
object. -/
def set (b : Bindings) (object property : String) (v : Value) :
    Bindings × Option ExecutionError :=
  let line := "Set " ++ dotted object property ++ " = " ++ v.toText
  match b.objects.get? object with
  | some o =>
    let (changed, error) := o.set property v
    let b := { b with objects := b.objects.insert object changed }
    match error with
    | none => (b.append line, none)
    | some e => (b, some (.coercion e))
  | none => ((b.assign (dotted object property) v).append line, none)

/-- The interval of a propagation in days: the value of its stop clause, or the
step size of the propagator, or `step` seconds if there is no such propagator. -/
def interval (b : Bindings) (step : Float) (propagator : String) :
    Option StopClause → Except ExecutionError Float
  | some stop =>
    match stop.value.number? with
    | some days => .ok days
    | none => .error (.stopNotNumeric stop)
  | none =>
    let found := (b.objects.get? propagator).bind Object.propagator?
    .ok ((found.map Propagator.stepSize).getD step / daySeconds)

def spacecraft (b : Bindings) (name : String) : Except ExecutionError Spacecraft :=
  match b.objects.get? name with
  | none => .error (.objectNotFound name)
  | some (.spacecraft s) => .ok s
  | some _ => .error (.notSpacecraft name)

def moved (b : Bindings) (name : String) (days : Float) : Except ExecutionError Spacecraft :=
  match b.spacecraft name with
  | .error e => .error e
  | .ok s =>
    match s.propagateDays days with
    | .error e => .error (.propagation e)
    | .ok s => .ok s

def propagate (b : Bindings) (step : Float) (propagator spacecraft : String)
    (stop : Option StopClause) : Bindings × Option ExecutionError :=
  match b.interval step propagator stop with
  | .error e => (b, some e)
  | .ok days =>
    match b.moved spacecraft days with
    | .error e => (b, some e)
    | .ok s =>
      let b := { b with objects := b.objects.insert spacecraft (.spacecraft s) }
      (b.append ("Propagated " ++ spacecraft ++ " with " ++ propagator ++ " for " ++
        Double.fixed 6 days ++ " days"), none)

/-- The bindings after a command, and the error if it failed. `step` is the interval
in seconds of a propagation that neither a stop clause nor a propagator bounds. -/
def execute (b : Bindings) (step : Float) : Command → Bindings × Option ExecutionError
  | .create kind name =>
    ((b.create kind name).append ("Created " ++ kind ++ " " ++ name), none)
  | .set object property v => b.set object property v
  | .propagate propagator spacecraft stop => b.propagate step propagator spacecraft stop
  | .report tokens => (b.append (b.reportLine tokens), none)
  | .variable name v =>
    ((b.assign name v).append ("Variable " ++ name ++ " = " ++ v.toText), none)
  | .save object => (b.append ("Saved " ++ object), none)
  | .ifThen _ | .otherwise | .endIf | .whileDo _ | .endWhile | .comment _ | .unknown => (b, none)

/-- The commands of the control flow change nothing. -/
theorem execute_of_isControlFlow (b : Bindings) (step : Float) {c : Command}
    (h : c.isControlFlow) : b.execute step c = (b, none) := by
  cases c <;> first | rfl | simp [Command.isControlFlow] at h

end Bindings

end FlightScript
