import FlightScript.Proofs.Execution.Sequence
import FlightScript.Run

/-!
# What a final record says

The `summary` of a record is what it says about the run of its job, the times apart;
its `origin` is whose run of which script it was. `Summary.completed`,
`Summary.failed` and `Summary.cancelled` are the summaries of the three ways to end,
given by statements that were executed in sequence and what they made. None of them
mentions a turn. `Summary.ofSequence` is the summary of a run that nothing interrupts.
-/

namespace FlightScript

structure Summary where
  status : Status
  errors : List Diagnostic
  progress : Float
  line : Nat
  command : String
  values : Table Value
  log : List String
  deriving DecidableEq

namespace Job

def summary (j : Job) : Summary where
  status := j.status
  errors := j.errors
  progress := j.progress
  line := j.line
  command := j.command
  values := j.values
  log := j.log

/-- The name of a job, the saved script that it runs and its user. -/
def origin (j : Job) : JobId × Option String × String :=
  (j.id, j.script, j.user)

end Job

namespace Summary

def progressAfter (executed total : Nat) : Float :=
  if executed = 0 then 0 else percentage executed total

def lineAfter (done : List Statement) : Nat :=
  (done.getLast?.map Statement.line).getD 0

def commandAfter (done : List Statement) : String :=
  (done.getLast?.map Statement.trimmed).getD ""

/-- All statements were executed. -/
def completed (statements : List Statement) (b : Bindings) : Summary where
  status := .completed
  errors := []
  progress := 100
  line := lineAfter statements
  command := commandAfter statements
  values := b.values
  log := b.log

/-- The run was stopped after the statements `done` out of `total`. -/
def cancelled (total : Nat) (done : List Statement) (b : Bindings) : Summary where
  status := .cancelled
  errors := []
  progress := progressAfter done.length total
  line := lineAfter done
  command := commandAfter done
  values := b.values
  log := b.log

def failed (total : Nat) (f : Bindings.Failure) : Summary where
  status := .failed
  errors := [⟨f.statement.line, firstColumn f.statement.text, f.error.message, "SE100", .error⟩]
  progress := progressAfter f.before.length total
  line := f.statement.line
  command := f.statement.trimmed
  values := f.bindings.values
  log := f.bindings.log ++ ["Error: " ++ f.error.message]

/-- The summary of statements executed one after the other, without interruption. -/
def ofSequence (step : Float) (statements : List Statement) : Summary :=
  match Bindings.empty.executeAll step statements with
  | .ok b => completed statements b
  | .error f => failed statements.length f

theorem lineAfter_append_singleton (done : List Statement) (s : Statement) :
    lineAfter (done ++ [s]) = s.line := by
  simp [lineAfter]

theorem commandAfter_append_singleton (done : List Statement) (s : Statement) :
    commandAfter (done ++ [s]) = s.trimmed := by
  simp [commandAfter]

theorem ofSequence_of_ok {step : Float} {statements : List Statement} {b : Bindings}
    (h : Bindings.empty.executeAll step statements = .ok b) :
    ofSequence step statements = completed statements b := by
  rw [ofSequence, h]

theorem ofSequence_of_error {step : Float} {statements : List Statement} {f : Bindings.Failure}
    (h : Bindings.empty.executeAll step statements = .error f) :
    ofSequence step statements = failed statements.length f := by
  rw [ofSequence, h]

theorem status_ofSequence (step : Float) (statements : List Statement) :
    (ofSequence step statements).status = .completed ∨
      (ofSequence step statements).status = .failed := by
  cases h : Bindings.empty.executeAll step statements with
  | ok b => exact Or.inl (by rw [ofSequence_of_ok h]; rfl)
  | error f => exact Or.inr (by rw [ofSequence_of_error h]; rfl)

end Summary

end FlightScript
