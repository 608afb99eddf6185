import FlightScript.Cancellation
import FlightScript.Event
import FlightScript.Execution
import FlightScript.Script.Statement

/-!
# Runs

A run is a job that has not ended, together with what is left to do. It goes on in
turns. The first turn starts the job. Every turn then ends the job as completed if
no statement is left, ends it as cancelled if it was told to stop, and otherwise
executes one statement, whose failure ends the job as failed. Whether the job was
told to stop is looked at once in a turn, before a statement is executed, so that a
job without statements always completes.
-/

namespace FlightScript

/-- A job that has not ended. -/
structure Run where
  /-- The record of the job as it stands. -/
  job : Job
  bindings : Bindings
  /-- The statements that are still to be executed. -/
  pending : List Statement
  /-- The number of statements that have been executed. -/
  executed : Nat
  token : Token
  deriving DecidableEq

inductive Ending where
  | completed
  | cancelled
  /-- A command failed. -/
  | failed (e : ExecutionError)
  deriving DecidableEq

inductive Progress where
  | running (r : Run)
  | ended (job : Job)
  deriving DecidableEq

def percentage (part whole : Nat) : Float :=
  Float.ofNat part / Float.ofNat whole * 100

namespace Run

def create (job : Job) (pending : List Statement) (token : Token) : Run where
  job := job
  bindings := .empty
  pending := pending
  executed := 0
  token := token

/-- The number of statements of the run, whether executed or not. -/
def total (r : Run) : Nat :=
  r.executed + r.pending.length

/-- The record of the job with the results of the run, at the time of its end. -/
def results (r : Run) (now : Int) : Job :=
  { r.job with values := r.bindings.values, log := r.bindings.log }.complete now

/-- The final record of the job and the event of its end; a cancellation has no
event. -/
def finish (r : Run) (now : Int) : Ending → Job × List Event
  | .completed =>
    let job := { (r.results now).settle .completed with progress := 100 }
    (job, [.completed job.id true job.elapsed])
  | .cancelled => ((r.results now).settle .cancelled, [])
  | .failed e =>
    let job := (r.results now).settle .failed
    ({ job with log := job.log ++ ["Error: " ++ e.message] },
      [.failed job.id e.message job.line])

/-- The run with its job started if it was queued, and the event of that. -/
def begin (r : Run) (now : Int) : Run × List Event :=
  if r.job.status = .queued then
    ({ r with job := (r.job.settle .running).start now }, [.started r.job.id r.job.script])
  else (r, [])

/-- The run with the record showing the statement that is about to be executed. -/
def attend (r : Run) (s : Statement) : Run :=
  { r with job := { r.job with line := s.line, command := s.trimmed } }

def fault (r : Run) (s : Statement) (e : ExecutionError) : Run :=
  let found := (Finding.failedCommand e.message).diagnostic s.line s.text
  { r with job := { r.job with errors := r.job.errors ++ [found] } }

def advance (r : Run) (bindings : Bindings) (rest : List Statement) : Run :=
  { r with
    job := { r.job with progress := percentage (r.executed + 1) r.total }
    bindings := bindings
    pending := rest
    executed := r.executed + 1 }

/-- What becomes of a started run in a turn, and the event if it ends. -/
def proceed (r : Run) (step : Float) (now : Int) (cancelled : Bool) : Progress × List Event :=
  let close (r : Run) (ending : Ending) : Progress × List Event :=
    let (job, events) := r.finish now ending
    (.ended job, events)
  match r.pending with
  | [] => close r .completed
  | s :: rest =>
    if cancelled then close r .cancelled
    else
      let r := r.attend s
      match r.bindings.execute step s.command with
      | (bindings, none) => (.running (r.advance bindings rest), [])
      | (bindings, some e) => close { r.fault s e with bindings := bindings } (.failed e)

/-- One turn of a run, with its events. `step` is the interval of an unbounded
propagation, `now` the time and `cancelled` whether the job was told to stop. -/
def turn (r : Run) (step : Float) (now : Int) (cancelled : Bool) : Progress × List Event :=
  let (r, started) := r.begin now
  let (progress, events) := r.proceed step now cancelled
  (progress, started ++ events)

end Run

end FlightScript
