import FlightScript.Runtime.Sink
import FlightScript.Run

/-!
# Tasks

A task carries out the run of a job, a piece whenever it is polled. It stops after every
statement, and wherever the sink makes it wait: with a job that is running and whose
start is not published, or with a record that is final and whose end is not. When it ends
it returns the record. An event that cannot be published is passed over.
-/

namespace FlightScript

/-- Where a task goes on when it is polled. -/
inductive Phase where
  /-- With the next statement, or with the start of the job. -/
  | ready
  /-- With the event of the start, for which there was no room. -/
  | starting (e : Event)
  /-- With the event of the end, for which there was no room. -/
  | closing (e : Event)
  deriving DecidableEq, Repr

structure Task where
  run : Run
  phase : Phase
  deriving DecidableEq

inductive Polled where
  | pending (t : Task)
  /-- The task returned a record. -/
  | ended (job : Job)
  deriving DecidableEq

namespace Task

def job (t : Task) : Job :=
  t.run.job

def id (t : Task) : JobId :=
  t.run.job.id

def create (r : Run) : Task :=
  ⟨r, .ready⟩

def cancel (t : Task) : Task :=
  { t with run := { t.run with token := t.run.token.cancel } }

/-- Publish an event, if there is one, and go on, or wait to do so. -/
def publish (s : Sink) (waiting : Event → Task) (next : Sink → Polled × Sink) :
    List Event → Polled × Sink
  | [] => next s
  | e :: _ =>
    match s.publish e with
    | (s, none) => (.pending (waiting e), s)
    | (s, some _) => next s

/-- End with the record of a run, after the event of that. -/
def close (r : Run) (events : List Event) (s : Sink) : Polled × Sink :=
  publish s (fun e => ⟨r, .closing e⟩) (fun s => (.ended r.job, s)) events

/-- Execute a statement of a started run, or end. -/
def proceed (r : Run) (step : Float) (now : Int) (cancelled : Bool) (s : Sink) : Polled × Sink :=
  match r.proceed step now cancelled with
  | (.running r, _) => (.pending ⟨r, .ready⟩, s)
  | (.ended job, events) => close { r with job := job } events s

/-- Go on with a started run, after the event of the start. -/
def start (r : Run) (events : List Event) (step : Float) (now : Int) (cancelled : Bool)
    (s : Sink) : Polled × Sink :=
  publish s (fun e => ⟨r, .starting e⟩) (proceed r step now cancelled) events

/-- Go on where the task stopped. `step` is the interval of an unbounded propagation, `now`
the time and `cancelled` whether the job was told to stop. -/
def poll (t : Task) (step : Float) (now : Int) (cancelled : Bool) (s : Sink) : Polled × Sink :=
  match t.phase with
  | .ready =>
    let (r, events) := t.run.begin now
    start r events step now cancelled s
  | .starting e => start t.run [e] step now cancelled s
  | .closing e => close t.run [e] s

end Task

end FlightScript
