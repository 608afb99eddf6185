import FlightScript.Engine.Error
import FlightScript.Run
import FlightScript.Validation

/-!
# The engine

The engine takes scripts, runs them as jobs and hands out their final records.
Submitting a script executes nothing: a valid script is queued as a new job, and
the jobs that have not ended go on by one turn each in every round. A job that has
ended is no longer looked at or cancelled; its final record is kept until it is
collected, once, by waiting for the job. Waiting for a job that has not ended runs
rounds, for all jobs, up to the one in which that job ends.

Events that cannot be published are passed over: what happens to jobs does not
depend on the publisher. That a job may have to wait for room in a channel is left to
`Runtime`, which does the same as an engine while that does not happen
(`Runtime.after_create_engine`).
-/

namespace FlightScript

/-- The state of an engine. -/
structure Engine where
  /-- The interval in seconds of a propagation that nothing else bounds. -/
  defaultStep : Float
  publisher : Publisher
  /-- Saved scripts are run from the library. -/
  usesLibrary : Bool
  library : Library
  signals : Signals
  /-- The present time in milliseconds. -/
  clock : Int
  /-- The number of jobs created, rejected ones included. -/
  created : Nat
  /-- The jobs that have not ended, in the order of their creation. -/
  active : List Run
  /-- The final records that were not collected. -/
  ended : List Job
  /-- The events received so far, the first one first. -/
  received : List Event
  deriving DecidableEq

namespace Engine

def create (defaultStep : Float) (publisher : Publisher) (usesLibrary : Bool) : Engine where
  defaultStep := defaultStep
  publisher := publisher
  usesLibrary := usesLibrary
  library := .empty
  signals := .empty
  clock := 0
  created := 0
  active := []
  ended := []
  received := []

/-! ### Submitting scripts -/

/-- The engine with a job queued for a script, its token following a signal, or the
failed job of a script that is not valid. Either takes a number; the failed job
leaves no other trace. -/
def submit (e : Engine) (text user : String) (script : Option String) (follows : Option Nat) :
    Engine × Except EngineError Job :=
  let read := Script.read text
  let validation := Validation.ofScript read
  let job := Job.create (.numbered e.created) user script
  let e := { e with created := e.created + 1 }
  if validation.isValid then
    let run := Run.create job read.executable (.create follows)
    ({ e with active := e.active ++ [run] }, .ok job)
  else
    let rejected := { job with errors := validation.errors }
    (e, .error (.validationFailed ((rejected.settle .failed).complete e.clock)))

/-- The saved script of an identifier, if a user may run it. -/
def savedScript (e : Engine) (id user : String) : Except EngineError SavedScript :=
  if e.usesLibrary then
    match e.library.get? id with
    | none => .error (.unknownScript id)
    | some s => if s.isVisibleTo user then .ok s else .error (.privateScript id)
  else .error .noLibrary

def submitSaved (e : Engine) (id user : String) : Engine × Except EngineError Job :=
  match e.savedScript id user with
  | .ok s => e.submit s.content user (some s.id) none
  | .error error => (e, .error error)

/-! ### Rounds -/

def isCancelled (e : Engine) (r : Run) : Bool :=
  r.token.isCancelled e.signals

def turn (e : Engine) (r : Run) : Progress × List Event :=
  r.turn e.defaultStep e.clock (e.isCancelled r)

def stillRunning (ps : List Progress) : List Run :=
  ps.filterMap fun
    | .running r => some r
    | .ended _ => none

def justEnded (ps : List Progress) : List Job :=
  ps.filterMap fun
    | .running _ => none
    | .ended job => some job

/-- One round: a turn of every job that has not ended. -/
def round (e : Engine) : Engine :=
  let turns := e.active.map e.turn
  { e with
    active := stillRunning (turns.map Prod.fst)
    ended := e.ended ++ justEnded (turns.map Prod.fst)
    received := e.received ++ e.publisher.deliver (turns.flatMap Prod.snd) }

/-- The run of a job that has not ended. -/
def find? (e : Engine) (id : JobId) : Option Run :=
  e.active.find? fun r => r.job.id = id

/-- Rounds until a job has ended, but at most a number of them. -/
def roundsFor (id : JobId) : Nat → Engine → Engine
  | 0, e => e
  | n + 1, e =>
    match e.find? id with
    | some _ => roundsFor id n e.round
    | none => e

def settle (e : Engine) (id : JobId) : Engine :=
  match e.find? id with
  | some r => roundsFor id (r.pending.length + 1) e
  | none => e

/-! ### Looking at jobs -/

/-- The record of a job that has not ended. -/
def status (e : Engine) (id : JobId) : Except EngineError Job :=
  match e.find? id with
  | some r => .ok r.job
  | none => .error (.unknownJob id)

def jobs (e : Engine) : List Job :=
  e.active.map Run.job

def activeCount (e : Engine) : Nat :=
  e.active.length

def cancel (e : Engine) (id : JobId) : Engine × Except EngineError Unit :=
  match e.find? id with
  | some _ =>
    let stop (r : Run) : Run :=
      if r.job.id = id then { r with token := r.token.cancel } else r
    ({ e with active := e.active.map stop }, .ok ())
  | none => (e, .error (.unknownJob id))

/-- The final record of a job that has ended, which is then no longer kept. -/
def collect (e : Engine) (id : JobId) : Engine × Except EngineError Job :=
  match e.ended.find? fun job => job.id = id with
  | some job => ({ e with ended := e.ended.filter fun job => job.id ≠ id }, .ok job)
  | none => (e, .error (.unknownJob id))

/-- The final record of a job, after the rounds that it takes to end. -/
def wait (e : Engine) (id : JobId) : Engine × Except EngineError Job :=
  (e.settle id).collect id

end Engine

end FlightScript
