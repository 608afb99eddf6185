import FlightScript.Engine.Operation
import FlightScript.Runtime.Task

/-!
# The runtime

The runtime is the engine with its parts. A job that is started has its name put down in
three places: among the jobs, where its record is looked at, among the cancellations, where
it is told to stop, and among the completions, where somebody can claim its final record.
Its task is polled again and again. When the task ends, the name is removed from the jobs
and the cancellations; the final record is kept for the one who claims it.

`Runtime.Step` is what happens at once. A round polls every task that has not ended, and
waiting for a job claims its record and then lets rounds pass; both are steps one after
the other. As long as no task has to wait for room in a channel, an `Engine` does the same
(`Runtime.engine` is the engine of a runtime).
-/

namespace FlightScript

/-- The state of an engine with its parts. -/
structure Runtime where
  /-- The interval in seconds of a propagation that nothing else bounds. -/
  defaultStep : Float
  /-- Saved scripts are run from the library. -/
  usesLibrary : Bool
  library : Library
  signals : Signals
  /-- The present time in milliseconds. -/
  clock : Int
  /-- The number of jobs created, rejected ones included. -/
  created : Nat
  sink : Sink
  /-- The events received so far, the first one first. -/
  received : List Event
  /-- The jobs that can be looked at. -/
  jobs : List JobId
  /-- The jobs that can be told to stop. -/
  cancellations : List JobId
  /-- The jobs whose final record nobody has claimed. -/
  completions : List JobId
  /-- The tasks that have not ended, in the order of their creation. -/
  tasks : List Task
  /-- The records that tasks returned and nobody has collected. -/
  results : List Job
  deriving DecidableEq

namespace Runtime

def create (defaultStep : Float) (sink : Sink) (usesLibrary : Bool) : Runtime where
  defaultStep := defaultStep
  usesLibrary := usesLibrary
  library := .empty
  signals := .empty
  clock := 0
  created := 0
  sink := sink
  received := []
  jobs := []
  cancellations := []
  completions := []
  tasks := []
  results := []

/-- The engine that goes on with the runs of the runtime. -/
def engine (rt : Runtime) : Engine where
  defaultStep := rt.defaultStep
  publisher := rt.sink.publisher
  usesLibrary := rt.usesLibrary
  library := rt.library
  signals := rt.signals
  clock := rt.clock
  created := rt.created
  active := rt.tasks.map Task.run
  ended := rt.results
  received := rt.received ++ rt.sink.queue

/-! ### Submitting scripts -/

/-- The runtime with the task of a queued run: the job can be looked at and told to stop, and
its final record can be claimed. -/
def register (rt : Runtime) (r : Run) : Runtime :=
  { rt with
    jobs := rt.jobs ++ [r.job.id]
    cancellations := rt.cancellations ++ [r.job.id]
    tasks := rt.tasks ++ [.create r]
    completions := rt.completions ++ [r.job.id] }

/-- The runtime with a job started for a script, or the failed job of a script that is not
valid. Either takes a number; the failed job leaves no other trace. -/
def submit (rt : Runtime) (text user : String) (script : Option String) (follows : Option Nat) :
    Runtime × Except EngineError Job :=
  let read := Script.read text
  let validation := Validation.ofScript read
  let job := Job.create (.numbered rt.created) user script
  let rt := { rt with created := rt.created + 1 }
  if validation.isValid then
    (rt.register (.create job read.executable (.create follows)), .ok job)
  else
    let rejected := { job with errors := validation.errors }
    (rt, .error (.validationFailed ((rejected.settle .failed).complete rt.clock)))

/-! ### Tasks -/

def find? (rt : Runtime) (id : JobId) : Option Task :=
  rt.tasks.find? fun t => t.id = id

def pollTask (rt : Runtime) (t : Task) : Polled × Sink :=
  t.poll rt.defaultStep rt.clock (t.run.token.isCancelled rt.signals) rt.sink

/-- The runtime after the task of a job returned a record: the job is no longer looked at or
told to stop. -/
def evict (rt : Runtime) (id : JobId) (job : Job) : Runtime :=
  { rt with
    jobs := rt.jobs.filter (· ≠ id)
    cancellations := rt.cancellations.filter (· ≠ id)
    tasks := rt.tasks.filter fun t => t.id ≠ id
    results := rt.results ++ [job] }

def put (rt : Runtime) (id : JobId) : Polled → Runtime
  | .pending t => { rt with tasks := rt.tasks.map fun u => if u.id = id then t else u }
  | .ended job => rt.evict id job

def poll (rt : Runtime) (id : JobId) : Runtime :=
  match rt.find? id with
  | some t => { rt with sink := (rt.pollTask t).2 }.put id (rt.pollTask t).1
  | none => rt

def receive (rt : Runtime) : Runtime :=
  { rt with sink := rt.sink.receive, received := rt.received ++ rt.sink.queue.head?.toList }

/-! ### Looking at jobs -/

/-- The record of a job, whose task has ended or not. -/
def record? (rt : Runtime) (id : JobId) : Option Job :=
  (rt.tasks.map Task.job ++ rt.results).find? fun job => job.id = id

def status (rt : Runtime) (id : JobId) : Except EngineError Job :=
  match rt.record? id with
  | some job => if id ∈ rt.jobs then .ok job else .error (.unknownJob id)
  | none => .error (.unknownJob id)

def list (rt : Runtime) : List Job :=
  rt.jobs.filterMap rt.record?

def activeCount (rt : Runtime) : Nat :=
  rt.jobs.length

def cancel (rt : Runtime) (id : JobId) : Runtime × Except EngineError Unit :=
  if id ∈ rt.cancellations then
    ({ rt with tasks := rt.tasks.map fun t => if t.id = id then t.cancel else t }, .ok ())
  else (rt, .error (.unknownJob id))

/-! ### Collecting records -/

def claim (rt : Runtime) (id : JobId) : Runtime :=
  { rt with completions := rt.completions.filter (· ≠ id) }

/-- The runtime after the one who claimed the final record of a job collected it. -/
def collect (rt : Runtime) (id : JobId) : Runtime :=
  if id ∈ rt.completions then rt
  else { rt with results := rt.results.filter fun job => job.id ≠ id }

/-! ### Steps -/

/-- What happens at once. -/
inductive Step where
  | submit (text user : String) (script : Option String) (follows : Option Nat)
  | poll (id : JobId)
  | receive
  | cancel (id : JobId)
  | claim (id : JobId)
  | collect (id : JobId)
  /-- Signals, library and clock change. -/
  | environment (signals : Signals) (library : Library) (clock : Int)
  deriving DecidableEq

def step (rt : Runtime) : Step → Runtime
  | .submit text user script follows => (rt.submit text user script follows).1
  | .poll id => rt.poll id
  | .receive => rt.receive
  | .cancel id => (rt.cancel id).1
  | .claim id => rt.claim id
  | .collect id => rt.collect id
  | .environment signals library clock =>
    { rt with signals := signals, library := library, clock := clock }

def run (rt : Runtime) (steps : List Step) : Runtime :=
  steps.foldl step rt

/-- One round: a poll of every task that has not ended. -/
def roundSteps (rt : Runtime) : List Step :=
  rt.tasks.map fun t => .poll t.id

/-- Rounds until a job has ended, but at most a number of them. -/
def settleSteps (id : JobId) : Nat → Runtime → List Step
  | 0, _ => []
  | n + 1, rt =>
    match rt.find? id with
    | some _ => rt.roundSteps ++ settleSteps id n (rt.run rt.roundSteps)
    | none => []

/-- The rounds that a job takes to end, if it need not wait for room. -/
def roundsToEnd (rt : Runtime) (id : JobId) : Nat :=
  match rt.find? id with
  | some t => t.run.pending.length + 1
  | none => 0

/-- The record of a job is claimed, and rounds pass up to the one in which the job ends. -/
def claimSteps (rt : Runtime) (id : JobId) : List Step :=
  .claim id :: settleSteps id (rt.roundsToEnd id) (rt.claim id)

def waitSteps (rt : Runtime) (id : JobId) : List Step :=
  rt.claimSteps id ++ [.collect id]

@[simp] theorem run_nil (rt : Runtime) : rt.run [] = rt := rfl

@[simp] theorem run_cons (rt : Runtime) (s : Step) (rest : List Step) :
    rt.run (s :: rest) = (rt.step s).run rest := rfl

theorem run_append (rt : Runtime) (front rest : List Step) :
    rt.run (front ++ rest) = (rt.run front).run rest := by
  rw [run, run, run, List.foldl_append]

end Runtime

end FlightScript
