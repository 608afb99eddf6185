import FlightScript.Diagnostic
import FlightScript.Table
import FlightScript.Value

/-!
# Jobs

A job is the record of one run of a script. Its status begins as queued and moves
along `Status.canBecome` only: to running and from there to one of the three final
statuses, or from queued directly to failed or cancelled. Times are in
milliseconds.
-/

namespace FlightScript

inductive JobId where
  /-- A job that was created here; jobs are numbered in the order of their
  creation. -/
  | numbered (n : Nat)
  /-- Any other name. -/
  | foreign (name : String)
  deriving DecidableEq, Repr

namespace JobId

def toText : JobId → String
  | .numbered n => "job-" ++ toString n
  | .foreign name => name

end JobId

inductive Status where
  | queued
  | running
  | completed
  | failed
  | cancelled
  deriving DecidableEq, Repr

namespace Status

def toText : Status → String
  | .queued => "Queued"
  | .running => "Running"
  | .completed => "Completed"
  | .failed => "Failed"
  | .cancelled => "Cancelled"

/-- A job in this status changes no more. -/
def isFinal : Status → Bool
  | .completed | .failed | .cancelled => true
  | .queued | .running => false

def canBecome : Status → Status → Bool
  | .queued, .running | .queued, .failed | .queued, .cancelled => true
  | .running, next => next.isFinal
  | _, _ => false

/-- All statuses, in the order in which a job may go through them. -/
def all : List Status :=
  [.queued, .running, .completed, .failed, .cancelled]

/-- A final status is left for no other. -/
theorem canBecome_of_isFinal {a : Status} (h : a.isFinal) (b : Status) :
    a.canBecome b = false := by
  cases a <;> first | rfl | simp [isFinal] at h

/-- No job is queued again. -/
theorem canBecome_queued (a : Status) : a.canBecome .queued = false := by
  cases a <;> rfl

end Status

structure RefusedTransition where
  job : JobId
  source : Status
  target : Status
  deriving DecidableEq, Repr

namespace RefusedTransition

def message (r : RefusedTransition) : String :=
  "Job " ++ r.job.toText ++ " cannot move from " ++ r.source.toText ++ " to " ++ r.target.toText

end RefusedTransition

structure Job where
  id : JobId
  /-- The saved script that is run, if it is one. -/
  script : Option String
  /-- On whose behalf the script runs. -/
  user : String
  status : Status
  /-- The line of the command executed last; zero before the first one. -/
  line : Nat
  /-- The text of that line, without the white space around it. -/
  command : String
  /-- The part of the commands that have been executed, in percent. -/
  progress : Float
  errors : List Diagnostic
  /-- The values of the variables at the end; empty before. -/
  values : Table Value
  /-- The log at the end; empty before. -/
  log : List String
  startedAt : Option Int
  completedAt : Option Int
  /-- The time from the start to the end, zero without a start. -/
  elapsed : Int
  deriving DecidableEq

namespace Job

def create (id : JobId) (user : String) (script : Option String) : Job where
  id := id
  script := script
  user := user
  status := .queued
  line := 0
  command := ""
  progress := 0
  errors := []
  values := .empty
  log := []
  startedAt := none
  completedAt := none
  elapsed := 0

def transition (j : Job) (next : Status) : Except RefusedTransition Job :=
  if j.status.canBecome next then .ok { j with status := next }
  else .error ⟨j.id, j.status, next⟩

/-- The job in another status, or as it is if it cannot move there. -/
def settle (j : Job) (next : Status) : Job :=
  match j.transition next with
  | .ok moved => moved
  | .error _ => j

def start (j : Job) (time : Int) : Job :=
  { j with startedAt := some time }

def complete (j : Job) (time : Int) : Job :=
  { j with
    completedAt := some time
    elapsed := (j.startedAt.map fun started => time - started).getD 0 }

theorem settle_of_canBecome (j : Job) {next : Status} (h : j.status.canBecome next) :
    j.settle next = { j with status := next } := by
  simp [settle, transition, h]

end Job

end FlightScript
