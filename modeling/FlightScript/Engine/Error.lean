import FlightScript.Event
import FlightScript.Execution
import FlightScript.Library

/-!
# Errors of the engine

Everything that can go wrong between the submission of a script and the collection
of its job, as causes. `EngineError.problem` is how each of them is reported.
-/

namespace FlightScript

inductive EngineError where
  /-- A command fails. -/
  | execution (e : ExecutionError)
  /-- The job was told to stop. -/
  | cancelled
  /-- A job cannot move to a status. -/
  | refusedTransition (r : RefusedTransition)
  /-- The script is not valid; the job was never queued. -/
  | validationFailed (job : Job)
  /-- There is no job of this name to look at, to cancel or to wait for. -/
  | unknownJob (id : JobId)
  /-- No script is saved under this identifier. -/
  | unknownScript (id : String)
  /-- The user may not see the script. -/
  | privateScript (id : String)
  /-- The engine has no library to load a script from. -/
  | noLibrary
  /-- The library does not do what it is asked to. -/
  | library (e : LibraryError)
  /-- An event is not published. -/
  | publishing (e : PublishError)
  deriving DecidableEq

namespace EngineError

def problem : EngineError → Problem
  | .execution e => e.problem
  | .cancelled => ⟨.cancelled, "Execution was cancelled"⟩
  | .refusedTransition r => ⟨.state, r.message⟩
  | .validationFailed job =>
    ⟨.validationFailed,
      "Script validation failed with " ++ toString job.errors.length ++ " error(s)"⟩
  | .unknownJob id => ⟨.notFound, "Job " ++ id.toText⟩
  | .unknownScript id => ⟨.notFound, "Script " ++ id⟩
  | .privateScript id => ⟨.permission, "Script " ++ id ++ " is private to its owner"⟩
  | .noLibrary => ⟨.storage, "No script repository configured"⟩
  | .library e => e.problem
  | .publishing e => e.problem

def message (e : EngineError) : String :=
  e.problem.message

end EngineError

end FlightScript
