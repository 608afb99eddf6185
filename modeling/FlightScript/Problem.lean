/-!
# Problems and faults

A *problem* is how an error of running scripts is reported: its kind and the words
that go with it. The kind gives the heading of the message. A *fault* is the
coarser form that errors of all parts of the program are brought to; a problem
keeps its words there, except that a missing thing keeps its own kind without a
second heading.
-/

namespace FlightScript

inductive ProblemKind where
  | execution
  | objectNotFound
  | coercion
  | cancelled
  | state
  | validationFailed
  | notFound
  | permission
  | storage
  | internal
  deriving DecidableEq, Repr

namespace ProblemKind

/-- What the message of a problem of this kind begins with. -/
def heading : ProblemKind → String
  | .execution => "Execution error: "
  | .objectNotFound => "Object not found: "
  | .coercion => ""
  | .cancelled => ""
  | .state => "State error: "
  | .validationFailed => ""
  | .notFound => "Not found: "
  | .permission => "Permission error: "
  | .storage => "Storage error: "
  | .internal => "Internal error: "

end ProblemKind

structure Problem where
  kind : ProblemKind
  detail : String
  deriving DecidableEq, Repr

namespace Problem

def message (p : Problem) : String :=
  p.kind.heading ++ p.detail

end Problem

inductive Fault where
  | validation (detail : String)
  | configuration (detail : String)
  | notFound (detail : String)
  | serialization (detail : String)
  | io (detail : String)
  | other (detail : String)
  deriving DecidableEq, Repr

namespace Fault

def message : Fault → String
  | .validation detail => "Validation error: " ++ detail
  | .configuration detail => "Configuration error: " ++ detail
  | .notFound detail => "Not found: " ++ detail
  | .serialization detail => "Serialization error: " ++ detail
  | .io detail => "IO error: " ++ detail
  | .other detail => detail

def ofProblem (p : Problem) : Fault :=
  match p.kind with
  | .notFound => .notFound p.detail
  | .validationFailed => .validation p.message
  | _ => .other p.message

end Fault

end FlightScript
