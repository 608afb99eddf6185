import FlightScript.Value

/-!
# Commands

The commands that a line of a script can hold. `Command.keyword` names a command
for progress messages. Comments and lines that are no command at all are not
executed; every other command is, also those of the control flow, which change
nothing.
-/

namespace FlightScript

/-- The clause that bounds a propagation: an object's property and the value that
it is to reach. -/
structure StopClause where
  object : String
  property : String
  value : Value
  deriving DecidableEq

inductive Command where
  /-- Make an object of a kind and bind it to a name. -/
  | create (kind name : String)
  /-- Assign a value to a property of an object. -/
  | set (object property : String) (value : Value)
  /-- Move a spacecraft along its orbit. -/
  | propagate (propagator spacecraft : String) (stop : Option StopClause)
  /-- Write the values of some tokens to the log. -/
  | report (tokens : List String)
  /-- Assign a value to a variable. -/
  | variable (name : String) (value : Value)
  /-- Note in the log that an object was saved. -/
  | save (object : String)
  | ifThen (condition : String)
  | otherwise
  | endIf
  | whileDo (condition : String)
  | endWhile
  | comment (text : String)
  /-- A line that is no command. -/
  | unknown
  deriving DecidableEq

namespace Command

def keyword : Command → String
  | .create _ _ => "Create"
  | .set _ _ _ => "Set"
  | .propagate _ _ _ => "Propagate"
  | .report _ => "Report"
  | .variable _ _ => "Variable"
  | .save _ => "Save"
  | .ifThen _ => "If"
  | .otherwise => "Else"
  | .endIf => "EndIf"
  | .whileDo _ => "While"
  | .endWhile => "EndWhile"
  | .comment _ => "Comment"
  | .unknown => "Unknown"

/-- Comments and unknown lines are passed over when a script is run. -/
def isExecutable : Command → Bool
  | .comment _ => false
  | .unknown => false
  | _ => true

def isControlFlow : Command → Bool
  | .ifThen _ | .otherwise | .endIf | .whileDo _ | .endWhile => true
  | _ => false

/-- Commands of the control flow are executed like others. -/
theorem isExecutable_of_isControlFlow {c : Command} (h : c.isControlFlow) : c.isExecutable := by
  cases c <;> first | rfl | simp [isControlFlow] at h

end Command

end FlightScript
