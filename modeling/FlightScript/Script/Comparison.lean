import FlightScript.Script

/-!
# Comparing scripts

Scripts are compared part by part, as they were read. Texts are the same or not, but numbers are
compared as numbers: the two zeros are equal, and the one that is no number is equal to nothing.
-/

namespace FlightScript

namespace Value

def isEqual : Value → Value → Bool
  | .number x, .number y => x == y
  | .plain s, .plain t => s = t
  | .quoted s, .quoted t => s = t
  | _, _ => false

end Value

namespace StopClause

def isEqual (a b : StopClause) : Bool :=
  a.object = b.object && a.property = b.property && a.value.isEqual b.value

end StopClause

namespace Command

def isEqual : Command → Command → Bool
  | .set object property v, .set object' property' v' =>
    object = object' && property = property' && v.isEqual v'
  | .propagate propagator spacecraft (some s), .propagate propagator' spacecraft' (some s') =>
    propagator = propagator' && spacecraft = spacecraft' && s.isEqual s'
  | .variable name v, .variable name' v' => name = name' && v.isEqual v'
  -- What is left has no value in it.
  | c, d => c = d

end Command

namespace Statement

def isEqual (a b : Statement) : Bool :=
  a.line = b.line && a.text = b.text && a.command.isEqual b.command

end Statement

namespace Script

/-- The scripts are equal in all that is found out by reading them. -/
def isEqual (a b : Script) : Bool :=
  a.isValid = b.isValid && a.statements.isEqv b.statements Statement.isEqual &&
    a.errors = b.errors && a.warnings = b.warnings && a.lineCount = b.lineCount &&
    a.commandCount = b.commandCount

end Script

end FlightScript
