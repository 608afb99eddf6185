import FlightScript.Text.Space

/-!
# Diagnostics

A diagnostic is a message about a line of a script. What can be found in a script
is a `Finding`; it decides the code, the severity and the wording of its
diagnostic. Findings of severity `error` make a script invalid, warnings do not.
-/

namespace FlightScript

inductive Severity where
  | error
  | warning
  deriving DecidableEq, Repr

namespace Severity

def toText : Severity → String
  | .error => "error"
  | .warning => "warning"

def all : List Severity :=
  [.error, .warning]

end Severity

/-- A message about a place in a script. Lines and columns count from one, columns
in characters. -/
structure Diagnostic where
  line : Nat
  column : Nat
  message : String
  code : String
  severity : Severity
  deriving DecidableEq, Repr

namespace Diagnostic

/-- The diagnostic on one line: place, severity, code and message. -/
def toText (d : Diagnostic) : String :=
  toString d.line ++ ":" ++ toString d.column ++ ": " ++ d.severity.toText ++ " " ++ d.code ++
    ": " ++ d.message

end Diagnostic

/-- The column of the first character of a line that is not white space. -/
def firstColumn (text : String) : Nat :=
  (text.toList.takeWhile Text.isSpace).length + 1

inductive Finding where
  /-- A line is no command; the message says so. -/
  | unknownCommand (message : String)
  /-- An assignment goes to a name that no earlier line introduces. -/
  | undeclaredTarget (name : String)
  /-- A propagation uses a propagator that no earlier line creates. -/
  | undeclaredPropagator (name : String)
  /-- A propagation moves a spacecraft that no earlier line creates. -/
  | undeclaredSpacecraft (name : String)
  /-- A command failed while the script ran. -/
  | failedCommand (message : String)
  /-- An object is created under a name that is in use. -/
  | duplicateObject (name : String)
  /-- An object is saved that no earlier line creates. -/
  | savedUndeclared (name : String)
  | strayElse
  | strayEndIf
  | strayEndWhile
  | unclosedIf
  | unclosedWhile
  deriving DecidableEq, Repr

namespace Finding

def code : Finding → String
  | .unknownCommand _ => "SE001"
  | .undeclaredTarget _ => "SE002"
  | .undeclaredPropagator _ => "SE003"
  | .undeclaredSpacecraft _ => "SE004"
  | .failedCommand _ => "SE100"
  | .duplicateObject _ => "SW001"
  | .savedUndeclared _ => "SW002"
  | .strayElse | .strayEndIf | .strayEndWhile | .unclosedIf | .unclosedWhile => "SW003"

def severity : Finding → Severity
  | .unknownCommand _ | .undeclaredTarget _ | .undeclaredPropagator _
  | .undeclaredSpacecraft _ | .failedCommand _ => .error
  | .duplicateObject _ | .savedUndeclared _ | .strayElse | .strayEndIf | .strayEndWhile
  | .unclosedIf | .unclosedWhile => .warning

def message : Finding → String
  | .unknownCommand message => message
  | .undeclaredTarget name => "Object or variable '" ++ name ++ "' is not declared"
  | .undeclaredPropagator name => "Propagator '" ++ name ++ "' is not declared"
  | .undeclaredSpacecraft name => "Spacecraft '" ++ name ++ "' is not declared"
  | .failedCommand message => message
  | .duplicateObject name => "Object '" ++ name ++ "' is already created and will be replaced"
  | .savedUndeclared name => "Saving undeclared object '" ++ name ++ "'"
  | .strayElse => "Else without a matching If"
  | .strayEndIf => "EndIf without a matching If"
  | .strayEndWhile => "EndWhile without a matching While"
  | .unclosedIf => "If block is never closed with EndIf"
  | .unclosedWhile => "While block is never closed with EndWhile"

def codes : List String :=
  ["SE001", "SE002", "SE003", "SE004", "SE100", "SW001", "SW002", "SW003"]

/-- The diagnostic of a finding about a line. It points at the first character of
the line that is not white space. -/
def diagnostic (f : Finding) (line : Nat) (text : String) : Diagnostic :=
  ⟨line, firstColumn text, f.message, f.code, f.severity⟩

@[simp] theorem severity_diagnostic (f : Finding) (line : Nat) (text : String) :
    (f.diagnostic line text).severity = f.severity := rfl

/-- Every finding has one of the listed codes. -/
theorem code_mem_codes (f : Finding) : f.code ∈ codes := by
  cases f <;> simp [code, codes]

end Finding

end FlightScript
