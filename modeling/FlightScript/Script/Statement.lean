import FlightScript.Command.Shape

/-!
# Statements

A statement is a line of a script with the command that it holds. A line whose
first character after white space is `%` is a comment, whatever follows. One
semicolon at the end of any other line is passed over. What is then no command is
refused, and the refusal shows the line without the white space around it, but
with its semicolon.
-/

namespace FlightScript

inductive LineError where
  /-- The line has none of the shapes of a command. -/
  | unrecognized (text : String)
  /-- A shape was recognised, but its parts make no command. -/
  | malformed (detail : String)
  deriving DecidableEq, Repr

namespace LineError

def message : LineError → String
  | .unrecognized text => "Unrecognized command: " ++ text
  | .malformed detail => "Grammar error: " ++ detail

end LineError

/-- A line of a script and the command that it holds. -/
structure Statement where
  /-- The number of the line, counted from one. -/
  line : Nat
  /-- The line as written, without its ending. -/
  text : String
  command : Command
  deriving DecidableEq

namespace Statement

def isExecutable (s : Statement) : Bool :=
  s.command.isExecutable

def trimmed (s : Statement) : String :=
  Text.trim s.text

/-- A trimmed line without one semicolon at its end and the white space before
that. -/
def dropSemicolon (cs : List Char) : List Char :=
  if cs.getLast? = some ';' then Text.trimEndChars cs.dropLast else cs

def command? (cs : List Char) : Option Command :=
  match cs with
  | '%' :: rest => some (.comment (String.ofList (Text.trimChars rest)))
  | _ => Command.read? (dropSemicolon cs)

def read (line : Nat) (text : String) : Except LineError Statement :=
  match command? (Text.trimChars text.toList) with
  | some command => .ok ⟨line, text, command⟩
  | none => .error (.unrecognized (Text.trim text))

/-- The statement that a line is, a line without a command being unknown. -/
def readOrUnknown (line : Nat) (text : String) : Statement :=
  match read line text with
  | .ok s => s
  | .error _ => ⟨line, text, .unknown⟩

/-- A statement keeps the number and the text of its line. -/
theorem read_ok {line : Nat} {text : String} {s : Statement} (h : read line text = .ok s) :
    s.line = line ∧ s.text = text := by
  unfold read at h
  split at h
  · cases h
    exact ⟨rfl, rfl⟩
  · cases h

/-- A refused line is shown without the white space around it. -/
theorem read_error {line : Nat} {text : String} {e : LineError}
    (h : read line text = .error e) : e = .unrecognized (Text.trim text) := by
  unfold read at h
  split at h
  · cases h
  · cases h
    rfl

end Statement

end FlightScript
