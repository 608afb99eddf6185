import FlightScript.Diagnostic
import FlightScript.Script.Statement
import FlightScript.Text.Lines

/-!
# Scripts

A script is read line by line, and every text is a script: a line that is no
command becomes an unknown statement and gives an error, and reading goes on with
the next line. Lines that hold white space only are passed over, but they count
for the numbers of the lines after them.
-/

namespace FlightScript

structure Script where
  statements : List Statement
  /-- One error for each line that is no command. -/
  errors : List Diagnostic
  /-- The number of lines, also of those passed over. -/
  lineCount : Nat
  deriving DecidableEq

namespace Script

def isEmptyLine (text : String) : Bool :=
  text.toList.all Text.isSpace

/-- The lines that are not passed over, each with its number; `n` is the number of
the first line. -/
def numberedLines : Nat → List String → List (Nat × String)
  | _, [] => []
  | n, text :: rest =>
    if isEmptyLine text then numberedLines (n + 1) rest
    else (n, text) :: numberedLines (n + 1) rest

def refusal? (line : Nat) (text : String) : Option Diagnostic :=
  match Statement.read line text with
  | .ok _ => none
  | .error e => some ((Finding.unknownCommand e.message).diagnostic line text)

def ofLines (lines : List String) : Script :=
  let numbered := numberedLines 1 lines
  { statements := numbered.map fun l => Statement.readOrUnknown l.1 l.2
    errors := numbered.filterMap fun l => refusal? l.1 l.2
    lineCount := lines.length }

def read (text : String) : Script :=
  ofLines (Text.lines text)

/-- Every line that is not passed over is a command or a comment. -/
def isValid (s : Script) : Bool :=
  s.errors.isEmpty

def warnings (_ : Script) : List Diagnostic :=
  []

def executable (s : Script) : List Statement :=
  s.statements.filter Statement.isExecutable

def commandCount (s : Script) : Nat :=
  s.executable.length

@[simp] theorem numberedLines_nil (n : Nat) : numberedLines n [] = [] := rfl

/-- The numbering goes on in an appended list of lines. -/
theorem numberedLines_append (n : Nat) (ls ms : List String) :
    numberedLines n (ls ++ ms) = numberedLines n ls ++ numberedLines (n + ls.length) ms := by
  induction ls generalizing n with
  | nil => simp
  | cons l ls ih =>
    have hlen : n + 1 + ls.length = n + (ls.length + 1) := by omega
    by_cases h : isEmptyLine l <;> simp [numberedLines, h, ih, hlen]

end Script

end FlightScript
