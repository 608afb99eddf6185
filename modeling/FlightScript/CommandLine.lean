import FlightScript.CommandLine.Arguments
import FlightScript.Engine
import FlightScript.Script.Json
import FlightScript.Settings

/-!
# The command line

What an invocation gives: the lines of the output, the diagnostics, and the failure
that ends it early, if there is one. The settings come first, then the log file is
opened, then the script file is read, and then the action is done. Running a script is
running it as the only job of an engine, whose events are received as they come. How a
job is named, how long it took and what was logged meanwhile differs from run to run;
these are filled in when the outcome is written.
-/

namespace FlightScript

/-- The largest number of events that a channel can be made to hold. -/
def largestBuffer : Nat := 2305843009213693951

def version : String := "0.1.0"

/-- What the names of the daily log files begin with. -/
def logFileStem : String := "mscript.log."

inductive Failure where
  | usage (e : UsageError)
  /-- The settings file of the command line gives no settings. -/
  | settingsFile (path : String) (e : SettingsError)
  /-- There are no settings. -/
  | settings (e : SettingsError)
  /-- The script file cannot be read. -/
  | unreadable (path : String) (e : ReadError)
  /-- The script is not valid. -/
  | invalid (path : String) (errors : Nat)
  /-- The script is not valid and was not run. -/
  | rejected (path : String)
  /-- The job ended other than completed. -/
  | ended (job : JobId) (status : Status)
  /-- The engine does not do what it is asked to. -/
  | engine (e : EngineError)
  /-- A log file or a channel cannot be made, and the program is given up. -/
  | crashed
  deriving DecidableEq

namespace Failure

/-- The first line about a failure; `nameOf` gives the name of a job. -/
def headline (nameOf : JobId → String) : Failure → String
  | .usage e => e.message
  | .settingsFile path _ => "loading config from " ++ path
  | .settings e => e.message
  | .unreadable path _ => "reading " ++ path
  | .invalid path errors => path ++ " failed validation with " ++ toString errors ++ " error(s)"
  | .rejected path => path ++ " failed validation"
  | .ended job status => "job " ++ nameOf job ++ " ended " ++ status.toText
  | .engine e => e.message
  | .crashed => ""

def cause? : Failure → Option String
  | .settingsFile _ e => some e.message
  | .unreadable _ e => some e.message
  | _ => none

def exitCode : Failure → Nat
  | .usage _ => 2
  | .crashed => 101
  | _ => 1

def indent (text : String) : String :=
  let spaces := "    ".toList
  String.ofList (spaces ++ text.toList.flatMap fun c => if c = '\n' then c :: spaces else [c])

def toText (nameOf : JobId → String) (f : Failure) : String :=
  let cause := match f.cause? with
    | some cause => "\n\nCaused by:\n" ++ indent cause
    | none => ""
  "Error: " ++ f.headline nameOf ++ cause

/-- What is written about a failure. Of a crash only the run-time system writes, in words
of its own. -/
def lines (nameOf : JobId → String) : Failure → List String
  | .crashed => []
  | f => [f.toText nameOf]

end Failure

structure Outcome where
  /-- The lines of the output. -/
  output : List String
  /-- A job completed, which is said after the output. -/
  completed : Bool
  diagnostics : List Diagnostic
  failure : Option Failure
  /-- The directory in which a log file was opened. -/
  logDirectory : Option String
  deriving DecidableEq

namespace Outcome

def ofFailure (f : Failure) : Outcome :=
  ⟨[], false, [], some f, none⟩

def exitCode (o : Outcome) : Nat :=
  (o.failure.map Failure.exitCode).getD 0

/-- Some lines, each with its end. -/
def unlines (lines : List String) : String :=
  String.join (lines.map (· ++ "\n"))

/-- What is written to the output; `logged` is what was logged to it meanwhile, all of it
before the rest, and `elapsed` the time that the job took, in milliseconds. -/
def outputText (o : Outcome) (logged elapsed : String) : String :=
  logged ++
    unlines (o.output ++ if o.completed then ["Completed in " ++ elapsed ++ " ms"] else [])

/-- What is written about diagnostics and failures; `nameOf` gives the name of a
job. -/
def errorText (o : Outcome) (nameOf : JobId → String) : String :=
  unlines (o.diagnostics.map Diagnostic.toText ++
    (o.failure.map (Failure.lines nameOf)).getD [])

end Outcome

namespace CommandLine

/-! ### The actions -/

def padded (width : Nat) (text : String) : List Char :=
  List.replicate (width - text.length) ' '

def statementLine (s : Statement) : String :=
  let number := toString s.line
  let keyword := s.command.keyword
  String.ofList (padded 4 number) ++ number ++ "  " ++ keyword ++
    String.ofList (padded 10 keyword) ++ " " ++ s.trimmed

def summary (s : Script) : String :=
  toString s.lineCount ++ " lines, " ++ toString s.commandCount ++ " commands, " ++
    toString s.errors.length ++ " errors"

def parse (text : String) (asTree : Bool) : Outcome :=
  let s := Script.read text
  if asTree then ⟨[s.toJson.toText 0], false, [], none, none⟩
  else
    let lines := s.statements.map statementLine ++ [summary s]
    ⟨lines, false, s.errors ++ s.warnings, none, none⟩

def validate (path text : String) : Outcome :=
  let v := FlightScript.validate text
  let found := v.errors ++ v.warnings
  if v.isValid then
    ⟨[path ++ ": valid (" ++ toString v.warnings.length ++ " warning(s))"], false, found, none,
      none⟩
  else ⟨[], false, found, some (.invalid path v.errors.length), none⟩

def ofJob (job : Job) : Outcome :=
  let isCompleted : Bool := job.status = .completed
  ⟨job.log, isCompleted, job.errors,
    if isCompleted then none else some (.ended job.id job.status), none⟩

def run (defaultStep : Float) (path text user : String) : Outcome :=
  let (e, queued) := (Engine.create defaultStep .channel false).submit text user none none
  match queued with
  | .error (.validationFailed job) => ⟨[], false, job.errors, some (.rejected path), none⟩
  | .error error => .ofFailure (.engine error)
  | .ok job =>
    match (e.wait job.id).2 with
    | .error error => .ofFailure (.engine error)
    | .ok job => ofJob job

/-! ### Invocations -/

def settings (files : Files) (env : Settings.Environment) (i : Invocation) :
    Except Failure Settings := do
  let loaded ← match i.settings with
    | some path =>
      match Settings.ofFile files path with
      | .ok s => pure s
      | .error e => throw (.settingsFile path e)
    | none =>
      match Settings.load files env with
      | .ok s => pure s
      | .error e => throw (.settings e)
  match { loaded with logLevel := i.logLevel.getD loaded.logLevel }.check with
  | .ok s => pure s
  | .error e => throw (.settings e)

def act (files : Files) (s : Settings) (action : Action) : Outcome :=
  let withText (path : String) (f : String → Outcome) : Outcome :=
    match files path with
    | .ok text => f text
    | .error e => .ofFailure (.unreadable path e)
  match action with
  | .parse path asTree => withText path fun text => parse text asTree
  | .validate path => withText path fun text => validate path text
  | .run path user => withText path fun text =>
    if s.eventBuffer ≤ largestBuffer then run s.defaultStep path text user
    else .ofFailure .crashed

def prepare (files : Files) (env : Settings.Environment) (arguments : List String) :
    Except Failure (Settings × Action) :=
  match Invocation.read arguments with
  | .error e => .error (.usage e)
  | .ok i => (settings files env i).map fun s => (s, i.action)

/-- What some arguments give. After a log file was opened in a directory, the files are
those of `filesWith` for that directory, if it can be opened there. -/
def outcome (files : Files) (filesWith : String → Option Files) (env : Settings.Environment)
    (arguments : List String) : Outcome :=
  match prepare files env arguments with
  | .error f => .ofFailure f
  | .ok (s, action) =>
    match s.logDirectory.elim (some files) filesWith with
    | none => .ofFailure .crashed
    | some files => { act files s action with logDirectory := s.logDirectory }

end CommandLine

end FlightScript
