import FlightScript.Calendar.Date
import FlightScript.CommandLine

/-!
# The program

Reads the files and variables that an invocation can need, and writes its outcome.
Where the settings name a directory for log files, an empty log file of the day is
opened there. Nothing is logged.
-/

open FlightScript

/-- Why a file cannot be read, from the number and the words of the system. Some of its
numbers come with a minus sign. -/
def readErrorOfCode (code : UInt32) (detail : String) : ReadError :=
  let code := min code (0 - code)
  if code = 2 then .notFound
  else if code = 13 then .denied
  else if code = 20 then .notDirectory
  else if code = 21 then .isDirectory
  else if code = 36 then .nameTooLong
  else .other (detail ++ " (os error " ++ toString code ++ ")")

def readErrorOf : IO.Error → ReadError
  | .noFileOrDirectory _ code detail => readErrorOfCode code detail
  | .inappropriateType _ code detail => readErrorOfCode code detail
  | .invalidArgument _ code detail => readErrorOfCode code detail
  | .permissionDenied _ code detail => readErrorOfCode code detail
  | .otherError code detail => readErrorOfCode code detail
  | e => .other (toString e)

def readText (path : String) : IO (Except ReadError String) := do
  try
    let bytes ← IO.FS.readBinFile path
    match String.fromUTF8? bytes with
    | some text => return .ok text
    | none => return .error .notText
  catch e => return .error (readErrorOf e)

def readFiles (paths : List String) : IO Files := do
  let contents ← paths.mapM fun path => do return (path, ← readText path)
  return fun path => (contents.lookup path).getD (.error .notFound)

def settingsPaths (named : Option String) (arguments : List String) : List String :=
  match Invocation.read arguments with
  | .error _ => []
  | .ok i => i.settings.toList ++ named.toList

def scriptPath : Action → String
  | .parse path _ => path
  | .validate path => path
  | .run path _ => path

def twoDigits (n : Nat) : String :=
  (if n < 10 then "0" else "") ++ toString n

def logFileName (d : Date) : String :=
  logFileStem ++ toString d.year ++ "-" ++ twoDigits d.month ++ "-" ++ twoDigits d.day

/-- Opens the log file of the day in a directory. The day is that of a file just
written. -/
def openLog (directory : String) : IO Unit := do
  let place := if directory.isEmpty then "." else directory
  IO.FS.createDirAll place
  let fresh := place ++ "/" ++ logFileStem
  IO.FS.writeFile fresh ""
  let written ← (← IO.FS.realPath fresh).metadata
  let today := Date.ofDays (written.modified.sec / 86400)
  IO.FS.rename fresh (place ++ "/" ++ logFileName today)

def main (arguments : List String) : IO UInt32 := do
  let names := [Settings.fileVariable, Settings.logLevelVariable, Settings.logDirectoryVariable,
    Settings.eventBufferVariable, Settings.defaultStepVariable]
  let values ← names.mapM fun name => do return (name, ← IO.getEnv name)
  let env : Settings.Environment := fun name => (values.lookup name).join
  let settingsFiles ← readFiles (settingsPaths (env Settings.fileVariable) arguments)
  let started ← IO.monoMsNow
  let outcome : Outcome ←
    match CommandLine.prepare settingsFiles env arguments with
    | .error f => pure (.ofFailure f)
    | .ok (settings, action) =>
      try
        if let some directory := settings.logDirectory then openLog directory
        let files ← readFiles [scriptPath action]
        IO.lazyPure fun _ => CommandLine.act files settings action
      catch _ => pure (.ofFailure .crashed)
  let ended ← IO.monoMsNow
  (← IO.getStdout).putStr (outcome.outputText "" (toString (ended - started)))
  (← IO.getStderr).putStr (outcome.errorText JobId.toText)
  return outcome.exitCode.toUInt32
