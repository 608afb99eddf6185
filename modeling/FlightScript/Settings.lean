import FlightScript.Files
import FlightScript.Problem
import FlightScript.Settings.Numeral
import FlightScript.Settings.Scalar
import FlightScript.Text.Space

/-!
# Settings

Settings are read from a document or from variables; what is not said there keeps
its default. Where a variable names a settings file that is there, that file decides
alone. Whichever way they come, settings are checked before they are used: the
level, then the size of the event buffer, then the default step.
-/

namespace FlightScript

structure Settings where
  /-- What is logged. -/
  logLevel : String
  /-- Where log files are written, if they are. -/
  logDirectory : Option String
  /-- The number of events that wait to be received. -/
  eventBuffer : Nat
  /-- The interval in seconds of a propagation that nothing else bounds. -/
  defaultStep : Float
  deriving DecidableEq

inductive SettingsError where
  | unknownLevel (level : String)
  | zeroBuffer
  /-- The default step is not a positive number. -/
  | badStep
  /-- The variable for the event buffer is no whole number. -/
  | bufferText (reason : IntegerError)
  /-- The variable for the default step is no number. -/
  | stepText (reason : NumberError)
  /-- The settings file cannot be read. -/
  | unreadable (path : String) (reason : ReadError)
  /-- The settings document is malformed, or a value in it is of the wrong kind. -/
  | malformed
  deriving DecidableEq, Repr

namespace Settings

/-! ### Names -/

def fileVariable : String := "MSCRIPT_CONFIG_FILE"

def logLevelVariable : String := "MSCRIPT_LOG_LEVEL"

def logDirectoryVariable : String := "MSCRIPT_LOG_DIR"

def eventBufferVariable : String := "MSCRIPT_EVENT_BUFFER"

def defaultStepVariable : String := "MSCRIPT_DEFAULT_STEP_SECONDS"

inductive Field where
  | logLevel
  | logDirectory
  | eventBuffer
  | defaultStep
  deriving DecidableEq, Repr

namespace Field

def toText : Field → String
  | .logLevel => "log_level"
  | .logDirectory => "log_dir"
  | .eventBuffer => "event_buffer"
  | .defaultStep => "default_step_seconds"

def all : List Field :=
  [.logLevel, .logDirectory, .eventBuffer, .defaultStep]

def ofName? (name : String) : Option Field :=
  all.find? fun f => f.toText = name

end Field

end Settings

namespace SettingsError

def fault : SettingsError → Fault
  | .unknownLevel level => .configuration ("Unknown log level: " ++ level)
  | .zeroBuffer => .configuration "event_buffer must be greater than zero"
  | .badStep => .configuration "default_step_seconds must be a positive number"
  | .bufferText reason =>
    .configuration (Settings.eventBufferVariable ++ ": " ++ reason.message)
  | .stepText reason =>
    .configuration (Settings.defaultStepVariable ++ ": " ++ reason.message)
  | .unreadable path reason =>
    .configuration ("Failed to read " ++ path ++ ": " ++ reason.message)
  | .malformed => .serialization "the settings document cannot be read"

def message (e : SettingsError) : String :=
  e.fault.message

end SettingsError

namespace Settings

def default : Settings where
  logLevel := "info"
  logDirectory := none
  eventBuffer := 100
  defaultStep := 60

/-- The levels, in small letters. -/
def logLevels : List String :=
  ["trace", "debug", "info", "warn", "error"]

/-! ### The check -/

/-- What is wrong with some settings. -/
def flaw? (s : Settings) : Option SettingsError :=
  if Text.foldCase s.logLevel ∉ logLevels then some (.unknownLevel s.logLevel)
  else if s.eventBuffer = 0 then some .zeroBuffer
  else if s.defaultStep.isFinite && 0 < s.defaultStep then none
  else some .badStep

def check (s : Settings) : Except SettingsError Settings :=
  match s.flaw? with
  | none => .ok s
  | some e => .error e

/-- Settings that pass the check pass it unchanged. -/
theorem check_eq_ok_iff (s t : Settings) : s.check = .ok t ↔ s.flaw? = none ∧ t = s := by
  unfold check
  cases s.flaw? <;> simp [eq_comm]

/-- Nothing is wrong with some settings exactly when all three parts are right. -/
theorem flaw?_eq_none_iff (s : Settings) :
    s.flaw? = none ↔ Text.foldCase s.logLevel ∈ logLevels ∧ 0 < s.eventBuffer ∧
      s.defaultStep.isFinite ∧ 0 < s.defaultStep := by
  unfold flaw?
  by_cases hl : Text.foldCase s.logLevel ∈ logLevels
  · by_cases hb : s.eventBuffer = 0
    · simp [hl, hb]
    · have hpos : 0 < s.eventBuffer := Nat.pos_of_ne_zero hb
      by_cases hs : s.defaultStep.isFinite = true ∧ 0 < s.defaultStep
      · simp [hl, hb, hs, hpos]
      · simp [hl, hb, hs, hpos]
  · simp [hl]

/-! ### Documents -/

def assign (s : Settings) (f : Field) (node : Document.Node Nat) : Option Settings :=
  match f with
  | .logLevel => node.text?.map fun level => { s with logLevel := level }
  | .logDirectory => node.optionalText?.map fun directory => { s with logDirectory := directory }
  | .eventBuffer => node.whole?.map fun n => { s with eventBuffer := n }
  | .defaultStep => node.number?.map fun step => { s with defaultStep := step }

/-- The settings after the entries of a document. Other keys are passed over; no field
is set twice. `seen` are the fields set before. -/
def ofEntries? (s : Settings) (seen : List Field) :
    List (String × Document.Node Nat) → Option Settings
  | [] => some s
  | (name, node) :: rest =>
    match Field.ofName? name with
    | none => ofEntries? s seen rest
    | some f =>
      if f ∈ seen then none
      else (s.assign f node).bind fun s => ofEntries? s (f :: seen) rest

/-- The settings of a document, before the check. -/
def ofDocument? (text : String) : Option Settings :=
  (Document.read? text).bind fun d => d.fields?.bind fun fields =>
    ofEntries? default [] fields

example : ofDocument? "" = some default := by decide +kernel
example : ofDocument? "event_buffer: 0x10 # sixteen\nother: [1, 2]" =
    some { default with eventBuffer := 16 } := by decide +kernel
example : ofDocument? "event_buffer: 1\nevent_buffer: 1" = none := by decide +kernel

def ofDocument (text : String) : Except SettingsError Settings :=
  match ofDocument? text with
  | none => .error .malformed
  | some s => s.check

def ofFile (files : Files) (path : String) : Except SettingsError Settings :=
  match files path with
  | .error reason => .error (.unreadable path reason)
  | .ok text => ofDocument text

/-! ### Variables -/

/-- The variables of the environment, by name. -/
abbrev Environment := String → Option String

def readBuffer (env : Environment) : Except SettingsError Nat :=
  match env eventBufferVariable with
  | none => .ok default.eventBuffer
  | some text =>
    match Numeral.readWhole text with
    | .ok n => .ok n
    | .error reason => .error (.bufferText reason)

def readStep (env : Environment) : Except SettingsError Float :=
  match env defaultStepVariable with
  | none => .ok default.defaultStep
  | some text =>
    match Numeral.readNumber text with
    | .ok x => .ok x
    | .error reason => .error (.stepText reason)

/-- The settings of variables, before the check. -/
def readVariables (env : Environment) : Except SettingsError Settings := do
  let buffer ← readBuffer env
  let step ← readStep env
  return { logLevel := (env logLevelVariable).getD default.logLevel
           logDirectory := env logDirectoryVariable
           eventBuffer := buffer
           defaultStep := step }

/-- The settings of variables that name no settings file. -/
def ofVariables (env : Environment) : Except SettingsError Settings := do
  (← readVariables env).check

/-- The settings file that variables name, if there is such a file. -/
def file? (files : Files) (env : Environment) : Option String :=
  (env fileVariable).filter files.holds

/-- The settings that variables, or the file that they name, give. -/
def load (files : Files) (env : Environment) : Except SettingsError Settings :=
  match file? files env with
  | some path => ofFile files path
  | none => ofVariables env

end Settings

end FlightScript
