/-!
# Arguments

The arguments of the command line name one of three actions and a script file. The
options for a settings file and for a level may stand before or after the name of the
action, those of an action only after it. No option stands twice on one side of that
name; of an option on both sides the second one counts. An option and its value are
two arguments, or one with an equals sign between them. After `--` an argument is no
option.
-/

namespace FlightScript

inductive Action where
  /-- Show the statements, as lines or as a tree. -/
  | parse (file : String) (asTree : Bool)
  /-- Show what is found in the script. -/
  | validate (file : String)
  /-- Run the script for a user. -/
  | run (file user : String)
  deriving DecidableEq, Repr

structure Invocation where
  /-- The path of a settings file. -/
  settings : Option String
  /-- A level in place of that of the settings. -/
  logLevel : Option String
  action : Action
  deriving DecidableEq, Repr

inductive UsageError where
  | noAction
  | unknownAction (name : String)
  | unknownOption (name : String)
  | repeatedOption (name : String)
  | missingValue (name : String)
  | unexpectedValue (name : String)
  | unexpectedArgument (text : String)
  | missingFile
  deriving DecidableEq, Repr

namespace UsageError

def message : UsageError → String
  | .noAction => "an action is needed: parse, validate or run"
  | .unknownAction name => "unrecognized action '" ++ name ++ "'"
  | .unknownOption name => "unexpected option '" ++ name ++ "'"
  | .repeatedOption name => "the option '" ++ name ++ "' is given more than once"
  | .missingValue name => "a value is required for '" ++ name ++ "'"
  | .unexpectedValue name => "no value is expected for '" ++ name ++ "'"
  | .unexpectedArgument text => "unexpected argument '" ++ text ++ "'"
  | .missingFile => "a script file is needed"

end UsageError

namespace Invocation

inductive OptionName where
  | settings
  | logLevel
  | tree
  | user
  deriving DecidableEq, Repr

namespace OptionName

def toText : OptionName → String
  | .settings => "--config"
  | .logLevel => "--log-level"
  | .tree => "--json"
  | .user => "--user"

def takesValue : OptionName → Bool
  | .tree => false
  | _ => true

/-- The value of the option may be empty; a path may not. -/
def takesEmpty : OptionName → Bool
  | .settings => false
  | _ => true

/-- The options that may stand before the name of the action. -/
def general : List OptionName :=
  [.settings, .logLevel]

end OptionName

/-- The options and the other arguments of one side of the name of the action. -/
structure Side where
  options : List (OptionName × String)
  others : List String
  deriving DecidableEq, Repr

namespace Side

def empty : Side :=
  ⟨[], []⟩

def value? (s : Side) (name : OptionName) : Option String :=
  (s.options.find? fun o => o.1 = name).map Prod.snd

def add (s : Side) (name : OptionName) (value : String) : Except UsageError Side :=
  if (s.value? name).isSome then .error (.repeatedOption name.toText)
  else if value.isEmpty && !name.takesEmpty then .error (.missingValue name.toText)
  else .ok { s with options := s.options ++ [(name, value)] }

end Side

def isOption (argument : String) : Bool :=
  match argument.toList with
  | '-' :: _ :: _ => true
  | _ => false

def splitAtEquals (argument : String) : String × Option String :=
  let cs := argument.toList
  let name := String.ofList (cs.takeWhile (· ≠ '='))
  match cs.dropWhile (· ≠ '=') with
  | [] => (name, none)
  | _ :: value => (name, some (String.ofList value))

/-- Reads arguments that begin with one side of the name of the action, where some
options may stand. Where `untilAction` is set the first other argument ends it. -/
def readSide (allowed : List OptionName) (untilAction : Bool) (s : Side) :
    List String → Except UsageError (Side × List String)
  | [] => .ok (s, [])
  | argument :: rest =>
    if argument = "--" then
      if untilAction then
        match rest with
        | [] => .ok (s, [])
        | next :: _ => .error (.unexpectedArgument next)
      else .ok ({ s with others := s.others ++ rest }, [])
    else if isOption argument then
      let (written, given) := splitAtEquals argument
      match allowed.find? fun name => name.toText = written with
      | none => .error (.unknownOption argument)
      | some name =>
        if name.takesValue then
          match given with
          | some value =>
            (s.add name value).bind fun s => readSide allowed untilAction s rest
          | none =>
            match rest with
            | [] => .error (.missingValue written)
            | value :: rest =>
              if isOption value then .error (.missingValue written)
              else (s.add name value).bind fun s => readSide allowed untilAction s rest
        else if given.isSome then .error (.unexpectedValue written)
        else (s.add name "").bind fun s => readSide allowed untilAction s rest
    else if untilAction then .ok (s, argument :: rest)
    else readSide allowed untilAction { s with others := s.others ++ [argument] } rest

/-- The one file among the other arguments of a side. -/
def file (s : Side) : Except UsageError String :=
  match s.others with
  | [] => .error .missingFile
  | [path] => if path.isEmpty then .error .missingFile else .ok path
  | _ :: extra :: _ => .error (.unexpectedArgument extra)

def optionsOf? (action : String) : Option (List OptionName) :=
  match action with
  | "parse" => some (.tree :: OptionName.general)
  | "validate" => some OptionName.general
  | "run" => some (.user :: OptionName.general)
  | _ => none

def actionOf (name : String) (s : Side) : Except UsageError Action := do
  let path ← file s
  match name with
  | "parse" => return .parse path (s.value? .tree).isSome
  | "validate" => return .validate path
  | "run" => return .run path ((s.value? .user).getD "cli")
  | _ => throw (.unknownAction name)

def read (arguments : List String) : Except UsageError Invocation := do
  let (before, rest) ← readSide OptionName.general true .empty arguments
  match rest with
  | [] => throw .noAction
  | name :: rest =>
    match optionsOf? name with
    | none => throw (.unknownAction name)
    | some allowed =>
      let (after, _) ← readSide allowed false .empty rest
      let action ← actionOf name after
      return { settings := after.value? .settings <|> before.value? .settings
               logLevel := after.value? .logLevel <|> before.value? .logLevel
               action := action }

end Invocation

end FlightScript
