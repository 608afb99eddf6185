import FlightScript.JsonValue
import FlightScript.Script

/-!
# Scripts as structured output

The tree of a script as it was read. A value and a command are each an object with
one member, whose name is the kind; a command without parts is its keyword alone.
-/

namespace FlightScript

namespace Value

def toJson : Value → JsonValue
  | .number x => .object [("Number", .number x)]
  | .plain s => .object [("String", .string s)]
  | .quoted s => .object [("Quoted", .string s)]

end Value

namespace StopClause

def toJson (s : StopClause) : JsonValue :=
  .object [("object_name", .string s.object), ("property_name", .string s.property),
    ("value", s.value.toJson)]

end StopClause

namespace Command

def toJson (c : Command) : JsonValue :=
  match c with
  | .create kind name =>
    .tagged c.keyword [("object_type", .string kind), ("object_name", .string name)]
  | .set object property v =>
    .tagged c.keyword [("object_name", .string object), ("property_name", .string property),
      ("value", v.toJson)]
  | .propagate propagator spacecraft stop =>
    .tagged c.keyword [("propagator", .string propagator), ("spacecraft", .string spacecraft),
      ("stop_condition", (stop.map StopClause.toJson).getD .null)]
  | .report tokens => .tagged c.keyword [("tokens", .array (tokens.map .string))]
  | .variable name v => .tagged c.keyword [("name", .string name), ("value", v.toJson)]
  | .save object => .tagged c.keyword [("object_name", .string object)]
  | .ifThen condition => .tagged c.keyword [("condition", .string condition)]
  | .whileDo condition => .tagged c.keyword [("condition", .string condition)]
  | .comment text => .tagged c.keyword [("text", .string text)]
  | .otherwise | .endIf | .endWhile | .unknown => .string c.keyword

end Command

namespace Statement

def toJson (s : Statement) : JsonValue :=
  .object [("line_number", .natural s.line), ("raw_text", .string s.text),
    ("command", s.command.toJson)]

end Statement

namespace Severity

def name : Severity → String
  | .error => "Error"
  | .warning => "Warning"

end Severity

namespace Diagnostic

def toJson (d : Diagnostic) : JsonValue :=
  .object [("line_number", .natural d.line), ("column", .natural d.column),
    ("message", .string d.message), ("code", .string d.code),
    ("severity", .string d.severity.name)]

end Diagnostic

namespace Script

def toJson (s : Script) : JsonValue :=
  .object [("is_valid", .bool s.isValid), ("ast", .array (s.statements.map Statement.toJson)),
    ("errors", .array (s.errors.map Diagnostic.toJson)),
    ("warnings", .array (s.warnings.map Diagnostic.toJson)),
    ("line_count", .natural s.lineCount), ("command_count", .natural s.commandCount)]

end Script

end FlightScript
