import FlightScript.Proofs.JsonValue.Text
import FlightScript.Script.Json

/-!
# Commands told by their structured output

A command can be read from the tree that is printed of it (`ofJson?_printed`), up to the numbers
that are not finite: all of them are printed as `null`. So the printed text tells the kind of the
command, its names, tokens and conditions and every finite number
(`Command.toText_toJson_eq_iff`), and no text tells the infinite numbers from each other or from
the one that is no number (`Command.toText_toJson_infinities`).
-/

namespace FlightScript

open JsonValue

namespace Double

/-- The number, or the one that is no number for all that are not finite. -/
def finiteOrNan (x : Float) : Float :=
  if x.isFinite then x else nan

end Double

namespace Value

def finiteOrNan : Value → Value
  | .number x => .number (Double.finiteOrNan x)
  | v => v

/-- The value that a tree holds. `null` stands for the number that is none. -/
def ofJson? : JsonValue → Option Value
  | .object [("Number", .number x)] => some (.number x)
  | .object [("Number", .null)] => some (.number Double.nan)
  | .object [("String", .string s)] => some (.plain s)
  | .object [("Quoted", .string s)] => some (.quoted s)
  | _ => none

theorem ofJson?_printed (v : Value) : ofJson? v.toJson.printed = some v.finiteOrNan := by
  cases v with
  | number x =>
      rw [toJson, printed, printedMembers, printed, finiteOrNan, Double.finiteOrNan]
      split <;> rfl
  | plain s => rfl
  | quoted s => rfl

theorem printed_finiteOrNan (v : Value) : v.finiteOrNan.toJson.printed = v.toJson.printed := by
  cases v with
  | number x =>
      by_cases hfinite : x.isFinite
      · rw [finiteOrNan, Double.finiteOrNan, if_pos hfinite]
      · have hnan : Double.nan.isFinite = false := by decide +kernel
        rw [finiteOrNan, Double.finiteOrNan, if_neg hfinite]
        simp only [toJson, printed, printedMembers, hfinite, hnan, Bool.false_eq_true, if_false]
  | plain s => rfl
  | quoted s => rfl

end Value

namespace StopClause

def mapValue (f : Value → Value) (s : StopClause) : StopClause :=
  { s with value := f s.value }

def ofJson? : JsonValue → Option StopClause
  | .object [("object_name", .string target), ("property_name", .string property),
      ("value", v)] => (Value.ofJson? v).map (StopClause.mk target property)
  | _ => none

theorem ofJson?_printed (s : StopClause) :
    ofJson? s.toJson.printed = some (s.mapValue Value.finiteOrNan) := by
  have hprinted : s.toJson.printed = .object [("object_name", .string s.object),
      ("property_name", .string s.property), ("value", s.value.toJson.printed)] := rfl
  rw [hprinted, ofJson?, Value.ofJson?_printed]
  rfl

end StopClause

namespace Command

def mapValue (f : Value → Value) : Command → Command
  | .set target property v => .set target property (f v)
  | .propagate propagator spacecraft stop =>
    .propagate propagator spacecraft (stop.map (StopClause.mapValue f))
  | .variable name v => .variable name (f v)
  | c => c

def text? : JsonValue → Option String
  | .string s => some s
  | _ => none

def ofJson? : JsonValue → Option Command
  | .object [("Create", .object [("object_type", .string kind), ("object_name", .string name)])] =>
    some (.create kind name)
  | .object [("Set", .object [("object_name", .string target), ("property_name", .string property),
      ("value", v)])] => (Value.ofJson? v).map (Command.set target property)
  | .object [("Propagate", .object [("propagator", .string propagator),
      ("spacecraft", .string spacecraft), ("stop_condition", .null)])] =>
    some (.propagate propagator spacecraft none)
  | .object [("Propagate", .object [("propagator", .string propagator),
      ("spacecraft", .string spacecraft), ("stop_condition", stop)])] =>
    (StopClause.ofJson? stop).map fun s => .propagate propagator spacecraft (some s)
  | .object [("Report", .object [("tokens", .array tokens)])] =>
    (tokens.mapM text?).map Command.report
  | .object [("Variable", .object [("name", .string name), ("value", v)])] =>
    (Value.ofJson? v).map (Command.variable name)
  | .object [("Save", .object [("object_name", .string target)])] => some (.save target)
  | .object [("If", .object [("condition", .string condition)])] => some (.ifThen condition)
  | .object [("While", .object [("condition", .string condition)])] => some (.whileDo condition)
  | .object [("Comment", .object [("text", .string text)])] => some (.comment text)
  | .string "Else" => some .otherwise
  | .string "EndIf" => some .endIf
  | .string "EndWhile" => some .endWhile
  | .string "Unknown" => some .unknown
  | _ => none

theorem mapM_text?_printedItems (tokens : List String) :
    (printedItems (tokens.map .string)).mapM text? = some tokens := by
  induction tokens with
  | nil => rfl
  | cons token tokens ih =>
      rw [List.map_cons, printedItems, List.mapM_cons, ih]
      rfl

theorem ofJson?_printed (c : Command) :
    ofJson? c.toJson.printed = some (c.mapValue Value.finiteOrNan) := by
  cases c with
  | create kind name => rfl
  | set target property v =>
      have hread : ofJson? (set target property v).toJson.printed =
          (Value.ofJson? v.toJson.printed).map (Command.set target property) := rfl
      rw [hread, Value.ofJson?_printed]
      rfl
  | propagate propagator spacecraft stop =>
      cases stop with
      | none => rfl
      | some s =>
          have hread : ofJson? (propagate propagator spacecraft (some s)).toJson.printed =
              (StopClause.ofJson? s.toJson.printed).map
                fun s => .propagate propagator spacecraft (some s) := rfl
          rw [hread, StopClause.ofJson?_printed]
          rfl
  | report tokens =>
      have hread : ofJson? (report tokens).toJson.printed =
          ((printedItems (tokens.map .string)).mapM text?).map Command.report := rfl
      rw [hread, mapM_text?_printedItems]
      rfl
  | «variable» name v =>
      have hread : ofJson? (Command.variable name v).toJson.printed =
          (Value.ofJson? v.toJson.printed).map (Command.variable name) := rfl
      rw [hread, Value.ofJson?_printed]
      rfl
  | save target => rfl
  | ifThen condition => rfl
  | otherwise => rfl
  | endIf => rfl
  | whileDo condition => rfl
  | endWhile => rfl
  | comment text => rfl
  | unknown => rfl

theorem printed_mapValue (c : Command) :
    (c.mapValue Value.finiteOrNan).toJson.printed = c.toJson.printed := by
  cases c with
  | set target property v =>
      simp only [mapValue, toJson, keyword, tagged, printed, printedMembers,
        Value.printed_finiteOrNan]
  | propagate propagator spacecraft stop =>
      cases stop with
      | none => rfl
      | some s =>
          simp only [mapValue, toJson, keyword, tagged, printed, printedMembers, Option.map_some,
            Option.getD_some, StopClause.toJson, StopClause.mapValue, Value.printed_finiteOrNan]
  | «variable» name v =>
      simp only [mapValue, toJson, keyword, tagged, printed, printedMembers,
        Value.printed_finiteOrNan]
  | _ => rfl

/-- Two commands have one text in structured output, at whatever depth it stands, just if they
differ in nothing but in which numbers their literals have that are not finite. -/
theorem toText_toJson_eq_iff (c d : Command) (depth : Nat) :
    c.toJson.toText depth = d.toJson.toText depth ↔
      c.mapValue Value.finiteOrNan = d.mapValue Value.finiteOrNan := by
  rw [toText_eq_toText_iff]
  constructor
  · intro h
    have hread := congrArg ofJson? h
    rw [ofJson?_printed, ofJson?_printed] at hread
    exact Option.some.inj hread
  · intro h
    rw [← printed_mapValue c, h, printed_mapValue d]

/-- Three commands that a script can hold, no two of which have the same number, have one text. -/
theorem toText_toJson_infinities :
    (Script.read "x = inf\nx = -inf\nx = nan").statements.map Statement.command =
        [.variable "x" (.number Double.infinity), .variable "x" (.number (-Double.infinity)),
          .variable "x" (.number Double.nan)] ∧
      (Double.infinity == -Double.infinity) = false ∧
      (Command.variable "x" (.number Double.infinity)).toJson.toText 3 =
        (Command.variable "x" (.number (-Double.infinity))).toJson.toText 3 ∧
      (Command.variable "x" (.number Double.infinity)).toJson.toText 3 =
        (Command.variable "x" (.number Double.nan)).toJson.toText 3 := by
  refine ⟨by decide +kernel, by decide +kernel, by decide +kernel, by decide +kernel⟩

end Command

end FlightScript
