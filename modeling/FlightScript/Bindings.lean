import FlightScript.Object

/-!
# Bindings

While a script runs, names are bound to objects and to values, which are kept
apart, and lines are appended to a log. `Bindings.resolve` is the text that a token
of a report stands for: a name is a variable; a name with a point in it is a
property if an object has the part before the first point, else a variable with
that whole name.
-/

namespace FlightScript

/-- What a running script has made. -/
structure Bindings where
  objects : Table Object
  /-- The values of the variables. -/
  values : Table Value
  /-- The lines of the log, the first one first. -/
  log : List String
  deriving DecidableEq

def undefinedText : String := "undefined"

def notAvailableText : String := "N/A"

/-- What stands before and after the first point. -/
def splitAtPoint? : List Char → Option (List Char × List Char)
  | [] => none
  | c :: rest =>
    if c = '.' then some ([], rest)
    else (splitAtPoint? rest).map fun (l, r) => (c :: l, r)

/-- A text is split at its first point. -/
theorem splitAtPoint?_eq_some_iff (cs l r : List Char) :
    splitAtPoint? cs = some (l, r) ↔ cs = l ++ '.' :: r ∧ '.' ∉ l := by
  induction cs generalizing l with
  | nil => simp [splitAtPoint?]
  | cons c cs ih =>
    by_cases hc : c = '.'
    · subst hc
      cases l with
      | nil => simp [splitAtPoint?, eq_comm]
      | cons d l => grind [splitAtPoint?]
    · cases l with
      | nil => simp [splitAtPoint?, hc]
      | cons d l =>
        simp only [splitAtPoint?, if_neg hc, Option.map_eq_some_iff, Prod.mk.injEq,
          Prod.exists, List.cons_append, List.cons.injEq, List.mem_cons]
        grind

/-- A text without a point is not split. -/
theorem splitAtPoint?_eq_none_iff (cs : List Char) : splitAtPoint? cs = none ↔ '.' ∉ cs := by
  induction cs with
  | nil => simp [splitAtPoint?]
  | cons c cs ih =>
    by_cases hc : c = '.'
    · simp [splitAtPoint?, hc]
    · simp only [splitAtPoint?, if_neg hc, Option.map_eq_none_iff, ih, List.mem_cons]
      grind

namespace Bindings

def empty : Bindings :=
  ⟨.empty, .empty, []⟩

/-- The bindings with a new object under a name, in place of a former one. -/
def create (b : Bindings) (kind name : String) : Bindings :=
  { b with objects := b.objects.insert name (.create kind) }

def assign (b : Bindings) (name : String) (v : Value) : Bindings :=
  { b with values := b.values.insert name v }

def append (b : Bindings) (line : String) : Bindings :=
  { b with log := b.log ++ [line] }

def variableText? (b : Bindings) (name : String) : Option String :=
  (b.values.get? name).map Value.toText

/-- The text that a token of a report stands for. -/
def resolve (b : Bindings) (token : String) : String :=
  match splitAtPoint? token.toList with
  | some (object, property) =>
    match b.objects.get? (String.ofList object) with
    | some o => (o.report? (String.ofList property)).getD notAvailableText
    | none => (b.variableText? token).getD notAvailableText
  | none => (b.variableText? token).getD undefinedText

/-- The name of the variable that an assignment to a property of no object goes
to. -/
def dotted (object property : String) : String :=
  object ++ "." ++ property

@[simp] theorem log_append (b : Bindings) (line : String) : (b.append line).log = b.log ++ [line] :=
  rfl

/-- The log bears on no token. -/
@[simp] theorem resolve_append (b : Bindings) (line token : String) :
    (b.append line).resolve token = b.resolve token := rfl

end Bindings

end FlightScript
