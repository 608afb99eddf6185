import FlightScript.Command
import FlightScript.Command.Words

/-!
# The shapes of a command

A line is a command when it has one of eleven shapes. `Shape.read?` recognises
one shape; it accepts a whole line only, and each word is taken as long as it
goes, so that a line has a shape in at most one way. `Command.read?` takes the
first shape that fits, in the order `Shape.order`.

The lines are given without white space around them.
-/

namespace FlightScript

inductive Shape where
  /-- `create` kind name -/
  | create
  /-- `propagate` propagator `(` spacecraft `)`, then perhaps a stop clause -/
  | propagate
  /-- object `.` property `=` value -/
  | set
  /-- `report` token … token -/
  | report
  /-- `save` object -/
  | save
  /-- `if` condition -/
  | ifThen
  /-- `else` -/
  | otherwise
  /-- `endif` -/
  | endIf
  /-- `while` condition -/
  | whileDo
  /-- `endwhile` -/
  | endWhile
  /-- name `=` value, perhaps with `var` before the name -/
  | variable
  deriving DecidableEq, Repr

namespace Shape

open Words

/-- The order in which the shapes are tried. -/
def order : List Shape :=
  [.create, .propagate, .set, .report, .save, .ifThen, .otherwise, .endIf, .whileDo,
    .endWhile, .variable]

/-- A command, if nothing is left of the line after it. -/
def whole? (command : Command) (rest : List Char) : Option Command :=
  if rest = [] then some command else none

/-- An equals sign between blanks and the value after it, up to the end of the
line. -/
def assigned? (cs : List Char) : Option Value := do
  let cs ← symbol? '=' (skipBlanks cs)
  let cs ← nonempty? (skipBlanks cs)
  some (Value.read (String.ofList cs))

def target? (cs : List Char) : Option (String × String × List Char) := do
  let (object, cs) ← name? cs
  let cs ← symbol? '.' cs
  let (property, cs) ← name? cs
  some (object, property, cs)

def condition? (keyword : String) (cs : List Char) : Option String := do
  let cs ← keyword? keyword.toList cs
  let cs ← blanks? cs
  let cs ← nonempty? cs
  some (String.ofList (Text.trimChars cs))

/-- The value of a stop clause: what stands before the first closing brace, which
ends the line, without the blanks before that brace. -/
def stopValue? (cs : List Char) : Option Value := do
  let text ← nonempty? (Text.dropTrailing Text.isBlank (cs.takeWhile (· ≠ '\x7d')))
  if cs.dropWhile (· ≠ '\x7d') = ['\x7d'] then
    some (Value.read (String.ofList text))
  else none

def stop? (cs : List Char) : Option StopClause := do
  let cs ← symbol? '\x7b' cs
  let (object, property, cs) ← target? (skipBlanks cs)
  let cs ← symbol? '=' (skipBlanks cs)
  let value ← stopValue? (skipBlanks cs)
  some ⟨object, property, value⟩

def create? (cs : List Char) : Option Command := do
  let cs ← keyword? "create".toList cs
  let cs ← blanks? cs
  let (kind, cs) ← name? cs
  let cs ← blanks? cs
  let (name, cs) ← name? cs
  whole? (.create kind name) cs

def propagate? (cs : List Char) : Option Command := do
  let cs ← keyword? "propagate".toList cs
  let cs ← blanks? cs
  let (propagator, cs) ← name? cs
  let cs ← symbol? '(' (skipBlanks cs)
  let (spacecraft, cs) ← name? (skipBlanks cs)
  let cs ← symbol? ')' (skipBlanks cs)
  if cs = [] then
    some (.propagate propagator spacecraft none)
  else
    (stop? (skipBlanks cs)).map fun stop => .propagate propagator spacecraft (some stop)

def set? (cs : List Char) : Option Command := do
  let (object, property, cs) ← target? cs
  let value ← assigned? cs
  some (.set object property value)

def report? (cs : List Char) : Option Command := do
  let cs ← keyword? "report".toList cs
  let tokens ← blanks? cs
  let last ← tokens.getLast?
  if Text.isBlank last then none
  else some (.report ((split tokens).map String.ofList))

def save? (cs : List Char) : Option Command := do
  let cs ← keyword? "save".toList cs
  let cs ← blanks? cs
  let (object, cs) ← name? cs
  whole? (.save object) cs

/-- The name that is assigned to: the one after the word `var`, if a name follows
that word, else the first one. -/
def variableName? (cs : List Char) : Option (String × List Char) :=
  ((keyword? "var".toList cs).bind blanks?).bind name? <|> name? cs

def assignment? (cs : List Char) : Option Command := do
  let (name, cs) ← variableName? cs
  let value ← assigned? cs
  some (.variable name value)

def read? (shape : Shape) (cs : List Char) : Option Command :=
  match shape with
  | .create => create? cs
  | .propagate => propagate? cs
  | .set => set? cs
  | .report => report? cs
  | .save => save? cs
  | .ifThen => (condition? "if" cs).map .ifThen
  | .otherwise => (keyword? "else".toList cs).bind (whole? .otherwise)
  | .endIf => (keyword? "endif".toList cs).bind (whole? .endIf)
  | .whileDo => (condition? "while" cs).map .whileDo
  | .endWhile => (keyword? "endwhile".toList cs).bind (whole? .endWhile)
  | .variable => assignment? cs

end Shape

/-- The command of a line: that of the first shape that fits. -/
def Command.read? (cs : List Char) : Option Command :=
  Shape.order.findSome? fun shape => shape.read? cs

end FlightScript
