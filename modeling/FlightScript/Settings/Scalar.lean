import FlightScript.Decimal.Reader
import FlightScript.Document

/-!
# Values in a settings document

What a node of a settings document denotes where a text, a whole number or a number
is expected. Every text of a document will do for a text. A number is a plain text or
a block of lines with the tag of its type: a whole number is decimal without leading
zeros, or has the mark of another base, and a number that is not finite is written
with a point before its name.
-/

namespace FlightScript

namespace Document

/-- The value of a row of digits of a base, if it lies below `2 ^ 64`. -/
def digits? (base : Nat) (cs : List Char) : Option Nat :=
  let n := (cs.mapM hexValue?).bind fun values =>
    if values.all (· < base) then some (values.foldl (fun n v => base * n + v) 0) else none
  if cs.isEmpty then none else n.bind fun n => if n < twoPow 64 then some n else none

def dropPlus : List Char → List Char
  | '+' :: rest => rest
  | cs => cs

def whole (cs : List Char) : Option Nat :=
  match dropPlus cs with
  | '0' :: 'x' :: rest => digits? 16 rest
  | '0' :: 'o' :: rest => digits? 8 rest
  | '0' :: 'b' :: rest => digits? 2 rest
  | '0' :: d :: rest => if (d :: rest).all Char.isDigit then none else digits? 10 ('0' :: d :: rest)
  | rest => digits? 10 rest

def number (cs : List Char) : Option Float :=
  let unsigned := dropPlus cs
  let infinities := [".inf".toList, ".Inf".toList, ".INF".toList]
  if unsigned ∈ infinities then some Double.infinity
  else if cs.head? = some '-' ∧ cs.drop 1 ∈ infinities then some (-Double.infinity)
  else if cs ∈ [".nan".toList, ".NaN".toList, ".NAN".toList] then some Double.nan
  else if cs.head? = some '+' ∧ unsigned.head?.any (fun c => c = '+' || c = '-') then none
  else (Double.read? unsigned).filter Float.isFinite

/-- The plain texts that stand for nothing. -/
def absentTexts : List String :=
  ["", "~", "null", "Null", "NULL"]

/-- A number is written plain, or as a block of lines that is taken as it is and has
the tag of the number's type. -/
def isNumeric (type : String) (p : Properties Nat) (form : Form) : Bool :=
  form = .plain || (form = .literal && p.tag = some (Tag.ofType type))

namespace Node

def text? : Node Nat → Option String
  | .scalar _ _ text => some text
  | _ => none

/-- The text that a node is, or nothing. Nothing is what a plain text without a tag may
stand for; with the tag of nothing it must do so, and not by being left out. -/
def optionalText? : Node Nat → Option (Option String)
  | .scalar p .plain text =>
    match p.tag with
    | none => some (if text ∈ absentTexts then none else some text)
    | some tag =>
      if tag ≠ Tag.ofType "null" then some (some text)
      else if text ≠ "" ∧ text ∈ absentTexts then some none
      else none
  | .scalar _ _ text => some (some text)
  | _ => none

def whole? : Node Nat → Option Nat
  | .scalar p form text => if isNumeric "int" p form then Document.whole text.toList else none
  | _ => none

def number? : Node Nat → Option Float
  | .scalar p form text => if isNumeric "float" p form then Document.number text.toList else none
  | _ => none

end Node

/-- The entries of a document that is a mapping with texts as keys; a document without
contents has none. -/
def fields? (d : Document) : Option (List (String × Node Nat)) :=
  match d.root with
  | .mapping _ entries =>
    entries.mapM fun e => (d.target e.1).text?.map fun key => (key, d.target e.2)
  | .scalar _ .plain "" => some []
  | _ => none

end Document

end FlightScript
