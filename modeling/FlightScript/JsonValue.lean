import FlightScript.Decimal.Text

/-!
# Structured output

Trees of texts and numbers and their text in JSON. Every item and every member
stands on a line of its own, two spaces further in than what it belongs to; an empty
array or object is closed at once. Members keep their order. A number that is not
finite has no text of its own and is written as `null`.
-/

namespace FlightScript

inductive JsonValue where
  | null
  | bool (b : Bool)
  | natural (n : Nat)
  | number (x : Float)
  | string (s : String)
  | array (items : List JsonValue)
  | object (members : List (String × JsonValue))

namespace JsonValue

/-- A value under one name, which says of what kind it is. -/
def tagged (tag : String) (members : List (String × JsonValue)) : JsonValue :=
  .object [(tag, .object members)]

def hexDigit (n : Nat) : Char :=
  Nat.digitChar n

def escape (c : Char) : List Char :=
  if c = '"' then ['\\', '"']
  else if c = '\\' then ['\\', '\\']
  else if c = '\n' then ['\\', 'n']
  else if c = '\r' then ['\\', 'r']
  else if c = '\t' then ['\\', 't']
  else if c = '\x08' then ['\\', 'b']
  else if c = '\x0c' then ['\\', 'f']
  else if c.toNat < 0x20 then
    ['\\', 'u', '0', '0', hexDigit (c.toNat / 16), hexDigit (c.toNat % 16)]
  else [c]

def quote (s : String) : String :=
  String.ofList ('"' :: s.toList.flatMap escape ++ ['"'])

def numberText (x : Float) : String :=
  if x.isFinite then Double.scientific x else "null"

def newLine (depth : Nat) : String :=
  String.ofList ('\n' :: List.replicate (2 * depth) ' ')

/-- Some parts on lines of their own at a depth, between two marks. -/
def enclose (first last : String) (depth : Nat) (parts : List String) : String :=
  if parts.isEmpty then first ++ last
  else first ++ newLine (depth + 1) ++ (("," ++ newLine (depth + 1)).intercalate parts) ++
    newLine depth ++ last

mutual

def toText (depth : Nat) : JsonValue → String
  | .null => "null"
  | .bool b => if b then "true" else "false"
  | .natural n => toString n
  | .number x => numberText x
  | .string s => quote s
  | .array items => enclose "[" "]" depth (itemTexts (depth + 1) items)
  | .object members => enclose "\x7b" "\x7d" depth (memberTexts (depth + 1) members)

def itemTexts (depth : Nat) : List JsonValue → List String
  | [] => []
  | item :: rest => toText depth item :: itemTexts depth rest

def memberTexts (depth : Nat) : List (String × JsonValue) → List String
  | [] => []
  | (name, value) :: rest =>
    (quote name ++ ": " ++ toText depth value) :: memberTexts depth rest

end

example : quote "a\"\n\x01" = "\"a\\\"\\n\\u0001\"" := by decide
example : numberText 7000 = "7000.0" := by decide +kernel
example : (array []).toText 0 = "[]" := by decide
example : (array [.null, .natural 5]).toText 0 = "[\n  null,\n  5\n]" := by decide

end JsonValue

end FlightScript
