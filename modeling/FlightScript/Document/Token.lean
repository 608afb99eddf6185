import FlightScript.Document.Tag

/-!
# Tokens

The tokens of a document are its texts and marks. Where levels of lines begin and end,
and which texts are keys, is not written but follows from the columns and the colons;
there are tokens for that too.
-/

namespace FlightScript

namespace Document

inductive Form where
  | plain
  | quoted
  /-- A block of lines that is taken as it is. -/
  | literal
  /-- A block of lines that is folded. -/
  | folded
  deriving DecidableEq, Repr

inductive Token where
  /-- A directive with the version of the notation. -/
  | version (major minor : Nat)
  /-- A directive with a handle and what it stands for. -/
  | handle (name start : String)
  | documentStart
  | documentEnd
  /-- The lines of a sequence begin. -/
  | lineSequence
  /-- The lines of a mapping begin. -/
  | lineMapping
  /-- The lines of a sequence or a mapping end. -/
  | linesEnd
  /-- An opening bracket. -/
  | sequenceStart
  | sequenceEnd
  /-- An opening brace. -/
  | mappingStart
  | mappingEnd
  /-- A comma between brackets. -/
  | separator
  /-- A hyphen before an item. -/
  | item
  /-- A key follows. -/
  | key
  /-- A value follows. -/
  | value
  | alias (name : String)
  | anchor (name : String)
  | tag (t : WrittenTag)
  | text (form : Form) (text : String)
  deriving DecidableEq, Repr

end Document

end FlightScript
