import FlightScript.Text.Space

/-!
# Characters and lines of a document

A document is read line by line. A line knows its number and how it ends, because a
text that goes on over several lines keeps some line ends: every line end is a line
feed, apart from the separators of lines and paragraphs, which stay what they are. A
line that begins with three hyphens opens a document, one that begins with three
points closes it.
-/

namespace FlightScript

namespace Document

/-! ### Characters -/

/-- The characters that may stand in a document. -/
def isPrintable (c : Char) : Bool :=
  let n := c.toNat
  n = 9 || n = 10 || n = 13 || (0x20 ≤ n && n ≤ 0x7E) || n = 0x85 ||
    (0xA0 ≤ n && n ≤ 0xFFFD) || 0x10000 ≤ n

/-- There is no character, or it is a blank. -/
def isApart : List Char → Bool
  | [] => true
  | c :: _ => Text.isBlank c

def hexValue? (c : Char) : Option Nat :=
  if c.isDigit then some (c.toNat - '0'.toNat)
  else if 'a' ≤ c ∧ c ≤ 'f' then some (c.toNat - 'a'.toNat + 10)
  else if 'A' ≤ c ∧ c ≤ 'F' then some (c.toNat - 'A'.toNat + 10)
  else none

/-- The characters of names: of anchors, of handles and of directives. -/
def isNameChar (c : Char) : Bool :=
  c.isAlphanum || c = '_' || c = '-'

/-! ### Lines -/

structure Line where
  /-- The lines of a document are numbered from one. -/
  number : Nat
  text : List Char
  /-- The line end; the last line has none. -/
  ending : Option Char
  deriving DecidableEq

/-- What a character that ends a line is as a line end. -/
def lineEnd? (c : Char) : Option Char :=
  if c = '\n' ∨ c = '\r' ∨ c = '\u0085' then some '\n'
  else if c = '\u2028' ∨ c = '\u2029' then some c
  else none

/-- The lines of a text, numbered from a given number on. A carriage return and a
line feed after it are one line end. -/
def Line.ofChars (number : Nat) : List Char → List Line
  | [] => [⟨number, [], none⟩]
  | '\r' :: '\n' :: rest => ⟨number, [], some '\n'⟩ :: ofChars (number + 1) rest
  | c :: rest =>
    match lineEnd? c with
    | some ending => ⟨number, [], some ending⟩ :: ofChars (number + 1) rest
    | none =>
      match ofChars number rest with
      | [] => [⟨number, [c], none⟩]
      | line :: below => { line with text := c :: line.text } :: below

/-- What stands after three given characters at the beginning of a line, if nothing
follows them directly. -/
def Line.afterBoundary? (mark : Char) (line : Line) : Option (List Char) :=
  match line.text with
  | a :: b :: c :: rest =>
    if a = mark ∧ b = mark ∧ c = mark ∧ isApart rest then some rest else none
  | _ => none

/-- The line opens or closes a document. -/
def Line.isBoundary (line : Line) : Bool :=
  (line.afterBoundary? '-').isSome || (line.afterBoundary? '.').isSome

/-- What a line end and the ends of the empty lines after it become in a text that
goes on: one line feed is a space, and of several the first one is left out. -/
def folded : List Char → List Char
  | [] => []
  | first :: more =>
    if first = '\n' then (if more.isEmpty then [' '] else more) else first :: more

end Document

end FlightScript
