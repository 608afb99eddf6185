import FlightScript.Document.Line

/-!
# Places in a document

A `Cursor` is a place in a document: what is left of its line, how much of the line
stands before, and the lines below. A *gap* is what may stand between two parts of a
document: blanks, comments and line ends, and a byte order mark at the beginning of a
line. Tabs belong to it between brackets; elsewhere only those after a part that no
node can follow on a level of its own.
-/

namespace FlightScript

namespace Document

/-- A place in a document. -/
structure Cursor where
  /-- What is left of the line. -/
  line : Line
  /-- The number of characters of the line that stand before. -/
  column : Nat
  /-- The number of bytes of the line that stand before. -/
  offset : Nat
  /-- The lines below. -/
  below : List Line
  deriving DecidableEq

/-- What stands before a gap, as far as the gap depends on it. -/
inductive Setting where
  /-- A place between brackets. -/
  | bracketed
  /-- A place on a line where nothing begins that has lines of its own. -/
  | beside
  /-- A place where a node with lines of its own may begin. -/
  | fresh
  deriving DecidableEq, Repr

namespace Cursor

def rest (c : Cursor) : List Char :=
  c.line.text

def atLine (line : Line) (below : List Line) : Cursor :=
  ⟨line, 0, 0, below⟩

def ended : Cursor :=
  atLine ⟨0, [], none⟩ []

def start : List Line → Cursor
  | [] => ended
  | line :: below => atLine line below

/-- Nothing is left, if the place is not in a gap. -/
def atEnd (c : Cursor) : Bool :=
  c.rest.isEmpty

def advance (c : Cursor) (n : Nat) : Cursor :=
  { c with
    line := { c.line with text := c.rest.drop n }
    column := c.column + n
    offset := (c.rest.take n).foldl (fun bytes d => bytes + d.utf8Size) c.offset }

/-- The place where a given rest of the line begins. -/
def moveTo (c : Cursor) (rest : List Char) : Cursor :=
  c.advance (c.rest.length - rest.length)

def sameLine (c d : Cursor) : Bool :=
  c.line.number = d.line.number

/-- Nothing follows the first character that is left of the line directly. -/
def standsAlone (c : Cursor) : Bool :=
  isApart (c.rest.drop 1)

/-! ### Gaps -/

/-- Nothing is left of a line but a comment. -/
def isBlankLine : List Char → Bool
  | [] => true
  | c :: _ => c = '#'

def afterBlanks (tabs : Bool) (text : List Char) : List Char :=
  text.dropWhile fun c => c = ' ' || (tabs && c = '\t')

def skipBlanks (tabs : Bool) (c : Cursor) : Cursor :=
  let c := if c.column = 0 && c.rest.head? = some '\ufeff' then c.advance 1 else c
  c.advance (c.rest.takeWhile fun d => d = ' ' || (tabs && d = '\t')).length

def firstIn (tabs : Bool) : List Line → Cursor
  | [] => ended
  | line :: below =>
    let c := (atLine line below).skipBlanks tabs
    if isBlankLine c.rest then firstIn tabs below else c

/-- The first place from here on that is not in a gap. -/
def next (c : Cursor) (setting : Setting) : Cursor :=
  let d := c.skipBlanks (setting ≠ .fresh)
  if isBlankLine d.rest then firstIn (setting = .bracketed) c.below else d

end Cursor

end Document

end FlightScript
