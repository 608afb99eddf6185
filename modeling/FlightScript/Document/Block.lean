import FlightScript.Document.Cursor

/-!
# Blocks of lines

A block of lines stands below a header. It is folded or taken as it is, and its
header says what becomes of the line ends at its end. Its lines are indented by what
the header says, or as its first line is.
-/

namespace FlightScript

namespace Document

inductive Chomp where
  /-- The first one is kept. -/
  | clip
  | strip
  | keep
  deriving DecidableEq

/-- The header of a block: what becomes of the line ends at its end, and by how many
columns it is indented, if that is said. -/
structure BlockHeader where
  chomp : Option Chomp
  indent : Option Nat
  deriving DecidableEq

def blockHeader? (header : BlockHeader) : List Char → Option BlockHeader
  | [] => some header
  | c :: rest =>
    if Text.isBlank c ∨ c = '#' then
      if Cursor.isBlankLine (Cursor.afterBlanks true (c :: rest)) then some header else none
    else if header.chomp = none ∧ c = '-' then
      blockHeader? { header with chomp := some .strip } rest
    else if header.chomp = none ∧ c = '+' then
      blockHeader? { header with chomp := some .keep } rest
    else if header.indent = none ∧ c.isDigit ∧ c ≠ '0' then
      blockHeader? { header with indent := some (c.toNat - '0'.toNat) } rest
    else none

/-- The column of a block, found from its first line that is not empty, but at least
a given one. A tab may not stand there. -/
def blockIndent? (least : Nat) : List Line → Option Nat
  | [] => some (max least 1)
  | line :: below =>
    let spaces := (line.text.takeWhile (· = ' ')).length
    match line.text.drop spaces with
    | [] => blockIndent? (max least spaces) below
    | c :: _ => if c = '\t' then none else some (max (max least spaces) 1)

/-- The lines of a block at a column, without what stands before it, and the lines
after it. -/
def blockLines (indent : Nat) : List Line → List Line × List Line
  | [] => ([], [])
  | line :: below =>
    if (line.text.take indent).all (· = ' ') then
      let (lines, after) := blockLines indent below
      ({ line with text := line.text.drop indent } :: lines, after)
    else ([], line :: below)

/-- The text of a block from one of its lines on. Before that stand a line end, unless
this is the first line with a text, and the ends of empty lines; `indented` is whether
the last line with a text began with a blank. -/
def blockText (isFolded : Bool) (chomp : Chomp) (ending : Option Char) (empty : List Char)
    (indented : Bool) : List Line → List Char
  | [] =>
    match chomp with
    | .strip => []
    | .clip => ending.toList
    | .keep => ending.toList ++ empty
  | line :: rest =>
    match line.text with
    | [] => blockText isFolded chomp ending (empty ++ line.ending.toList) indented rest
    | c :: _ =>
      let blank := Text.isBlank c
      let before :=
        if isFolded && ending = some '\n' && !indented && !blank then
          folded ('\n' :: empty)
        else ending.toList ++ empty
      before ++ line.text ++ blockText isFolded chomp line.ending [] blank rest

/-- A block of lines with a least column, and the beginning of the line after it; the
place is after the mark that begins its header. -/
def block? (isFolded : Bool) (least : Nat) (c : Cursor) : Option (List Char × Cursor) := do
  let header ← blockHeader? ⟨none, none⟩ c.rest
  let indent ← match header.indent with
    | some n => some (least - 1 + n)
    | none => blockIndent? least c.below
  let (lines, after) := blockLines indent c.below
  some (blockText isFolded (header.chomp.getD .clip) none [] false lines, Cursor.start after)

end Document

end FlightScript
