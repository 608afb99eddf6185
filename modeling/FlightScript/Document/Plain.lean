import FlightScript.Document.Cursor

/-!
# Plain texts

A plain text stands without quotes. It ends before a colon that nothing follows
directly and before a comment, between brackets also before their marks. It goes on
in the lines below as long as they are indented enough; the line ends are folded.
-/

namespace FlightScript

namespace Document

def isFlowMark (c : Char) : Bool :=
  c = ',' || c = '[' || c = ']' || c = '{' || c = '}'

/-- The characters with which no plain text begins. -/
def indicators : List Char :=
  ['-', '?', ':', ',', '[', ']', '{', '}', '#', '&', '*', '!', '|', '>', '\'', '"', '%', '@',
    Char.ofNat 0x60]

def startsPlain (bracketed : Bool) : List Char → Bool
  | [] => false
  | c :: rest =>
    (c ∉ indicators && !Text.isBlank c) || (c = '-' && !isApart rest) ||
      (!bracketed && (c = '?' || c = ':') && !isApart rest)

/-- The part of a line that belongs to a plain text, with the blanks at its end. -/
def plainSpan (bracketed : Bool) : List Char → List Char
  | [] => []
  | c :: rest =>
    if c = ':' && isApart rest then []
    else if bracketed && isFlowMark c then []
    else if Text.isBlank c && rest.head? = some '#' then []
    else c :: plainSpan bracketed rest

def plainPart (bracketed : Bool) (line : List Char) : List Char :=
  Text.dropTrailing Text.isBlank (plainSpan bracketed line)

/-- The further lines of a plain text, after some line ends. Their first character has
a least column, and no tab stands before that column. `here` is the place after the
lines so far; the blanks at the beginning of the line where the text ends count as
spaces. -/
def plainLines (bracketed : Bool) (least : Nat) (here : Cursor) :
    (ends : List Char) → List Line → Option (List Char × Cursor)
  | _, [] => some ([], { here with below := [] })
  | ends, line :: below =>
    let blanks := line.text.takeWhile Text.isBlank
    let rest := line.text.drop blanks.length
    let column := blanks.length
    let part := plainPart bracketed rest
    let isOutside := !bracketed && column < least
    if '\t' ∈ blanks.take least then none
    else if rest.isEmpty then plainLines bracketed least here (ends ++ line.ending.toList) below
    else if part.isEmpty || rest.head? = some '#' || isOutside || line.isBoundary then
      some ([], { here with
        below := { line with text := List.replicate column ' ' ++ rest } :: below })
    else
      let here := (Cursor.atLine line below).advance (column + part.length)
      let more? :=
        if here.rest.all Text.isBlank then plainLines bracketed least here line.ending.toList below
        else some ([], here)
      more?.map fun (more, last) => (folded ends ++ part ++ more, last)

/-- A colon of a text stands directly before a question mark, or at its end before a
mark, where `rest` follows the text. -/
def hasStrayColon (rest : List Char) : List Char → Bool
  | [] => false
  | [':'] => rest.head?.any isFlowMark
  | ':' :: '?' :: _ => true
  | _ :: text => hasStrayColon rest text

/-- A plain text. Between brackets none of its colons stands directly before a mark or
a question mark. -/
def plain? (bracketed : Bool) (least : Nat) (c : Cursor) : Option (List Char × Cursor) :=
  let part := plainPart bracketed c.rest
  let here := c.advance part.length
  let more? :=
    if here.rest.all Text.isBlank then
      plainLines bracketed least here c.line.ending.toList c.below
    else some ([], here)
  more?.bind fun (more, last) =>
    let text := part ++ more
    if bracketed && hasStrayColon last.rest text then none else some (text, last)

end Document

end FlightScript
