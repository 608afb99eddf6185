import FlightScript.Document.Cursor

/-!
# Texts between quotes

Between single quotes two quotes stand for one, between double quotes a backslash
escapes what follows it. A text between quotes may go on over several lines; the
line ends are folded with the blanks around them, and a line end that is escaped is
left out.
-/

namespace FlightScript

namespace Document

/-- How a line of a text between quotes ends. -/
inductive QuoteEnd where
  /-- The closing quote was met, after a number of characters and itself. -/
  | closed (used : Nat)
  /-- The text goes on in the next line. -/
  | broken
  /-- The text goes on in the next line, and the line end was escaped. -/
  | joined
  deriving DecidableEq

def escaped? : Char → Option Char
  | '0' => some '\x00'
  | 'a' => some '\x07'
  | 'b' => some '\x08'
  | 't' => some '\t'
  | '\t' => some '\t'
  | 'n' => some '\n'
  | 'v' => some '\x0b'
  | 'f' => some '\x0c'
  | 'r' => some '\r'
  | 'e' => some '\x1b'
  | ' ' => some ' '
  | '"' => some '"'
  | '/' => some '/'
  | '\\' => some '\\'
  | 'N' => some '\u0085'
  | '_' => some '\u00a0'
  | 'L' => some '\u2028'
  | 'P' => some '\u2029'
  | _ => none

/-- The number of digits that name a character after a letter after a backslash. -/
def digitCount? : Char → Option Nat
  | 'x' => some 2
  | 'u' => some 4
  | 'U' => some 8
  | _ => none

/-- Where a reader is in a text between quotes. -/
inductive QuoteState where
  /-- Among the characters of the text. -/
  | inside
  /-- After a quote that closes the text unless a second one follows. -/
  | afterQuote
  | afterBackslash
  /-- Before a number of hexadecimal digits, after digits of a value. -/
  | beforeDigits (left value : Nat)
  deriving DecidableEq

def withChar (c : Char) (foldable : Bool) (r : Option (List (Char × Bool) × QuoteEnd)) :
    Option (List (Char × Bool) × QuoteEnd) :=
  r.map fun (text, ending) => ((c, foldable) :: text, ending)

/-- The part of a line that belongs to a text between quotes, and how it ends. A
character comes with whether it is a blank that may be folded; `used` characters were
read before. -/
def quotedSpan? (quote : Char) :
    (used : Nat) → QuoteState → List Char → Option (List (Char × Bool) × QuoteEnd)
  | _, .inside, [] => some ([], .broken)
  | used, .inside, c :: rest =>
    if c = quote then
      if quote = '\'' then quotedSpan? quote (used + 1) .afterQuote rest
      else some ([], .closed (used + 1))
    else if quote = '"' ∧ c = '\\' then quotedSpan? quote (used + 1) .afterBackslash rest
    else withChar c (Text.isBlank c) (quotedSpan? quote (used + 1) .inside rest)
  | used, .afterQuote, [] => some ([], .closed used)
  | used, .afterQuote, c :: rest =>
    if c = quote then withChar c false (quotedSpan? quote (used + 1) .inside rest)
    else some ([], .closed used)
  | _, .afterBackslash, [] => some ([], .joined)
  | used, .afterBackslash, c :: rest =>
    match escaped? c, digitCount? c with
    | some e, _ => withChar e false (quotedSpan? quote (used + 1) .inside rest)
    | none, some n => quotedSpan? quote (used + 1) (.beforeDigits n 0) rest
    | none, none => none
  | _, .beforeDigits _ _, [] => none
  | used, .beforeDigits left value, c :: rest =>
    match hexValue? c with
    | none => none
    | some v =>
      let value := 16 * value + v
      if 1 < left then quotedSpan? quote (used + 1) (.beforeDigits (left - 1) value) rest
      else if value.isValidChar then
        withChar (Char.ofNat value) false (quotedSpan? quote (used + 1) .inside rest)
      else none

def foldable (text : List (Char × Bool)) : List Char :=
  (Text.dropTrailing Prod.snd text).map Prod.fst

/-- The further lines of a text between quotes, after some line ends. `joined` means
that the line end before those was escaped. -/
def quotedLines? (quote : Char) (joined : Bool) :
    (ends : List Char) → List Line → Option (List Char × Cursor)
  | _, [] => none
  | ends, line :: below =>
    let blanks := (line.text.takeWhile Text.isBlank).length
    let start := line.text.drop blanks
    let before := if joined then ends else folded ends
    let ending := line.ending.toList
    if line.isBoundary then none
    else
      match quotedSpan? quote blanks .inside start with
      | none => none
      | some (text, .closed used) =>
        some (before ++ text.map Prod.fst, (Cursor.atLine line below).advance used)
      | some (text, .broken) =>
        if start.isEmpty then quotedLines? quote joined (ends ++ ending) below
        else (quotedLines? quote false ending below).map fun (more, last) =>
          (before ++ foldable text ++ more, last)
      | some (text, .joined) =>
        (quotedLines? quote true [] below).map fun (more, last) =>
          (before ++ text.map Prod.fst ++ more, last)

/-- A text between quotes; the place is after the opening quote. -/
def quoted? (quote : Char) (c : Cursor) : Option (List Char × Cursor) :=
  match quotedSpan? quote 0 .inside c.rest with
  | none => none
  | some (text, .closed used) => some (text.map Prod.fst, c.advance used)
  | some (text, .broken) =>
    (quotedLines? quote false c.line.ending.toList c.below).map fun (more, last) =>
      (foldable text ++ more, last)
  | some (text, .joined) =>
    (quotedLines? quote true [] c.below).map fun (more, last) => (text.map Prod.fst ++ more, last)

end Document

end FlightScript
