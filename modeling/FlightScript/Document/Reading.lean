import FlightScript.Document.Block
import FlightScript.Document.Directive
import FlightScript.Document.Plain
import FlightScript.Document.Quoted

/-!
# The tokens of a document

A text is read from its beginning to its end, token by token. A `Reading` is how far
this has come: the place, the levels of lines that are open, the open brackets, and
the last token that may still turn out to begin a key. A level of lines begins with an
item or a key further to the right than the level around it, and it ends with the
first token further to the left.

A token begins a key if a colon follows on the same line and within a distance in
bytes. Outside brackets a token that stands where a key of the level must stand has to
begin one.
-/

namespace FlightScript

namespace Document

structure Candidate where
  /-- It must begin a key. -/
  isRequired : Bool
  /-- The number of tokens before it. -/
  position : Nat
  place : Cursor
  deriving DecidableEq

/-- The largest distance in bytes of a colon from the beginning of the key before
it. -/
def keyDistance : Nat := 1024

/-- A colon at a place makes a key of the candidate. -/
def Candidate.reaches (k : Candidate) (colon : Cursor) : Bool :=
  k.place.sameLine colon && colon.offset ≤ k.place.offset + keyDistance

structure Reading where
  place : Cursor
  /-- The tokens so far, the last one first. -/
  tokens : List Token
  /-- Their number. -/
  count : Nat
  /-- The columns of the open levels of lines, the inmost one first. -/
  columns : List Nat
  /-- A key or an item of a level of lines may stand here; between brackets, a key. -/
  isFresh : Bool
  /-- The last token that may begin a key. -/
  candidate : Option Candidate
  /-- The candidates around the open brackets, the inmost one first. -/
  outer : List (Option Candidate)
  deriving DecidableEq

namespace Reading

def start (lines : List Line) : Reading :=
  ⟨Cursor.start lines, [], 0, [], true, none, []⟩

def isBracketed (s : Reading) : Bool :=
  !s.outer.isEmpty

/-- The least column of what stands further to the right than the level of lines. -/
def least (s : Reading) : Nat :=
  match s.columns with
  | [] => 0
  | column :: _ => column + 1

def emit (s : Reading) (t : Token) : Reading :=
  { s with tokens := t :: s.tokens, count := s.count + 1 }

/-- Puts tokens, the last one first, after a number of tokens. -/
def insertAt (s : Reading) (position : Nat) (ts : List Token) : Reading :=
  let (later, earlier) := s.tokens.splitAt (s.count - position)
  { s with tokens := later ++ ts ++ earlier, count := s.count + ts.length }

/-! ### Levels of lines -/

/-- Ends the inmost levels of lines, as long as a condition holds of their columns. -/
def closeLevels (s : Reading) (isClosed : Nat → Bool) : Reading :=
  let closed := s.columns.takeWhile isClosed
  { s with
    tokens := List.replicate closed.length .linesEnd ++ s.tokens
    count := s.count + closed.length
    columns := s.columns.drop closed.length }

/-- Opens a level of lines at a column outside brackets, unless there is one as far to
the right; says whether it did. -/
def openLevel (s : Reading) (column : Nat) : Reading × Bool :=
  if s.least ≤ column && !s.isBracketed then ({ s with columns := column :: s.columns }, true)
  else (s, false)

/-! ### Candidates -/

/-- Without a candidate; a token that must begin a key is not given up. -/
def drop? (s : Reading) : Option Reading :=
  if s.candidate.any Candidate.isRequired then none else some { s with candidate := none }

/-- The next token may begin a key, if keys may stand here. -/
def mark? (s : Reading) : Option Reading :=
  if s.isFresh then
    let isRequired := !s.isBracketed && s.columns.head? = some s.place.column
    s.drop?.map fun s => { s with candidate := some ⟨isRequired, s.count, s.place⟩ }
  else some s

/-- A token that may begin a key, after which the reading goes on at a place. -/
def textual (s : Reading) (r : Option (Token × Cursor)) : Option Reading := do
  let s ← s.mark?
  let (t, place) ← r
  some ({ s with place := place, isFresh := false }.emit t)

/-! ### Marks -/

def openBracket? (s : Reading) (t : Token) : Option Reading := do
  let s ← s.mark?
  some ({ s with
    place := s.place.advance 1
    isFresh := true
    candidate := none
    outer := s.candidate :: s.outer }.emit t)

def closeBracket? (s : Reading) (t : Token) : Option Reading := do
  let s ← s.drop?
  let s := match s.outer with
    | [] => s
    | candidate :: outer => { s with candidate := candidate, outer := outer }
  some ({ s with place := s.place.advance 1, isFresh := false }.emit t)

def separator? (s : Reading) : Option Reading := do
  let s ← s.drop?
  some ({ s with place := s.place.advance 1, isFresh := true }.emit .separator)

/-- A mark that begins a line of a level, which the mark may open. -/
def leading? (s : Reading) (opening t : Token) (isFresh : Bool) : Option Reading :=
  if !s.isBracketed && !s.isFresh then none
  else
    let (s, isOpened) := s.openLevel s.place.column
    let s := if isOpened then s.emit opening else s
    s.drop?.map fun s => { s with place := s.place.advance 1, isFresh := isFresh }.emit t

/-- A colon after a candidate, which it makes a key. -/
def colonAfter (s : Reading) (k : Candidate) : Reading :=
  let (s, isOpened) := s.openLevel k.place.column
  let s := s.insertAt k.position (if isOpened then [.key, .lineMapping] else [.key])
  { s with place := s.place.advance 1, isFresh := false, candidate := none }.emit .value

/-- A colon that makes no candidate a key. -/
def loneColon? (s : Reading) : Option Reading :=
  if !s.isBracketed && !s.isFresh then none
  else
    let (s, isOpened) := s.openLevel s.place.column
    let s := if isOpened then s.emit .lineMapping else s
    some ({ s with place := s.place.advance 1, isFresh := !s.isBracketed }.emit .value)

def colon? (s : Reading) : Option Reading :=
  match s.candidate with
  | none => s.loneColon?
  | some k =>
    if k.reaches s.place then some (s.colonAfter k) else s.drop?.bind loneColon?

/-- A line that opens or closes a document, or a directive; all levels of lines end
before it. -/
def outermost? (s : Reading) (t : Token) (place : Cursor) : Option Reading := do
  let s := if s.isBracketed then s else s.closeLevels fun _ => true
  let s ← s.drop?
  some ({ s with place := place, isFresh := false }.emit t)

def block? (s : Reading) (form : Form) : Option Reading := do
  let s ← s.drop?
  let (text, place) ← Document.block? (form = .folded) s.least (s.place.advance 1)
  some ({ s with place := place, isFresh := true }.emit (.text form (String.ofList text)))

/-! ### Tokens with texts -/

def name? (c : Cursor) : Option (String × Cursor) :=
  let name := c.rest.takeWhile isNameChar
  let after := c.rest.drop name.length
  let ends := isApart after ||
    after.head?.any (· ∈ ['?', ':', ',', ']', '}', '%', '@', Char.ofNat 0x60])
  if !name.isEmpty && ends then some (String.ofList name, c.advance name.length) else none

/-- The alias, anchor, tag or text that stands at the place, and the place after it. -/
def textToken? (s : Reading) (c : Char) : Option (Token × Cursor) :=
  let after := s.place.advance 1
  if c = '*' then (name? after).map fun (name, place) => (.alias name, place)
  else if c = '&' then (name? after).map fun (name, place) => (.anchor name, place)
  else if c = '!' then (tag? s.isBracketed s.place).map fun (t, place) => (.tag t, place)
  else if c = '\'' ∨ c = '"' then
    (quoted? c after).map fun (text, place) => (.text .quoted (String.ofList text), place)
  else if startsPlain s.isBracketed s.place.rest then
    (plain? s.isBracketed s.least s.place).map fun (text, place) =>
      (.text .plain (String.ofList text), place)
  else none

/-! ### The whole text -/

/-- The next place that is not in a gap, after the levels of lines have ended that it
ends. -/
def approach (s : Reading) : Reading :=
  let setting := if s.isBracketed then .bracketed else if s.isFresh then .fresh else .beside
  let place := s.place.next setting
  if s.isBracketed then { s with place := place }
  else
    { s with
      place := place
      isFresh := s.isFresh || !place.sameLine s.place }.closeLevels (place.column < ·)

def boundary? (c : Cursor) : Option (Option (Token × Cursor)) :=
  if c.column ≠ 0 then none
  else if c.rest.head? = some '%' then
    some ((directive? (c.rest.drop 1)).map fun t => (t, Cursor.start c.below))
  else if (c.line.afterBoundary? '-').isSome then some (some (.documentStart, c.advance 3))
  else if (c.line.afterBoundary? '.').isSome then some (some (.documentEnd, c.advance 3))
  else none

/-- Reads the token at the place, which is not in a gap and begins with a character. -/
def token? (s : Reading) (c : Char) : Option Reading :=
  let marks := s.isBracketed || s.place.standsAlone
  match boundary? s.place with
  | some r => r.bind fun (t, place) => s.outermost? t place
  | none =>
    if c = '[' then s.openBracket? .sequenceStart
    else if c = '{' then s.openBracket? .mappingStart
    else if c = ']' then s.closeBracket? .sequenceEnd
    else if c = '}' then s.closeBracket? .mappingEnd
    else if c = ',' then s.separator?
    else if c = '-' ∧ s.place.standsAlone then s.leading? .lineSequence .item true
    else if c = '?' ∧ marks then s.leading? .lineMapping .key (!s.isBracketed)
    else if c = ':' ∧ marks then s.colon?
    else if c = '|' ∧ !s.isBracketed then s.block? .literal
    else if c = '>' ∧ !s.isBracketed then s.block? .folded
    else s.textual (s.textToken? c)

/-- Reads the text to its end. Every token uses up a character, so that one more unit
of fuel than the number of characters is enough. -/
def run? : (fuel : Nat) → Reading → Option (List Token)
  | 0, _ => none
  | fuel + 1, s =>
    let s := s.approach
    match s.place.rest with
    | [] =>
      let s := if s.isBracketed then s else s.closeLevels fun _ => true
      s.drop?.map fun s => s.tokens.reverse
    | c :: _ => (s.token? c).bind (run? fuel)

end Reading

def tokens? (lines : List Line) : Option (List Token) :=
  let size := lines.foldl (fun n line => n + line.text.length + 1) 0
  (Reading.start lines).run? (size + 1)

end Document

end FlightScript
