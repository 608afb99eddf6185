import FlightScript.Calendar.Instant
import FlightScript.Decimal.Reader
import FlightScript.Text.Space

/-!
# Writing and reading instants

An instant is written as day, month, year and time of day with milliseconds,
`01 Jan 2000 11:59:28.000`; what is below a millisecond is cut off, and a leap
second is second 60. Years are written with at least four digits, years before
zero and beyond 9999 with a sign.

Five layouts are read. The first, `2000-01-01T11:59:28.000+01:00`, has a fixed
number of digits in each place and a distance from universal time. The other
four are the written one, `2000-01-01 11:59:28.000`, `2000-01-01T11:59:28.000` and
`2000-01-01`, which is midnight. In these white space may stand before every
number, a place of two digits may have one, and a year may have any number of
digits after a sign. Fractions are optional in all layouts and may have any number
of digits, of which nine count.
-/

namespace FlightScript

structure CivilTime where
  date : Date
  hour : Nat
  minute : Nat
  /-- Second 60 is a leap second. -/
  second : Nat
  nanos : Nat
  deriving DecidableEq, Repr

namespace CivilTime

/-- The places hold what the calendar and the clock have. -/
def Exists (c : CivilTime) : Prop :=
  c.date.Exists ∧ c.hour ≤ 23 ∧ c.minute ≤ 59 ∧ c.second ≤ 60

instance (c : CivilTime) : Decidable c.Exists :=
  inferInstanceAs (Decidable (_ ∧ _))

/-- The instant at which a clock shows a time that is `offset` seconds ahead of
universal time. A leap second counts as the second before it. -/
def toInstant? (c : CivilTime) (offset : Int) : Option Instant :=
  if c.Exists then
    let second := min c.second 59
    let time : Nat := c.hour * 3600 + c.minute * 60 + second
    let seconds := c.date.toDays * Instant.secondsPerDay + time
    Instant.ofParts? (seconds - offset)
      (c.nanos + if c.second = 60 then Instant.nanosPerSecond else 0)
  else none

/-- The time that a clock of universal time shows at an instant. -/
def ofInstant (i : Instant) : CivilTime :=
  let time := (i.seconds % Instant.secondsPerDay).toNat
  { date := Date.ofDays (i.seconds / Instant.secondsPerDay)
    hour := time / 3600
    minute := time / 60 % 60
    second := time % 60 + i.nanos / Instant.nanosPerSecond
    nanos := i.nanos % Instant.nanosPerSecond }

end CivilTime

namespace Instant

def monthNames : List String :=
  ["Jan", "Feb", "Mar", "Apr", "May", "Jun", "Jul", "Aug", "Sep", "Oct", "Nov", "Dec"]

/-- The digits of a whole number, filled up with zeros to a given width. -/
def padded (width n : Nat) : String :=
  let digits := Nat.toDigits 10 n
  String.ofList (List.replicate (width - digits.length) '0' ++ digits)

/-- A year with four digits or more, signed where four digits do not reach. -/
def yearText (year : Int) : String :=
  if year < 0 then "-" ++ padded 4 year.natAbs
  else if 9999 < year then "+" ++ padded 4 year.natAbs
  else padded 4 year.natAbs

/-- The layout in which instants are written, in the notation for such layouts:
day, month, year, and time of day with three places. -/
def layout : String :=
  "%d %b %Y %H:%M:%S%.3f"

def civilText (c : CivilTime) : String :=
  padded 2 c.date.day ++ " " ++ monthNames.getD (c.date.month - 1) "" ++ " " ++
    yearText c.date.year ++ " " ++ padded 2 c.hour ++ ":" ++ padded 2 c.minute ++ ":" ++
    padded 2 c.second ++ "." ++ padded 3 (c.nanos / 1000000)

def toText (i : Instant) : String :=
  civilText (CivilTime.ofInstant i)

/-! ### Places of a layout -/

def mark? (m : Char) : List Char → Option (List Char)
  | [] => none
  | c :: rest => if c = m then some rest else none

def exactly? (n : Nat) (cs : List Char) : Option (Nat × List Char) :=
  let digits := cs.take n
  if digits.length = n ∧ digits.all Char.isDigit then
    some (Decimal.natOfDigits digits, cs.drop n)
  else none

/-- At least one digit, and as many as there are up to `n`. -/
def upTo? (n : Nat) (cs : List Char) : Option (Nat × List Char) :=
  let digits := (cs.take n).takeWhile Char.isDigit
  if digits = [] then none
  else some (Decimal.natOfDigits digits, cs.drop digits.length)

/-- One or two digits after any white space. -/
def place? (cs : List Char) : Option (Nat × List Char) :=
  upTo? 2 (Text.trimStartChars cs)

/-- A year after any white space: up to four digits, or any number of digits after
a sign. -/
def year? (cs : List Char) : Option (Int × List Char) :=
  match Text.trimStartChars cs with
  | '-' :: rest => (upTo? rest.length rest).map fun (n, rest) => (-(n : Int), rest)
  | '+' :: rest => (upTo? rest.length rest).map fun (n, rest) => ((n : Int), rest)
  | rest => (upTo? 4 rest).map fun (n, rest) => ((n : Int), rest)

def month? (cs : List Char) : Option (Nat × List Char) :=
  let name := Text.foldChars (cs.take 3)
  (monthNames.findIdx? fun m => Text.foldChars m.toList = name).map fun k => (k + 1, cs.drop 3)

/-- The nanoseconds that the digits after a point stand for. -/
def nanosOfDigits (digits : List Char) : Nat :=
  let nine := digits.take 9
  Decimal.natOfDigits nine * tenPow (9 - nine.length)

/-- An optional fraction: a point and at least one digit. -/
def fraction? (cs : List Char) : Option (Nat × List Char) :=
  match cs with
  | '.' :: rest =>
    let digits := rest.takeWhile Char.isDigit
    if digits = [] then none else some (nanosOfDigits digits, rest.dropWhile Char.isDigit)
  | _ => some (0, cs)

/-- A time of day with an optional fraction, up to the end of the text. -/
def timeOfDay? (date : Date) (cs : List Char) : Option CivilTime := do
  let (hour, cs) ← place? cs
  let cs ← mark? ':' cs
  let (minute, cs) ← place? cs
  let cs ← mark? ':' cs
  let (second, cs) ← place? cs
  let (nanos, cs) ← fraction? cs
  if cs = [] then some ⟨date, hour, minute, second, nanos⟩ else none

def dashedDate? (cs : List Char) : Option (Date × List Char) := do
  let (year, cs) ← year? cs
  let cs ← mark? '-' cs
  let (month, cs) ← place? cs
  let cs ← mark? '-' cs
  let (day, cs) ← place? cs
  some (⟨year, month, day⟩, cs)

/-- The distance from universal time in seconds, up to the end of the text: `Z`, or
a sign with hours and minutes. -/
def offset? : List Char → Option Int
  | [] => none
  | c :: rest =>
    if c = 'Z' ∨ c = 'z' then
      if rest = [] then some 0 else none
    else if c = '+' ∨ c = '-' ∨ c = '\u2212' then do
      let (hours, rest) ← exactly? 2 rest
      let rest ← mark? ':' rest
      let (minutes, rest) ← exactly? 2 rest
      if rest = [] ∧ hours ≤ 23 ∧ minutes ≤ 59 then
        let seconds : Int := (hours * 3600 + minutes * 60 : Nat)
        some (if c = '+' then seconds else -seconds)
      else none
    else none

/-! ### Layouts -/

/-- The layout with fixed places and a distance from universal time. -/
def readFixed? (cs : List Char) : Option Instant := do
  let (year, cs) ← exactly? 4 cs
  let cs ← mark? '-' cs
  let (month, cs) ← exactly? 2 cs
  let cs ← mark? '-' cs
  let (day, cs) ← exactly? 2 cs
  let cs ← mark? 'T' cs <|> mark? 't' cs <|> mark? ' ' cs
  let (hour, cs) ← exactly? 2 cs
  let cs ← mark? ':' cs
  let (minute, cs) ← exactly? 2 cs
  let cs ← mark? ':' cs
  let (second, cs) ← exactly? 2 cs
  let (nanos, cs) ← fraction? cs
  let offset ← offset? cs
  CivilTime.toInstant? ⟨⟨year, month, day⟩, hour, minute, second, nanos⟩ offset

def readWritten? (cs : List Char) : Option CivilTime := do
  let (day, cs) ← place? cs
  let (month, cs) ← month? (Text.trimStartChars cs)
  let (year, cs) ← year? cs
  timeOfDay? ⟨year, month, day⟩ cs

def readSpaced? (cs : List Char) : Option CivilTime := do
  let (date, cs) ← dashedDate? cs
  timeOfDay? date cs

def readLettered? (cs : List Char) : Option CivilTime := do
  let (date, cs) ← dashedDate? cs
  let cs ← mark? 'T' cs
  timeOfDay? date cs

/-- A date alone, which is its midnight. -/
def readDate? (cs : List Char) : Option CivilTime := do
  let (date, cs) ← dashedDate? cs
  if cs = [] then some ⟨date, 0, 0, 0, 0⟩ else none

def universal? (c : Option CivilTime) : Option Instant :=
  c.bind fun c => c.toInstant? 0

/-- The instant that a text without white space around it denotes, in the first of
the layouts that fits. -/
def readChars? (cs : List Char) : Option Instant :=
  readFixed? cs <|> universal? (readWritten? cs) <|> universal? (readSpaced? cs) <|>
    universal? (readLettered? cs) <|> universal? (readDate? cs)

def read? (text : String) : Option Instant :=
  readChars? (Text.trimChars text.toList)

end Instant

end FlightScript
