import FlightScript.Decimal.Reader
import FlightScript.Decimal.Text
import FlightScript.Text.Space

/-!
# Values

A value is what stands on the right of an assignment: a number, a text between
matching quotes, or any other text. `Value.read` classifies a text; the white
space around it never matters. `Value.toText` is how a value is shown, and
`Value.number?` is its reading as a number, which quoted and plain texts may have
as well.
-/

namespace FlightScript

inductive Value where
  /-- A number. -/
  | number (x : Float)
  /-- A text without quotes, as written. -/
  | plain (text : String)
  /-- The text between matching quotes, as written. -/
  | quoted (text : String)
  deriving DecidableEq

namespace Value

/-- What stands between the quotes when a text begins and ends with the same
quote. The two quotes are two characters. -/
def unquote? : List Char → Option (List Char)
  | [] => none
  | q :: rest =>
    if (q = '\'' ∨ q = '"') ∧ rest.getLast? = some q then some rest.dropLast else none

def ofChars (cs : List Char) : Value :=
  match Double.read? cs with
  | some x => .number x
  | none =>
    match unquote? cs with
    | some inner => .quoted (String.ofList inner)
    | none => .plain (String.ofList cs)

def read (s : String) : Value :=
  ofChars (Text.trimChars s.toList)

def toText : Value → String
  | .number x => Double.plain x
  | .plain s => s
  | .quoted s => s

/-- The value as a number, if it can be read as one. -/
def number? : Value → Option Float
  | .number x => some x
  | .plain s => Double.read? (Text.trimChars s.toList)
  | .quoted s => Double.read? (Text.trimChars s.toList)

@[simp] theorem toText_plain (s : String) : (plain s).toText = s := rfl

@[simp] theorem toText_quoted (s : String) : (quoted s).toText = s := rfl

@[simp] theorem number?_number (x : Float) : (number x).number? = some x := rfl

/-- A text between equal quotes is unquoted to exactly that text. -/
theorem unquote?_wrap {q : Char} (hq : q = '\'' ∨ q = '"') (cs : List Char) :
    unquote? (q :: (cs ++ [q])) = some cs := by
  simp [unquote?, hq]

/-- Only a text between equal quotes can be unquoted. -/
theorem unquote?_eq_some_iff {cs inner : List Char} :
    unquote? cs = some inner ↔
      ∃ q, (q = '\'' ∨ q = '"') ∧ cs = q :: (inner ++ [q]) := by
  constructor
  · intro h
    cases cs with
    | nil => simp [unquote?] at h
    | cons q rest =>
      by_cases hq : (q = '\'' ∨ q = '"') ∧ rest.getLast? = some q
      · rw [unquote?, if_pos hq, Option.some.injEq] at h
        obtain ⟨ys, rfl⟩ := List.getLast?_eq_some_iff.1 hq.2
        exact ⟨q, hq.1, by rw [← h, List.dropLast_concat]⟩
      · rw [unquote?, if_neg hq] at h
        exact absurd h (by simp)
  · rintro ⟨q, hq, rfl⟩
    exact unquote?_wrap hq inner

end Value

end FlightScript
