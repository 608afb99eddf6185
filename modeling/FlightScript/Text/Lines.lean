/-!
# The lines of a text

A line ends at a line feed, at a carriage return, or at a carriage return with a
line feed directly after it. An ending opens no line of its own: the text after
the last ending is a line only when it is not empty.
-/

namespace FlightScript

namespace Text

/-- The lines of a text, without their endings. -/
def splitLines : List Char → List (List Char)
  | [] => []
  | '\r' :: '\n' :: rest => [] :: splitLines rest
  | c :: rest =>
    if c = '\r' ∨ c = '\n' then
      [] :: splitLines rest
    else
      match splitLines rest with
      | [] => [[c]]
      | line :: lines => (c :: line) :: lines

@[simp] theorem splitLines_nil : splitLines [] = [] := rfl

@[simp] theorem splitLines_crlf (rest : List Char) :
    splitLines ('\r' :: '\n' :: rest) = [] :: splitLines rest := by
  rw [splitLines]

@[simp] theorem splitLines_lf (rest : List Char) :
    splitLines ('\n' :: rest) = [] :: splitLines rest := by
  rw [splitLines] <;> simp

def lines (s : String) : List String :=
  (splitLines s.toList).map String.ofList

end Text

end FlightScript
