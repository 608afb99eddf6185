import FlightScript.Proofs.Script.Reading
import FlightScript.Proofs.Text.Joining

/-!
# Reading goes line by line

What a line is read as does not depend on the other lines, and its number appears in the
outcome and nowhere else (`readOrUnknown_add`, `refusal?_add`). So the script of two texts
that are put together is made of the scripts of both, the second one moved down by the
lines of the first (`ofLines_append`), and the endings of the lines make no difference.
-/

namespace FlightScript

open Text

def Statement.moveDown (s : Statement) (n : Nat) : Statement :=
  { s with line := s.line + n }

def Diagnostic.moveDown (d : Diagnostic) (n : Nat) : Diagnostic :=
  { d with line := d.line + n }

/-- The script with another one put below it. -/
def Script.append (s t : Script) : Script where
  statements := s.statements ++ t.statements.map fun statement => statement.moveDown s.lineCount
  errors := s.errors ++ t.errors.map fun error => error.moveDown s.lineCount
  lineCount := s.lineCount + t.lineCount

theorem Statement.isExecutable_moveDown (s : Statement) (n : Nat) :
    (s.moveDown n).isExecutable = s.isExecutable := rfl

theorem Statement.readOrUnknown_add (line n : Nat) (text : String) :
    readOrUnknown (line + n) text = (readOrUnknown line text).moveDown n := by
  simp only [readOrUnknown, read]
  cases command? (trimChars text.toList) <;> rfl

namespace Script

theorem refusal?_add (line n : Nat) (text : String) :
    refusal? (line + n) text = (refusal? line text).map fun error => error.moveDown n := by
  simp only [refusal?, Statement.read]
  cases Statement.command? (trimChars text.toList) <;> rfl

theorem numberedLines_add (k n : Nat) (lines : List String) :
    numberedLines (k + n) lines =
      (numberedLines k lines).map fun l => (l.1 + n, l.2) := by
  induction lines generalizing k with
  | nil => rfl
  | cons text rest ih =>
      have hnext := ih (k + 1)
      rw [Nat.add_right_comm] at hnext
      by_cases h : isEmptyLine text <;> simp [numberedLines, h, hnext]

theorem ofLines_append (lines lines' : List String) :
    ofLines (lines ++ lines') = (ofLines lines).append (ofLines lines') := by
  have hnumbered : numberedLines 1 (lines ++ lines') = numberedLines 1 lines ++
      (numberedLines 1 lines').map fun l => (l.1 + lines.length, l.2) := by
    rw [numberedLines_append, numberedLines_add]
  simp only [ofLines, append, hnumbered, List.map_append, List.filterMap_append, List.map_map,
    List.filterMap_map, List.map_filterMap, List.length_append, Function.comp_def,
    Statement.readOrUnknown_add, refusal?_add]

theorem isValid_append (s t : Script) : (s.append t).isValid = (s.isValid && t.isValid) := by
  cases hs : s.errors <;> simp [isValid, append, hs]

theorem commandCount_append (s t : Script) :
    (s.append t).commandCount = s.commandCount + t.commandCount := by
  simp [commandCount, executable, append, List.filter_map, Function.comp_def,
    Statement.isExecutable_moveDown]

/-- The script of two texts that are put together is the scripts of both, one below the
other, unless the seam makes one ending out of two. And the script of a text does not
depend on how the lines of the text end, as long as no carriage return gets a line feed
directly after it. -/
theorem read_append_and_joinLines :
    (∀ a b : String, IsComplete a.toList → SeamHolds a.toList b.toList →
      read (a ++ b) = (read a).append (read b) ∧
      (read (a ++ b)).isValid = ((read a).isValid && (read b).isValid) ∧
      (read (a ++ b)).warnings = (read a).warnings ++ (read b).warnings ∧
      (read (a ++ b)).commandCount = (read a).commandCount + (read b).commandCount) ∧
    ∀ (ls ls' : List (String × LineEnd)) (last : String), ls.map Prod.fst = ls'.map Prod.fst →
      (∀ line ∈ ls.map Prod.fst, IsUnbroken line.toList) → IsUnbroken last.toList →
      EndsApart ls last → EndsApart ls' last →
      read (joinLines ls last) = read (joinLines ls' last) := by
  constructor
  · intro a b hcomplete hseam
    have hread : read (a ++ b) = (read a).append (read b) := by
      rw [read, lines_append hcomplete hseam, ofLines_append, read, read]
    rw [hread]
    exact ⟨rfl, isValid_append _ _, rfl, commandCount_append _ _⟩
  · intro ls ls' last hsame hls hlast happart happart'
    have hls' := hls
    rw [hsame] at hls'
    rw [List.forall_mem_map] at hls hls'
    rw [read, read, lines_joinLines hls hlast happart, lines_joinLines hls' hlast happart', hsame]

/-- A text that ends with an empty line and a text with a refused line are put together, and
three lines get other endings. -/
theorem read_append_of_refused_line :
    (read ("n = 1\r\n\r" ++ " Frob\rm = 2")).errors =
      [⟨3, 2, "Unrecognized command: Frob", "SE001", .error⟩] ∧
    read "n = 1\r\r\n % c\nm = 2" = read "n = 1\n\n % c\r\nm = 2" := by
  obtain ⟨happend, hjoin⟩ := read_append_and_joinLines
  constructor
  · obtain ⟨hread, -⟩ := happend "n = 1\r\n\r" " Frob\rm = 2" (by decide +kernel)
      (by decide +kernel)
    rw [hread]
    decide +kernel
  · exact hjoin [("n = 1", .cr), ("", .crlf), (" % c", .lf)]
      [("n = 1", .lf), ("", .lf), (" % c", .crlf)] "m = 2" rfl (by decide +kernel)
      (by decide +kernel) (by decide +kernel) (by decide +kernel)

end Script

end FlightScript
