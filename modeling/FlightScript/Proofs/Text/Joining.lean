import FlightScript.Proofs.Text.Lines

/-!
# Joining texts and lines

Two texts that are put together have the lines of the one followed by those of the other
(`lines_append`), if the first one is complete and the seam makes no ending out of two.
`joinLines` puts lines together, each with an ending of its own, and the lines of the text
are these lines (`lines_joinLines`): the endings are forgotten. In both cases the one thing
to look out for is a line feed directly after a carriage return.
-/

namespace FlightScript

namespace Text

/-- The text is empty or ends with the ending of a line. -/
def IsComplete (cs : List Char) : Prop :=
  ∀ c ∈ cs.getLast?, c = '\r' ∨ c = '\n'

/-- A carriage return at the end of the one text has no line feed directly after it in the
other one. -/
def SeamHolds (cs ds : List Char) : Prop :=
  cs.getLast? = some '\r' → ds.head? ≠ some '\n'

inductive LineEnd where
  | crlf
  | lf
  | cr
  deriving DecidableEq, Repr

def LineEnd.chars : LineEnd → List Char
  | .crlf => ['\r', '\n']
  | .lf => ['\n']
  | .cr => ['\r']

/-- Lines, each with its ending, and after them what has no ending. -/
def joinLines : List (String × LineEnd) → String → String
  | [], last => last
  | (line, ending) :: rest, last => line ++ (String.ofList ending.chars ++ joinLines rest last)

/-- No carriage return that ends a line has a line feed directly after it. -/
def EndsApart (ls : List (String × LineEnd)) (last : String) : Prop :=
  ∀ front line rest, ls = front ++ (line, .cr) :: rest →
    (joinLines rest last).toList.head? ≠ some '\n'

variable {cs ds line ending rest : List Char}

-- named, so that no instance is found that goes through all characters
instance : Decidable (IsUnbroken cs) :=
  List.decidableBAll (p := fun c => ¬ (c = '\r' ∨ c = '\n')) cs

instance : Decidable (IsComplete cs) :=
  Option.decidableForallMem (p := fun c => c = '\r' ∨ c = '\n') cs.getLast?

instance : Decidable (SeamHolds cs ds) :=
  inferInstanceAs (Decidable (cs.getLast? = some '\r' → ds.head? ≠ some '\n'))

theorem getLast?_append_append (hne : rest ≠ []) :
    (line ++ (ending ++ rest)).getLast? = rest.getLast? := by
  simp [List.getLast?_append, List.getLast?_eq_some_getLast hne]

theorem IsComplete.of_append (h : IsComplete (line ++ (ending ++ rest))) : IsComplete rest := by
  intro c hc
  refine h c ?_
  rwa [getLast?_append_append]
  rintro rfl
  cases hc

theorem SeamHolds.of_append (h : SeamHolds (line ++ (ending ++ rest)) ds) : SeamHolds rest ds := by
  intro hlast
  refine h ?_
  rwa [getLast?_append_append]
  rintro rfl
  cases hlast

theorem not_isComplete_of_isUnbroken (hline : IsUnbroken line) (hne : line ≠ []) :
    ¬ IsComplete line := by
  intro h
  exact hline _ (List.getLast_mem hne) (h _ (List.getLast?_eq_some_getLast hne))

/-- An ending stays one if the text goes on after the rest. -/
theorem IsEnding.append (h : IsEnding ending rest)
    (hseam : SeamHolds (line ++ (ending ++ rest)) ds) :
    IsEnding ending (rest ++ ds) := by
  cases h with
  | crlf => exact .crlf
  | lf => exact .lf
  | cr hrest =>
      cases rest with
      | nil => exact .cr (hseam (by simp))
      | cons c rest => exact .cr hrest

theorem HasLines.append {ls ms : List (List Char)} (h : HasLines cs ls) (h' : HasLines ds ms)
    (hcomplete : IsComplete cs) (hseam : SeamHolds cs ds) : HasLines (cs ++ ds) (ls ++ ms) := by
  induction h with
  | nil => exact h'
  | last hline hne => exact absurd hcomplete (not_isComplete_of_isUnbroken hline hne)
  | ended hline hending hrest ih =>
      rw [List.append_assoc, List.append_assoc]
      exact .ended hline (hending.append hseam) (ih hcomplete.of_append hseam.of_append)

theorem hasLines_lines (text : String) : HasLines text.toList ((lines text).map String.toList) :=
  hasLines_iff.2 rfl

/-- The lines of two texts that are put together. -/
theorem lines_append {a b : String} (hcomplete : IsComplete a.toList)
    (hseam : SeamHolds a.toList b.toList) : lines (a ++ b) = lines a ++ lines b := by
  symm
  rw [← hasLines_iff, String.toList_append, List.map_append]
  exact (hasLines_lines a).append (hasLines_lines b) hcomplete hseam

theorem toList_joinLines_cons (l : String × LineEnd) (ls : List (String × LineEnd))
    (last : String) : (joinLines (l :: ls) last).toList =
      l.1.toList ++ (l.2.chars ++ (joinLines ls last).toList) := by
  rw [joinLines, String.toList_append, String.toList_append, String.toList_ofList]

theorem endsApart_nil (last : String) : EndsApart [] last := by
  simp [EndsApart]

theorem endsApart_cons {line last : String} {ending : LineEnd} {ls : List (String × LineEnd)} :
    EndsApart ((line, ending) :: ls) last ↔
      (ending = .cr → (joinLines ls last).toList.head? ≠ some '\n') ∧ EndsApart ls last := by
  constructor
  · intro h
    refine ⟨?_, fun front line' rest hsplit => ?_⟩
    · rintro rfl
      exact h [] line ls rfl
    · exact h ((line, ending) :: front) line' rest (by rw [hsplit, List.cons_append])
  · rintro ⟨hfirst, hrest⟩ front line' rest hsplit
    cases front with
    | nil =>
        cases hsplit
        exact hfirst rfl
    | cons l front =>
        cases hsplit
        exact hrest front line' rest rfl

instance decidableEndsApart : (ls : List (String × LineEnd)) → (last : String) →
    Decidable (EndsApart ls last)
  | [], last => isTrue (endsApart_nil last)
  | (_, _) :: ls, last =>
    have := decidableEndsApart ls last
    decidable_of_iff' _ endsApart_cons

theorem LineEnd.isEnding_chars {ending : LineEnd}
    (h : ending = .cr → rest.head? ≠ some '\n') : IsEnding ending.chars rest := by
  cases ending with
  | crlf => exact .crlf
  | lf => exact .lf
  | cr => exact .cr (h rfl)

/-- Lines that are put together are the lines of the text, whatever their endings are. -/
theorem lines_joinLines {ls : List (String × LineEnd)} {last : String}
    (hls : ∀ l ∈ ls, IsUnbroken l.1.toList) (hlast : IsUnbroken last.toList)
    (happart : EndsApart ls last) :
    lines (joinLines ls last) = ls.map Prod.fst ++ if last = "" then [] else [last] := by
  symm
  rw [← hasLines_iff]
  induction ls with
  | nil =>
      by_cases hempty : last = ""
      · simpa [joinLines, hempty] using HasLines.nil
      · simpa [joinLines, hempty] using HasLines.last hlast (by simpa using hempty)
  | cons l ls ih =>
      obtain ⟨line, ending⟩ := l
      obtain ⟨hcr, happart⟩ := endsApart_cons.1 happart
      rw [List.forall_mem_cons] at hls
      rw [toList_joinLines_cons]
      exact .ended hls.1 (LineEnd.isEnding_chars hcr) (ih hls.2 happart)

end Text

end FlightScript
