import FlightScript.Text.Lines

/-!
# Texts and their lines

`HasLines cs ls` says without a reader that a text is made of some lines, each with its
ending. A text has exactly one such list of lines, the one that `splitLines` gives
(`splitLines_eq_iff`).
-/

namespace FlightScript

namespace Text

/-- No line ends within these characters. -/
def IsUnbroken (cs : List Char) : Prop :=
  ∀ c ∈ cs, ¬ (c = '\r' ∨ c = '\n')

/-- The ending of a line, before the rest of a text. A carriage return is no ending by
itself if a line feed follows. -/
inductive IsEnding : List Char → List Char → Prop where
  | crlf {rest : List Char} : IsEnding ['\r', '\n'] rest
  | lf {rest : List Char} : IsEnding ['\n'] rest
  | cr {rest : List Char} (hrest : rest.head? ≠ some '\n') : IsEnding ['\r'] rest

/-- The lines of a text, without their endings; the last one needs none if it is not
empty. -/
inductive HasLines : List Char → List (List Char) → Prop where
  | nil : HasLines [] []
  | last {line : List Char} (hline : IsUnbroken line) (hne : line ≠ []) : HasLines line [line]
  | ended {line ending rest : List Char} {lines : List (List Char)} (hline : IsUnbroken line)
      (hending : IsEnding ending rest) (hrest : HasLines rest lines) :
      HasLines (line ++ (ending ++ rest)) (line :: lines)

theorem isUnbroken_nil : IsUnbroken [] :=
  fun _ h => absurd h List.not_mem_nil

theorem isUnbroken_cons {c : Char} {cs : List Char} :
    IsUnbroken (c :: cs) ↔ ¬ (c = '\r' ∨ c = '\n') ∧ IsUnbroken cs :=
  List.forall_mem_cons

theorem splitLines_cr {rest : List Char} (h : rest.head? ≠ some '\n') :
    splitLines ('\r' :: rest) = [] :: splitLines rest := by
  rw [splitLines]
  · rfl
  · rintro rest' - rfl
    exact h rfl

/-- The lines of a text with a character put before it that ends no line. -/
def addToFirst (c : Char) : List (List Char) → List (List Char)
  | [] => [[c]]
  | line :: lines => (c :: line) :: lines

theorem splitLines_cons {c : Char} (h : ¬ (c = '\r' ∨ c = '\n')) (rest : List Char) :
    splitLines (c :: rest) = addToFirst c (splitLines rest) := by
  rw [splitLines, if_neg h]
  · cases splitLines rest <;> rfl
  · rintro rest' rfl
    exact absurd (Or.inl rfl) h

theorem splitLines_ending {ending rest : List Char} (h : IsEnding ending rest) :
    splitLines (ending ++ rest) = [] :: splitLines rest := by
  cases h with
  | crlf => exact splitLines_crlf rest
  | lf => exact splitLines_lf rest
  | cr hrest => exact splitLines_cr hrest

theorem splitLines_append {line ending rest : List Char} (hline : IsUnbroken line)
    (hending : IsEnding ending rest) :
    splitLines (line ++ (ending ++ rest)) = line :: splitLines rest := by
  induction line with
  | nil => exact splitLines_ending hending
  | cons c line ih =>
      rw [isUnbroken_cons] at hline
      rw [List.cons_append, splitLines_cons hline.1, ih hline.2, addToFirst]

theorem splitLines_of_isUnbroken {line : List Char} (hline : IsUnbroken line) (hne : line ≠ []) :
    splitLines line = [line] := by
  induction line with
  | nil => exact absurd rfl hne
  | cons c line ih =>
      rw [isUnbroken_cons] at hline
      rw [splitLines_cons hline.1]
      cases line with
      | nil => rfl
      | cons d line => rw [ih hline.2 (List.cons_ne_nil d line), addToFirst]

theorem HasLines.cons {c : Char} {rest : List Char} (hc : ¬ (c = '\r' ∨ c = '\n'))
    {lines : List (List Char)} (h : HasLines rest lines) :
    HasLines (c :: rest) (addToFirst c lines) := by
  cases h with
  | nil =>
      exact .last (isUnbroken_cons.2 ⟨hc, isUnbroken_nil⟩) (List.cons_ne_nil c [])
  | last hline _ => exact .last (isUnbroken_cons.2 ⟨hc, hline⟩) (List.cons_ne_nil c rest)
  | ended hline hending hrest => exact .ended (isUnbroken_cons.2 ⟨hc, hline⟩) hending hrest

theorem hasLines_splitLines (cs : List Char) : HasLines cs (splitLines cs) := by
  induction cs using splitLines.induct with
  | case1 => exact .nil
  | case2 rest ih =>
      rw [splitLines_crlf]
      exact .ended isUnbroken_nil .crlf ih
  | case3 c rest hcrlf hc ih =>
      rcases hc with rfl | rfl
      · have hrest : rest.head? ≠ some '\n' := by
          intro hhead
          obtain ⟨rest', rfl⟩ := List.head?_eq_some_iff.1 hhead
          exact hcrlf rest' rfl rfl
        rw [splitLines_cr hrest]
        exact .ended isUnbroken_nil (.cr hrest) ih
      · rw [splitLines_lf]
        exact .ended isUnbroken_nil .lf ih
  | case4 c rest hcrlf hc hnil ih =>
      rw [splitLines_cons hc]
      exact ih.cons hc
  | case5 c rest hcrlf hc line lines hlines ih =>
      rw [splitLines_cons hc]
      exact ih.cons hc

theorem splitLines_eq_iff {cs : List Char} {ls : List (List Char)} :
    splitLines cs = ls ↔ HasLines cs ls := by
  constructor
  · rintro rfl
    exact hasLines_splitLines cs
  · intro h
    induction h with
    | nil => rfl
    | last hline hne => exact splitLines_of_isUnbroken hline hne
    | ended hline hending _ ih => rw [splitLines_append hline hending, ih]

/-- A text has one list of lines. -/
theorem hasLines_iff {text : String} {ls : List String} :
    HasLines text.toList (ls.map String.toList) ↔ ls = lines text := by
  have hinverse : ∀ css : List (List Char), (css.map String.ofList).map String.toList = css := by
    intro css
    rw [List.map_map]
    exact (List.map_congr_left fun cs _ => String.toList_ofList).trans css.map_id
  rw [← splitLines_eq_iff, lines]
  constructor
  · intro h
    rw [h, List.map_map]
    exact ((List.map_congr_left fun s _ => String.ofList_toList).trans ls.map_id).symm
  · rintro rfl
    exact (hinverse _).symm

end Text

end FlightScript
