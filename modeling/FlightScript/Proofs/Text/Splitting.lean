import FlightScript.Proofs.Text.Joining
import FlightScript.Proofs.Text.Trim

/-!
# Splitting undoes joining

`IsJoined text ls last` says that a text is put together from lines, each with its ending, and
from what stands after the last ending. Every text is put together in this way, and in one way
only (`exists_isJoined`, `IsJoined.unique`): so splitting it and joining lines undo one another
(`lines_undo_joinLines`).

A `Scan` goes over a text from ending to ending, one or two characters past each of them. It
makes one step for each ending and finds the lines of the text (`IsJoined.ends`).
-/

namespace FlightScript

namespace Text

/-- The text is put together from lines with their endings, of which none is cut in two, and
from what stands after the last one. -/
structure IsJoined (text : String) (ls : List (String × LineEnd)) (last : String) : Prop where
  joinLines_eq : joinLines ls last = text
  isUnbroken : ∀ l ∈ ls, IsUnbroken l.1.toList
  isUnbroken_last : IsUnbroken last.toList
  endsApart : EndsApart ls last

/-- The lines that were put together; what stands after the last ending is one of them if it is
not empty. -/
def linesOf (ls : List (String × LineEnd)) (last : String) : List String :=
  ls.map Prod.fst ++ if last = "" then [] else [last]

/-- How far a search for the endings of lines has come. -/
structure Scan where
  /-- The lines before the endings that were found. -/
  found : List (List Char)
  /-- The text after the last one of these endings. -/
  rest : List Char
  deriving DecidableEq

namespace Scan

def start (text : String) : Scan :=
  ⟨[], text.toList⟩

def goesOn (c : Char) : Bool :=
  c ≠ '\r' && c ≠ '\n'

/-- The number of characters of the ending with which a text begins. -/
def endingLength (cs : List Char) : Nat :=
  if ['\r', '\n'] <+: cs then 2 else 1

/-- The next ending is found and passed over, if there is one. -/
def next? (s : Scan) : Option Scan :=
  match s.rest.dropWhile goesOn with
  | [] => none
  | c :: rest =>
    some ⟨s.found ++ [s.rest.takeWhile goesOn], (c :: rest).drop (endingLength (c :: rest))⟩

/-- The search comes to its end after a number of steps. -/
inductive Ends : Scan → Nat → Scan → Prop where
  | done {s : Scan} (h : s.next? = none) : Ends s 0 s
  | step {s t last : Scan} {n : Nat} (h : s.next? = some t) (hrest : Ends t n last) :
      Ends s (n + 1) last

/-- The lines that were found, and the rest if it is not empty. -/
def lines (s : Scan) : List String :=
  (s.found ++ if s.rest = [] then [] else [s.rest]).map String.ofList

end Scan

variable {text line last : String} {ls ls' : List (String × LineEnd)}

theorem LineEnd.exists_of_isEnding {ending rest : List Char} (h : IsEnding ending rest) :
    ∃ e : LineEnd, e.chars = ending ∧ (e = .cr → rest.head? ≠ some '\n') := by
  cases h with
  | crlf => exact ⟨.crlf, rfl, nofun⟩
  | lf => exact ⟨.lf, rfl, nofun⟩
  | cr hrest => exact ⟨.cr, rfl, fun _ => hrest⟩

theorem LineEnd.exists_chars (e : LineEnd) :
    ∃ c cs, e.chars = c :: cs ∧ (c = '\r' ∨ c = '\n') := by
  cases e with
  | crlf => exact ⟨'\r', ['\n'], rfl, Or.inl rfl⟩
  | lf => exact ⟨'\n', [], rfl, Or.inr rfl⟩
  | cr => exact ⟨'\r', [], rfl, Or.inl rfl⟩

/-! ### Joined in one way -/

theorem isJoined_nil (h : IsUnbroken last.toList) : IsJoined last [] last :=
  ⟨rfl, nofun, h, endsApart_nil last⟩

theorem isJoined_cons {e : LineEnd} :
    IsJoined (joinLines ((line, e) :: ls) last) ((line, e) :: ls) last ↔
      IsUnbroken line.toList ∧ (e = .cr → (joinLines ls last).toList.head? ≠ some '\n') ∧
        IsJoined (joinLines ls last) ls last := by
  constructor
  · rintro ⟨-, hunbroken, hlast, happart⟩
    rw [List.forall_mem_cons] at hunbroken
    obtain ⟨hcr, happart⟩ := endsApart_cons.1 happart
    exact ⟨hunbroken.1, hcr, rfl, hunbroken.2, hlast, happart⟩
  · rintro ⟨hline, hcr, -, hunbroken, hlast, happart⟩
    exact ⟨rfl, List.forall_mem_cons.2 ⟨hline, hunbroken⟩, hlast, endsApart_cons.2 ⟨hcr, happart⟩⟩

theorem HasLines.exists_isJoined {cs : List Char} {lines : List (List Char)}
    (h : HasLines cs lines) : ∃ ls last, IsJoined (String.ofList cs) ls last := by
  induction h with
  | nil => exact ⟨[], "", isJoined_nil isUnbroken_nil⟩
  | @last line hline hne =>
      exact ⟨[], String.ofList line, isJoined_nil (by rwa [String.toList_ofList])⟩
  | @ended line ending rest lines hline hending hrest ih =>
      obtain ⟨ls, last, hjoined⟩ := ih
      obtain ⟨e, rfl, hcr⟩ := LineEnd.exists_of_isEnding hending
      have htext : String.ofList (line ++ (e.chars ++ rest)) =
          joinLines ((String.ofList line, e) :: ls) last := by
        rw [joinLines, hjoined.joinLines_eq, String.ofList_append, String.ofList_append]
      have hrest' : (joinLines ls last).toList = rest := by
        rw [hjoined.joinLines_eq, String.toList_ofList]
      refine ⟨(String.ofList line, e) :: ls, last, ?_⟩
      rw [htext, isJoined_cons, String.toList_ofList, hrest', hjoined.joinLines_eq]
      exact ⟨hline, hcr, hjoined⟩

/-- Every text is put together from lines. -/
theorem exists_isJoined (text : String) : ∃ ls last, IsJoined text ls last := by
  have h := (hasLines_splitLines text.toList).exists_isJoined
  rwa [String.ofList_toList] at h

/-- Where a line ends, and how, can be told from the text. -/
theorem line_append_inj {cs ds rest rest' : List Char} {e e' : LineEnd} (hcs : IsUnbroken cs)
    (hds : IsUnbroken ds) (hcr : e = .cr → rest.head? ≠ some '\n')
    (hcr' : e' = .cr → rest'.head? ≠ some '\n')
    (h : cs ++ (e.chars ++ rest) = ds ++ (e'.chars ++ rest')) :
    cs = ds ∧ e = e' ∧ rest = rest' := by
  induction cs generalizing ds with
  | nil =>
      cases ds with
      | nil =>
          -- an ending is shorter than another one only where a line feed follows
          cases e <;> cases e' <;> grind [LineEnd.chars]
      | cons d ds =>
          obtain ⟨c, cs, hchars, hc⟩ := e.exists_chars
          rw [List.nil_append, hchars, List.cons_append, List.cons_append, List.cons.injEq] at h
          exact absurd (h.1 ▸ hc) (isUnbroken_cons.1 hds).1
  | cons c cs ih =>
      rw [isUnbroken_cons] at hcs
      cases ds with
      | nil =>
          obtain ⟨d, ds, hchars, hd⟩ := e'.exists_chars
          rw [List.nil_append, hchars, List.cons_append, List.cons_append, List.cons.injEq] at h
          exact absurd (h.1 ▸ hd) hcs.1
      | cons d ds =>
          rw [List.cons_append, List.cons_append, List.cons.injEq] at h
          obtain ⟨rfl, he, hrest⟩ := ih hcs.2 (isUnbroken_cons.1 hds).2 h.2
          exact ⟨by rw [h.1], he, hrest⟩

theorem not_isUnbroken_joinLines_cons (l : String × LineEnd) (ls : List (String × LineEnd))
    (last : String) : ¬ IsUnbroken (joinLines (l :: ls) last).toList := by
  intro h
  rw [toList_joinLines_cons] at h
  obtain ⟨c, cs, hchars, hc⟩ := l.2.exists_chars
  exact h c (by simp [hchars]) hc

/-- A text is put together from lines in one way. -/
theorem IsJoined.unique {last' : String} (h : IsJoined text ls last)
    (h' : IsJoined text ls' last') : ls' = ls ∧ last' = last := by
  obtain rfl := h.joinLines_eq
  have heq := h'.joinLines_eq
  induction ls generalizing ls' with
  | nil =>
      cases ls' with
      | nil => exact ⟨rfl, heq⟩
      | cons l' ls' =>
          refine absurd ?_ (not_isUnbroken_joinLines_cons l' ls' last')
          rw [heq]
          exact h.isUnbroken_last
  | cons l ls ih =>
      obtain ⟨hline, hcr, hrest⟩ := isJoined_cons.1 h
      cases ls' with
      | nil =>
          refine absurd ?_ (not_isUnbroken_joinLines_cons l ls last)
          rw [← heq]
          exact h'.isUnbroken_last
      | cons l' ls' =>
          rw [← heq] at h'
          obtain ⟨hline', hcr', hrest'⟩ := isJoined_cons.1 h'
          have hchars := congrArg String.toList heq
          rw [toList_joinLines_cons, toList_joinLines_cons] at hchars
          obtain ⟨hfirst, hend, hafter⟩ := line_append_inj hline' hline hcr' hcr hchars
          have htext := String.toList_inj.1 hafter
          obtain ⟨rfl, rfl⟩ := ih hrest (htext ▸ hrest') htext
          exact ⟨by rw [Prod.ext (String.toList_inj.1 hfirst) hend], rfl⟩

theorem toList_joinLines_append (ls ls' : List (String × LineEnd)) (line last : String)
    (e : LineEnd) : (joinLines (ls ++ (line, e) :: ls') last).toList =
      (joinLines ls line).toList ++ (e.chars ++ (joinLines ls' last).toList) := by
  induction ls with
  | nil => exact toList_joinLines_cons (line, e) ls' last
  | cons l ls ih =>
      rw [List.cons_append, toList_joinLines_cons, ih, toList_joinLines_cons]
      simp only [List.append_assoc]

/-- Between two texts a carriage return with a line feed after it is one ending. -/
theorem IsJoined.append_crlf {front rest line last : String} (h : IsJoined front ls line)
    (h' : IsJoined rest ls' last) :
    IsJoined (front ++ ("\r\n" ++ rest)) (ls ++ (line, .crlf) :: ls') last := by
  refine ⟨?_, ?_, h'.isUnbroken_last, ?_⟩
  · rw [← String.toList_inj, toList_joinLines_append, h.joinLines_eq, h'.joinLines_eq,
      String.toList_append, String.toList_append]
    rfl
  · intro l hl
    rcases List.mem_append.1 hl with hl | hl
    · exact h.isUnbroken l hl
    · rcases List.mem_cons.1 hl with rfl | hl
      · exact h.isUnbroken_last
      · exact h'.isUnbroken l hl
  · have happart := h.endsApart
    clear h
    induction ls with
    | nil => exact endsApart_cons.2 ⟨nofun, h'.endsApart⟩
    | cons l ls ih =>
        obtain ⟨hcr, hrest⟩ := endsApart_cons.1 happart
        rw [List.cons_append]
        refine endsApart_cons.2 ⟨fun he => ?_, ih hrest⟩
        rw [toList_joinLines_append, List.head?_append]
        cases hhead : (joinLines ls line).toList.head? with
        | none => simp [LineEnd.chars]
        | some c =>
            rw [Option.some_or, ← hhead]
            exact hcr he

theorem isComplete_append_chars (cs rest : List Char) (e : LineEnd) :
    IsComplete (cs ++ (e.chars ++ rest)) ↔ IsComplete rest := by
  cases rest with
  | nil =>
      refine iff_of_true (fun c hc => ?_) nofun
      rw [List.append_nil] at hc
      cases e <;> simp [LineEnd.chars] at hc <;> simp [← hc]
  | cons d rest => rw [IsComplete, getLast?_append_append (List.cons_ne_nil d rest), IsComplete]

/-- What stands after the last ending is empty just if the text is complete. -/
theorem IsJoined.isComplete_iff (h : IsJoined text ls last) :
    last = "" ↔ IsComplete text.toList := by
  obtain rfl := h.joinLines_eq
  induction ls with
  | nil =>
      rw [joinLines]
      constructor
      · rintro rfl c hc
        cases hc
      · intro hcomplete
        by_contra hne
        exact not_isComplete_of_isUnbroken h.isUnbroken_last (by simpa using hne) hcomplete
  | cons l ls ih =>
      rw [toList_joinLines_cons, isComplete_append_chars]
      exact ih (isJoined_cons.1 h).2.2

theorem IsJoined.lines_eq (h : IsJoined text ls last) : lines text = linesOf ls last := by
  rw [← h.joinLines_eq]
  exact lines_joinLines h.isUnbroken h.isUnbroken_last h.endsApart

theorem IsJoined.isUnbroken_of_mem_lines (h : IsJoined text ls last) :
    ∀ line ∈ lines text, IsUnbroken line.toList := by
  intro line hline
  rw [h.lines_eq, linesOf, List.mem_append] at hline
  rcases hline with hline | hline
  · obtain ⟨l, hl, rfl⟩ := List.mem_map.1 hline
    exact h.isUnbroken l hl
  · split at hline
    · exact absurd hline List.not_mem_nil
    · rw [List.mem_singleton.1 hline]
      exact h.isUnbroken_last

/-! ### The search for endings -/

namespace Scan

theorem drop_endingLength {rest : List Char} {e : LineEnd}
    (hcr : e = .cr → rest.head? ≠ some '\n') :
    (e.chars ++ rest).drop (endingLength (e.chars ++ rest)) = rest := by
  cases e with
  | crlf => simp [LineEnd.chars, endingLength]
  | lf => simp [LineEnd.chars, endingLength, List.cons_prefix_cons]
  | cr =>
      -- no line feed follows, so that one character is passed over
      have hone : ¬ ['\n'] <+: rest := by
        rintro ⟨tail, rfl⟩
        exact hcr rfl rfl
      simp [LineEnd.chars, endingLength, List.cons_prefix_cons, hone]

theorem next?_append {found : List (List Char)} {line rest : List Char} {e : LineEnd}
    (hline : IsUnbroken line) (hcr : e = .cr → rest.head? ≠ some '\n') :
    next? ⟨found, line ++ (e.chars ++ rest)⟩ = some ⟨found ++ [line], rest⟩ := by
  have hall : ∀ c ∈ line, goesOn c := fun c hc => by simpa [goesOn] using hline c hc
  have hstart : StartsOutside goesOn (e.chars ++ rest) := by
    cases e <;> exact startsOutside_cons (by decide) _
  have hdrop := drop_endingLength hcr
  obtain ⟨c, cs, hchars, -⟩ := e.exists_chars
  rw [hchars, List.cons_append] at hstart hdrop ⊢
  simp only [next?, takeWhile_append_of_startsOutside hall hstart,
    dropWhile_append_of_startsOutside hall hstart, hdrop]

theorem next?_of_isUnbroken {found : List (List Char)} {rest : List Char}
    (h : IsUnbroken rest) : next? ⟨found, rest⟩ = none := by
  have hnil : rest.dropWhile goesOn = [] :=
    List.dropWhile_eq_nil_iff.2 fun c hc => by simpa [goesOn] using h c hc
  simp only [next?, hnil]

end Scan

/-- The search makes one step for each ending. -/
theorem IsJoined.ends (h : IsJoined text ls last) (found : List (List Char)) :
    Scan.Ends ⟨found, text.toList⟩ ls.length
      ⟨found ++ ls.map fun l => l.1.toList, last.toList⟩ := by
  obtain rfl := h.joinLines_eq
  induction ls generalizing found with
  | nil =>
      rw [List.map_nil, List.append_nil]
      exact .done (Scan.next?_of_isUnbroken h.isUnbroken_last)
  | cons l ls ih =>
      obtain ⟨hline, hcr, hrest⟩ := isJoined_cons.1 h
      rw [toList_joinLines_cons]
      refine .step (Scan.next?_append hline hcr) ?_
      have hnext := ih (found ++ [l.1.toList]) hrest
      rwa [List.append_assoc] at hnext

theorem lines_scan (ls : List (String × LineEnd)) (last : String) :
    Scan.lines ⟨ls.map fun l => l.1.toList, last.toList⟩ = linesOf ls last := by
  have hcomp : String.ofList ∘ (fun l : String × LineEnd => l.1.toList) = Prod.fst :=
    funext fun l => String.ofList_toList
  by_cases hlast : last = ""
  · simp [Scan.lines, linesOf, hlast, hcomp]
  · simp [Scan.lines, linesOf, hlast, hcomp]

/-- Every text is put together from lines and endings in one way, and these are its lines: none
of them holds an ending, the text ends without one just if the last line stands after the last
ending, which then is not empty, and a carriage return with a line feed after it is one ending.
They are found by a search that comes to its end, in one step for each ending. And lines that
are put together are the lines of that text, whatever their endings are, unless a line feed
comes to stand directly after a carriage return that ends a line. -/
theorem lines_undo_joinLines :
    (∀ text : String, ∃ ls last, IsJoined text ls last ∧
      (∀ ls' last', IsJoined text ls' last' → ls' = ls ∧ last' = last) ∧
      lines text = linesOf ls last ∧
      (∀ line ∈ lines text, IsUnbroken line.toList) ∧
      (last = "" ↔ IsComplete text.toList) ∧
      (∀ front rest, text = front ++ ("\r\n" ++ rest) → ∃ before line after,
        ls = before ++ (line, .crlf) :: after ∧ front = joinLines before line ∧
        rest = joinLines after last) ∧
      ∃ s, (Scan.start text).Ends ls.length s ∧ s.lines = lines text) ∧
    ∀ ls last, (∀ l ∈ ls, IsUnbroken l.1.toList) → IsUnbroken last.toList →
      EndsApart ls last → lines (joinLines ls last) = linesOf ls last := by
  refine ⟨fun text => ?_, fun ls last hls hlast happart => lines_joinLines hls hlast happart⟩
  obtain ⟨ls, last, h⟩ := exists_isJoined text
  refine ⟨ls, last, h, fun ls' last' h' => h.unique h', h.lines_eq, h.isUnbroken_of_mem_lines,
    h.isComplete_iff, ?_, _, h.ends [], (lines_scan ls last).trans h.lines_eq.symm⟩
  rintro front rest rfl
  obtain ⟨before, line, hfront⟩ := exists_isJoined front
  obtain ⟨after, last', hrest⟩ := exists_isJoined rest
  obtain ⟨rfl, rfl⟩ := h.unique (hfront.append_crlf hrest)
  exact ⟨before, line, after, rfl, hfront.joinLines_eq.symm, hrest.joinLines_eq.symm⟩

/-- A text with all three endings, of which one is that of an empty line. -/
theorem lines_undo_joinLines_of_three_endings :
    (∃ before line after,
      [("n = 1", LineEnd.cr), ("", .crlf), ("m = 2", .lf)] = before ++ (line, .crlf) :: after ∧
        "n = 1\r" = joinLines before line ∧ "m = 2\n" = joinLines after "") ∧
    lines (joinLines [("n = 1", .cr), ("", .crlf)] "m = 2") = ["n = 1", "", "m = 2"] := by
  obtain ⟨hsplit, hjoin⟩ := lines_undo_joinLines
  constructor
  · obtain ⟨ls, last, -, hunique, -, -, -, hcrlf, -⟩ := hsplit "n = 1\r\r\nm = 2\n"
    have hjoined : IsJoined "n = 1\r\r\nm = 2\n"
        [("n = 1", .cr), ("", .crlf), ("m = 2", .lf)] "" :=
      ⟨by decide +kernel, by decide +kernel, by decide +kernel, by decide +kernel⟩
    obtain ⟨rfl, rfl⟩ := hunique _ _ hjoined
    exact hcrlf "n = 1\r" "m = 2\n" (by decide +kernel)
  · exact hjoin _ _ (by decide +kernel) (by decide +kernel) (by decide +kernel)

end Text

end FlightScript
