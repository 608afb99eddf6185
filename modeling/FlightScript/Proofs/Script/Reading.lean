import FlightScript.Proofs.Script.Line
import FlightScript.Proofs.Text.Lines
import FlightScript.Proofs.Validation.Scope
import Mathlib.Data.List.Forall2

/-!
# What reading makes of a text

A script has one statement for every line of its text that does not hold white space
only. Each statement is what its line reads as, or unknown if the line is refused, and
the unknown statements are the ones that give an error. `script.IsReadingOf lines`
collects what is known of a script and the lines that it was read from.
-/

namespace FlightScript

open Text

theorem Shape.Denotes.isExecutable {shape : Shape} {cs : List Char} {c : Command}
    (h : shape.Denotes cs c) : c.isExecutable := by
  cases h <;> rfl

namespace Statement

def isComment (s : Statement) : Bool :=
  match s.command with
  | .comment _ => true
  | _ => false

/-- The statement is of a line that was refused. -/
def isUnknown (s : Statement) : Bool :=
  s.command = .unknown

def refusal (s : Statement) : Diagnostic :=
  (Finding.unknownCommand (LineError.unrecognized s.trimmed).message).diagnostic s.line s.text

/-- The error of a line shows the line without the white space around it, and points at
the first character after the white space. -/
inductive IsRefusedAs (s : Statement) : Diagnostic → Prop where
  | intro {front u back : List Char} (htext : s.text.toList = front ++ u ++ back)
      (hfront : ∀ c ∈ front, isSpace c) (hback : ∀ c ∈ back, isSpace c) (hu : u ≠ [])
      (hstart : StartsOutside isSpace u) (hend : EndsOutside isSpace u) :
      IsRefusedAs s ⟨s.line, front.length + 1, "Unrecognized command: " ++ String.ofList u,
        "SE001", .error⟩

variable {line : Nat} {text : String} {s : Statement}

theorem Means.ne_unknown {cs : List Char} {c : Command} (h : Means cs c) : c ≠ .unknown := by
  rintro rfl
  cases h with
  | command _ _ _ hc =>
      obtain ⟨-, shape, -, -, hdenotes, -⟩ := hc
      cases hdenotes.isExecutable

theorem means_of_read (h : read line text = .ok s) : Means text.toList s.command := by
  rw [← command?_eq_some_iff]
  rw [read] at h
  split at h
  · next c hc =>
      cases h
      exact hc
  · cases h

theorem text_readOrUnknown (line : Nat) (text : String) :
    (readOrUnknown line text).text = text := by
  rw [readOrUnknown]
  cases h : read line text with
  | ok s => exact (read_ok h).2
  | error e => rfl

theorem readOrUnknown_cases (line : Nat) (text : String) :
    (read line text = .ok (readOrUnknown line text) ∧
      (readOrUnknown line text).isUnknown = false) ∨
    (read line text = .error (.unrecognized (trim text)) ∧
      (readOrUnknown line text).isUnknown = true) := by
  rw [readOrUnknown]
  cases h : read line text with
  | ok s => exact Or.inl ⟨rfl, decide_eq_false (means_of_read h).ne_unknown⟩
  | error e => exact Or.inr ⟨congrArg _ (read_error h), rfl⟩

theorem refusal?_eq (line : Nat) (text : String) :
    Script.refusal? line text =
      if (readOrUnknown line text).isUnknown then some (readOrUnknown line text).refusal
      else none := by
  rcases readOrUnknown_cases line text with ⟨hread, hknown⟩ | ⟨hread, hunknown⟩
  · rw [Script.refusal?, hread, hknown]
    rfl
  · rw [Script.refusal?, hread, hunknown, if_pos rfl, refusal, trimmed, text_readOrUnknown,
      line_readOrUnknown]

theorem isRefusedAs_refusal (h : ¬ ∀ c ∈ s.text.toList, isSpace c) :
    s.IsRefusedAs s.refusal := by
  obtain ⟨front, back, htext, hfront, hback, hstart, hend⟩ := trimsTo_trimChars s.text.toList
  have hu : trimChars s.text.toList ≠ [] := by
    intro hnil
    rw [hnil, List.append_nil] at htext
    rw [htext] at h
    exact h fun c hc => (List.mem_append.1 hc).elim (hfront c) (hback c)
  have hcolumn : firstColumn s.text = front.length + 1 := by
    have htake := takeWhile_append_of_startsOutside hfront (hstart.append hu back)
    rw [← List.append_assoc, ← htext] at htake
    rw [firstColumn, htake]
  have hrefused := IsRefusedAs.intro htext hfront hback hu hstart hend
  rwa [← hcolumn] at hrefused

/-- A statement is executed, or it is a comment or unknown. -/
theorem length_eq_add (statements : List Statement) :
    (statements.filter isExecutable).length + statements.countP isComment +
      (statements.filter isUnknown).length = statements.length := by
  induction statements with
  | nil => rfl
  | cons s rest ih =>
      have hs : (if s.isExecutable then 1 else 0) + (if s.isComment then 1 else 0) +
          (if s.isUnknown then 1 else 0) = 1 := by
        cases hc : s.command <;>
          simp [isExecutable, isComment, isUnknown, Command.isExecutable, hc]
      simp only [← List.countP_eq_length_filter, List.countP_cons, List.length_cons] at ih ⊢
      omega

end Statement

namespace Script

/-- What reading makes of some lines. -/
structure IsReadingOf (script : Script) (lines : List String) : Prop where
  lineCount_eq : script.lineCount = lines.length
  lines_eq : script.statements.map (fun s => (s.text, s.line)) =
    (lines.zipIdx 1).filter fun l => !l.1.toList.all isSpace
  ascending : script.statements.Pairwise fun s t => s.line < t.line
  line_le : ∀ s ∈ script.statements, 1 ≤ s.line ∧ s.line ≤ script.lineCount
  read_eq : ∀ s ∈ script.statements,
    (Statement.read s.line s.text = .ok s ∧ s.command ≠ .unknown) ∨
      ((∃ e, Statement.read s.line s.text = .error e) ∧ s.command = .unknown)
  errors : List.Forall₂ Statement.IsRefusedAs
    (script.statements.filter Statement.isUnknown) script.errors
  comment : ∀ l ∈ lines.zipIdx 1, ∀ rest, TrimsTo l.1.toList ('%' :: rest) →
    (∃ s ∈ script.statements, s.line = l.2 ∧ s.isComment) ∧ ∀ d ∈ script.errors, d.line ≠ l.2
  isValid_iff : script.isValid ↔ ∀ s ∈ script.statements, s.command ≠ .unknown
  warnings_eq : script.warnings = []
  count_eq : script.commandCount + script.statements.countP Statement.isComment +
    script.errors.length = script.statements.length

theorem numberedLines_eq (n : Nat) (ls : List String) :
    numberedLines n ls =
      ((ls.zipIdx n).filter fun l => !l.1.toList.all isSpace).map Prod.swap := by
  induction ls generalizing n with
  | nil => rfl
  | cons text rest ih =>
      rw [List.zipIdx_cons, numberedLines]
      by_cases hempty : isEmptyLine text
      · have hspace : text.toList.all isSpace := hempty
        rw [if_pos hempty, List.filter_cons_of_neg (by simp [hspace]), ih]
      · have hspace : ¬ text.toList.all isSpace := hempty
        rw [if_neg hempty, List.filter_cons_of_pos (by simp [hspace]), List.map_cons, ih]
        rfl

theorem mem_statements_iff {lines : List String} {s : Statement} :
    s ∈ (ofLines lines).statements ↔
      (s.text, s.line) ∈ lines.zipIdx 1 ∧ (¬ ∀ c ∈ s.text.toList, isSpace c) ∧
        Statement.readOrUnknown s.line s.text = s := by
  have hall : ∀ text : String,
      (!text.toList.all isSpace) = true ↔ ¬ ∀ c ∈ text.toList, isSpace c := by
    intro text
    rw [Bool.not_eq_true', ← Bool.not_eq_true, List.all_eq_true]
  rw [ofLines, numberedLines_eq, List.map_map, List.mem_map]
  constructor
  · rintro ⟨⟨text, n⟩, hl, rfl⟩
    obtain ⟨hmem, hspace⟩ := List.mem_filter.1 hl
    simp only [Function.comp_apply, Prod.fst_swap, Prod.snd_swap, Statement.text_readOrUnknown,
      Statement.line_readOrUnknown]
    exact ⟨hmem, (hall text).1 hspace, trivial⟩
  · rintro ⟨hmem, hspace, hs⟩
    exact ⟨(s.text, s.line), List.mem_filter.2 ⟨hmem, (hall s.text).2 hspace⟩, hs⟩

theorem errors_ofLines (lines : List String) :
    (ofLines lines).errors =
      ((ofLines lines).statements.filter Statement.isUnknown).map Statement.refusal := by
  simp only [ofLines]
  induction numberedLines 1 lines with
  | nil => rfl
  | cons l rest ih =>
      rw [List.filterMap_cons, List.map_cons, List.filter_cons, Statement.refusal?_eq, ih]
      cases (Statement.readOrUnknown l.1 l.2).isUnknown <;> rfl

theorem read_eq_or_isUnknown {lines : List String} {s : Statement}
    (hs : s ∈ (ofLines lines).statements) :
    (Statement.read s.line s.text = .ok s ∧ s.isUnknown = false) ∨
      (Statement.read s.line s.text = .error (.unrecognized s.trimmed) ∧ s.isUnknown) := by
  have hread := Statement.readOrUnknown_cases s.line s.text
  rwa [(mem_statements_iff.1 hs).2.2] at hread

theorem exists_isComment {lines : List String} {l : String × Nat} {rest : List Char}
    (hl : l ∈ lines.zipIdx 1) (hrest : TrimsTo l.1.toList ('%' :: rest)) :
    ∃ s ∈ (ofLines lines).statements, s.line = l.2 ∧ s.isComment := by
  obtain ⟨text, n⟩ := l
  have hread : Statement.read n text =
      .ok ⟨n, text, .comment (String.ofList (trimChars rest))⟩ := by
    rw [Statement.read, trimsTo_iff.1 hrest, Statement.command?]
  let s : Statement := ⟨n, text, .comment (String.ofList (trimChars rest))⟩
  refine ⟨s, mem_statements_iff.2 ⟨hl, fun hspace => ?_, ?_⟩, rfl, rfl⟩
  · obtain ⟨front, back, htext, -⟩ := hrest
    have hmem : '%' ∈ text.toList := by
      rw [htext]
      exact List.mem_append_left _ (List.mem_append_right _ List.mem_cons_self)
    exact absurd (hspace '%' hmem) (by decide)
  · rw [Statement.readOrUnknown, hread]

theorem isReadingOf_ofLines (lines : List String) : (ofLines lines).IsReadingOf lines where
  lineCount_eq := rfl
  lines_eq := by
    rw [ofLines, numberedLines_eq, List.map_map, List.map_map]
    refine (List.map_congr_left fun l _ => ?_).trans (List.map_id _)
    simp [Statement.text_readOrUnknown, Statement.line_readOrUnknown]
  ascending := by
    rw [ofLines, List.pairwise_map]
    simp only [Statement.line_readOrUnknown]
    exact (pairwise_numberedLines 1 lines).2
  line_le := by
    intro s hs
    obtain ⟨hlow, hhigh, -⟩ := List.mem_zipIdx (mem_statements_iff.1 hs).1
    rw [Nat.add_comm] at hhigh
    exact ⟨hlow, Nat.le_of_lt_succ hhigh⟩
  read_eq := by
    intro s hs
    rcases read_eq_or_isUnknown hs with ⟨hread, hknown⟩ | ⟨hread, hunknown⟩
    · exact Or.inl ⟨hread, of_decide_eq_false hknown⟩
    · exact Or.inr ⟨⟨_, hread⟩, of_decide_eq_true hunknown⟩
  errors := by
    rw [errors_ofLines, List.forall₂_map_right_iff, List.forall₂_same]
    intro s hs
    exact Statement.isRefusedAs_refusal (mem_statements_iff.1 (List.mem_of_mem_filter hs)).2.1
  comment := by
    intro l hl rest hrest
    obtain ⟨s, hs, hline, hcomment⟩ := exists_isComment hl hrest
    refine ⟨⟨s, hs, hline, hcomment⟩, ?_⟩
    intro d hd hdline
    rw [errors_ofLines] at hd
    obtain ⟨t, ht, rfl⟩ := List.mem_map.1 hd
    obtain ⟨ht, hunknown⟩ := List.mem_filter.1 ht
    have hnodup := nodup_line_ofLines lines
    obtain rfl := List.inj_on_of_nodup_map hnodup ht hs (hdline.trans hline.symm)
    rw [Statement.isComment, of_decide_eq_true hunknown] at hcomment
    cases hcomment
  isValid_iff := by
    rw [isValid, List.isEmpty_iff, errors_ofLines, List.map_eq_nil_iff, List.filter_eq_nil_iff]
    exact forall₂_congr fun s _ => not_congr decide_eq_true_iff
  warnings_eq := rfl
  count_eq := by
    rw [errors_ofLines, List.length_map]
    exact Statement.length_eq_add _

/-- A text is made of its lines in one way, and read from these. -/
theorem exists_isReadingOf (text : String) :
    ∃ lines, (∀ ls, HasLines text.toList (ls.map String.toList) ↔ ls = lines) ∧
      (read text).IsReadingOf lines :=
  ⟨lines text, fun _ => hasLines_iff, isReadingOf_ofLines (lines text)⟩

end Script

end FlightScript
