import FlightScript.Validation
import Mathlib.Data.List.Basic
import Mathlib.Data.List.Nodup

/-!
# What validation finds

Validation carries a scope along the statements of a script. What it finds at a
statement depends on the scope that the statements before it make,
`Scope.empty.afterAll before`, and `mem_diagnostics_iff` says that nothing is found
otherwise, but for the blocks that are open at the end. The lines of a script have
different numbers, so that a diagnostic with the number of a line is about the
statement of that line (`eq_of_line_eq`).
-/

namespace FlightScript

namespace Scope

def afterAll (scope : Scope) (statements : List Statement) : Scope :=
  statements.foldl after scope

@[simp] theorem afterAll_nil (scope : Scope) : scope.afterAll [] = scope := rfl

theorem afterAll_cons (scope : Scope) (s : Statement) (rest : List Statement) :
    scope.afterAll (s :: rest) = (scope.after s).afterAll rest := rfl

theorem after_of_not_isExecutable {scope : Scope} {s : Statement}
    (h : s.isExecutable = false) : scope.after s = scope := by
  rw [Statement.isExecutable] at h
  rw [after]
  cases hc : s.command with
  | comment text => rfl
  | unknown => rfl
  | _ => simp [hc, Command.isExecutable] at h

/-- A diagnostic is about a statement, in the scope of the statements before it, or
about a block that is open at the end. -/
theorem mem_diagnostics_iff {scope : Scope} {statements : List Statement} {d : Diagnostic} :
    d ∈ scope.diagnostics statements ↔
      (∃ before s rest, statements = before ++ s :: rest ∧
        ∃ f ∈ (scope.afterAll before).findings s.command, f.diagnostic s.line s.text = d) ∨
      d ∈ (scope.afterAll statements).closing := by
  induction statements generalizing scope with
  | nil =>
      rw [diagnostics_nil, afterAll_nil]
      constructor
      · exact Or.inr
      · rintro (⟨before, s, rest, hsplit, -⟩ | hd)
        · exact absurd hsplit.symm (by simp)
        · exact hd
  | cons s rest ih =>
      rw [diagnostics_cons, List.mem_append, List.mem_map, ih, afterAll_cons]
      constructor
      · rintro (hd | ⟨before, s', rest', rfl, hd⟩ | hd)
        · exact Or.inl ⟨[], s, rest, rfl, hd⟩
        · exact Or.inl ⟨s :: before, s', rest', rfl, hd⟩
        · exact Or.inr hd
      · rintro (⟨before, s', rest', hsplit, hd⟩ | hd)
        · cases before with
          | nil =>
              obtain ⟨rfl, rfl⟩ := List.cons.inj hsplit
              exact Or.inl hd
          | cons s₀ before =>
              obtain ⟨rfl, rfl⟩ := List.cons.inj hsplit
              exact Or.inr (Or.inl ⟨before, s', rest', rfl, hd⟩)
        · exact Or.inr (Or.inr hd)

theorem code_of_mem_closing {scope : Scope} {d : Diagnostic} (h : d ∈ scope.closing) :
    d.code = "SW003" := by
  obtain ⟨⟨block, s⟩, -, rfl⟩ := List.mem_map.1 h
  cases block with
  | ifThen => rfl
  | whileDo => rfl

theorem mem_unlessHolds {holds : Bool} {f g : Finding} :
    f ∈ unlessHolds holds g ↔ holds = false ∧ f = g := by
  cases holds <;> simp [unlessHolds]

/-- A duplicate is found at a statement that creates an object whose name is in use,
and nowhere else. -/
theorem duplicateObject_mem_findings_iff {scope : Scope} {c : Command} {name : String} :
    Finding.duplicateObject name ∈ scope.findings c ↔
      (∃ kind, c = .create kind name) ∧ name ∈ scope.objects := by
  cases c with
  | create kind other =>
      rw [findings, mem_unlessHolds, decide_eq_false_iff_not, not_not]
      constructor
      · rintro ⟨hmem, hname⟩
        obtain rfl := Finding.duplicateObject.inj hname
        exact ⟨⟨kind, rfl⟩, hmem⟩
      · rintro ⟨⟨kind', hcreate⟩, hmem⟩
        obtain ⟨-, rfl⟩ := Command.create.inj hcreate
        exact ⟨hmem, rfl⟩
  | _ => simp [findings, mem_unlessHolds]

end Scope

theorem Finding.eq_duplicateObject_of_code {f : Finding} (h : f.code = "SW001") :
    ∃ name, f = .duplicateObject name := by
  cases f with
  | duplicateObject name => exact ⟨name, rfl⟩
  | _ => simp [code] at h

theorem Statement.line_readOrUnknown (line : Nat) (text : String) :
    (readOrUnknown line text).line = line := by
  rw [readOrUnknown]
  cases h : read line text with
  | ok s => exact (read_ok h).1
  | error e => rfl

namespace Script

theorem pairwise_numberedLines (n : Nat) (ls : List String) :
    (∀ l ∈ numberedLines n ls, n ≤ l.1) ∧
      (numberedLines n ls).Pairwise (fun l m => l.1 < m.1) := by
  induction ls generalizing n with
  | nil => exact ⟨fun _ hl => absurd hl List.not_mem_nil, List.Pairwise.nil⟩
  | cons text rest ih =>
      obtain ⟨hle, hlt⟩ := ih (n + 1)
      by_cases hempty : isEmptyLine text
      · rw [numberedLines, if_pos hempty]
        exact ⟨fun l hl => Nat.le_of_succ_le (hle l hl), hlt⟩
      · rw [numberedLines, if_neg hempty]
        refine ⟨?_, List.Pairwise.cons hle hlt⟩
        intro l hl
        rcases List.mem_cons.1 hl with rfl | hl
        · exact Nat.le_refl n
        · exact Nat.le_of_succ_le (hle l hl)

theorem nodup_line_ofLines (lines : List String) :
    ((ofLines lines).statements.map Statement.line).Nodup := by
  have hlines : (ofLines lines).statements.map Statement.line =
      (numberedLines 1 lines).map Prod.fst := by
    rw [ofLines, List.map_map]
    apply List.map_congr_left
    intro l _
    exact Statement.line_readOrUnknown l.1 l.2
  rw [hlines, List.Nodup, List.pairwise_map]
  exact (pairwise_numberedLines 1 _).2.imp Nat.ne_of_lt

/-- The number of a line tells its statement and the statements before it. -/
theorem eq_of_line_eq {text : String} {before before' rest rest' : List Statement}
    {s s' : Statement} (h : (read text).statements = before ++ s :: rest)
    (h' : (read text).statements = before' ++ s' :: rest') (hline : s.line = s'.line) :
    before = before' ∧ s = s' := by
  have hnodup : ((read text).statements.map Statement.line).Nodup :=
    nodup_line_ofLines (Text.lines text)
  have hmem : s ∈ (read text).statements := h ▸ List.mem_append_right _ (List.mem_cons_self)
  have hmem' : s' ∈ (read text).statements := h' ▸ List.mem_append_right _ (List.mem_cons_self)
  obtain rfl := List.inj_on_of_nodup_map hnodup hmem hmem' hline
  have hsplit := hnodup.of_map
  rw [h, List.nodup_middle, List.nodup_cons, List.mem_append, not_or] at hsplit
  obtain ⟨hbefore, -, -⟩ :=
    (List.append_cons_inj_of_notMem hsplit.1.1 hsplit.1.2).1 (h.symm.trans h')
  exact ⟨hbefore, rfl⟩

end Script

theorem severity_of_isValid {text : String} (hv : (validate text).isValid)
    {before rest : List Statement} {s : Statement}
    (h : (Script.read text).statements = before ++ s :: rest) {f : Finding}
    (hf : f ∈ (Scope.empty.afterAll before).findings s.command) : f.severity ≠ .error := by
  intro herror
  have hd : f.diagnostic s.line s.text ∈
      Scope.empty.diagnostics (Script.read text).statements :=
    Scope.mem_diagnostics_iff.2 (Or.inl ⟨before, s, rest, h, f, hf, rfl⟩)
  have hmem : f.diagnostic s.line s.text ∈ (validate text).errors :=
    List.mem_append_right _ (List.mem_filter.2 ⟨hd, decide_eq_true herror⟩)
  rw [Validation.isValid, List.isEmpty_iff] at hv
  rw [hv] at hmem
  exact absurd hmem List.not_mem_nil

/-- A statement that creates an object is warned of just if the name is in use. -/
theorem exists_duplicate_warning_iff {text : String} {before rest : List Statement}
    {s : Statement} (h : (Script.read text).statements = before ++ s :: rest)
    {kind name : String} (hs : s.command = .create kind name) :
    (∃ w ∈ (validate text).warnings, w.line = s.line ∧ w.code = "SW001") ↔
      name ∈ (Scope.empty.afterAll before).objects := by
  constructor
  · rintro ⟨w, hw, hline, hcode⟩
    have hd : w ∈ Scope.empty.diagnostics (Script.read text).statements :=
      (List.mem_filter.1 hw).1
    rcases Scope.mem_diagnostics_iff.1 hd with ⟨before', s', rest', h', f, hf, rfl⟩ | hclosing
    · obtain ⟨other, rfl⟩ := Finding.eq_duplicateObject_of_code hcode
      obtain ⟨rfl, rfl⟩ := Script.eq_of_line_eq h' h hline
      obtain ⟨⟨kind', hcreate⟩, hother⟩ := Scope.duplicateObject_mem_findings_iff.1 hf
      obtain ⟨-, rfl⟩ := Command.create.inj (hs.symm.trans hcreate)
      exact hother
    · rw [Scope.code_of_mem_closing hclosing] at hcode
      exact absurd hcode (by decide)
  · intro hname
    have hf : Finding.duplicateObject name ∈
        (Scope.empty.afterAll before).findings s.command :=
      Scope.duplicateObject_mem_findings_iff.2 ⟨⟨kind, hs⟩, hname⟩
    have hd : (Finding.duplicateObject name).diagnostic s.line s.text ∈
        Scope.empty.diagnostics (Script.read text).statements :=
      Scope.mem_diagnostics_iff.2 (Or.inl ⟨before, s, rest, h, _, hf, rfl⟩)
    exact ⟨_, List.mem_filter.2 ⟨hd, rfl⟩, rfl, rfl⟩

end FlightScript
