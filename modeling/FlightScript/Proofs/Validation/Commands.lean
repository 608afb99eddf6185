import FlightScript.Proofs.Validation.Scope

/-!
# What validation reads of a script

Validation reads the commands of the statements that are executed. It passes over
comments, and the line and the text of a statement tell only which place a diagnostic is
about (`content_validate_eq`).
-/

namespace FlightScript

/-- What a diagnostic says, apart from the place that it is about. -/
def Diagnostic.content (d : Diagnostic) : String × String × Severity :=
  (d.code, d.message, d.severity)

namespace Scope

/-- Two scopes differ at most in the statements that have opened their blocks. -/
structure Agrees (scope scope' : Scope) : Prop where
  objects_eq : scope.objects = scope'.objects
  assigned_eq : scope.assigned = scope'.assigned
  blocks_eq : scope.blocks.map Prod.fst = scope'.blocks.map Prod.fst

namespace Agrees

variable {scope scope' : Scope}

theorem isInside_eq (h : scope.Agrees scope') (b : Block) :
    scope.isInside b = scope'.isInside b := by
  rw [isInside, isInside, ← List.head?_map, ← List.head?_map, h.blocks_eq]

theorem findings_eq (h : scope.Agrees scope') (c : Command) :
    scope.findings c = scope'.findings c := by
  cases c <;> simp only [findings, h.objects_eq, h.assigned_eq, h.isInside_eq]

theorem close (h : scope.Agrees scope') (b : Block) : (scope.close b).Agrees (scope'.close b) := by
  rw [Scope.close, Scope.close, h.isInside_eq b]
  by_cases hb : scope'.isInside b
  · rw [if_pos hb, if_pos hb]
    exact ⟨h.objects_eq, h.assigned_eq, by rw [List.map_tail, List.map_tail, h.blocks_eq]⟩
  · rw [if_neg hb, if_neg hb]
    exact h

theorem after (h : scope.Agrees scope') {s s' : Statement} (hs : s.command = s'.command) :
    (scope.after s).Agrees (scope'.after s') := by
  rw [Scope.after, Scope.after, hs]
  cases s'.command with
  | create kind name => exact { h with objects_eq := by rw [h.objects_eq] }
  | «variable» name value => exact { h with assigned_eq := by rw [h.assigned_eq] }
  | ifThen condition =>
      exact { h with blocks_eq := by rw [List.map_cons, List.map_cons, h.blocks_eq] }
  | whileDo condition =>
      exact { h with blocks_eq := by rw [List.map_cons, List.map_cons, h.blocks_eq] }
  | endIf => exact h.close .ifThen
  | endWhile => exact h.close .whileDo
  | _ => exact h

theorem content_closing_eq (h : scope.Agrees scope') :
    scope.closing.map Diagnostic.content = scope'.closing.map Diagnostic.content := by
  have hcontent : ∀ scope : Scope, scope.closing.map Diagnostic.content =
      ((scope.blocks.map Prod.fst).map fun b =>
        ((unclosed b).code, (unclosed b).message, (unclosed b).severity)).reverse := by
    intro scope
    rw [closing, List.map_reverse, List.map_reverse, List.map_map, List.map_map]
    rfl
  rw [hcontent, hcontent, h.blocks_eq]

/-- Statements with the same commands give rise to diagnostics that say the same. -/
theorem content_diagnostics_eq (h : scope.Agrees scope') {l l' : List Statement}
    (hl : l.map Statement.command = l'.map Statement.command) :
    (scope.diagnostics l).map Diagnostic.content =
      (scope'.diagnostics l').map Diagnostic.content := by
  induction l generalizing scope scope' l' with
  | nil =>
      obtain rfl := List.map_eq_nil_iff.1 hl.symm
      exact h.content_closing_eq
  | cons s rest ih =>
      obtain ⟨s', rest', rfl, hs, hrest⟩ := List.map_eq_cons_iff.1 hl.symm
      rw [diagnostics_cons, diagnostics_cons, List.map_append, List.map_append,
        ih (h.after hs.symm) hrest.symm, hs, h.findings_eq, List.map_map, List.map_map]
      rfl

end Agrees

theorem diagnostics_filter_isExecutable (scope : Scope) (l : List Statement) :
    scope.diagnostics (l.filter Statement.isExecutable) = scope.diagnostics l := by
  induction l generalizing scope with
  | nil => rfl
  | cons s rest ih =>
      cases hs : s.isExecutable with
      | true => rw [List.filter_cons_of_pos hs, diagnostics_cons, diagnostics_cons, ih]
      | false =>
          have hfound : scope.findings s.command = [] := by
            rw [Statement.isExecutable] at hs
            cases hc : s.command <;> simp_all [Command.isExecutable, findings]
          rw [List.filter_cons_of_neg (by simp [hs]), ih, diagnostics_cons,
            after_of_not_isExecutable hs, hfound]
          rfl

end Scope

namespace Validation

theorem content_ofDiagnostics_eq {ds ds' : List Diagnostic}
    (h : ds.map Diagnostic.content = ds'.map Diagnostic.content) :
    (ofDiagnostics ds).errors.map Diagnostic.content =
        (ofDiagnostics ds').errors.map Diagnostic.content ∧
      (ofDiagnostics ds).warnings.map Diagnostic.content =
        (ofDiagnostics ds').warnings.map Diagnostic.content := by
  have hfilter : ∀ ds : List Diagnostic, ∀ severity,
      (ds.filter (·.severity = severity)).map Diagnostic.content =
        (ds.map Diagnostic.content).filter (·.2.2 = severity) := by
    intro ds severity
    rw [List.filter_map]
    rfl
  simp only [ofDiagnostics, hfilter, h, and_self]

theorem isValid_eq_of_content {v v' : Validation}
    (h : v.errors.map Diagnostic.content = v'.errors.map Diagnostic.content) :
    v.isValid = v'.isValid := by
  rw [isValid, isValid, ← List.isEmpty_map (f := Diagnostic.content), h, List.isEmpty_map]

end Validation

theorem validate_of_isValid {text : String} (h : (Script.read text).isValid) :
    validate text = Validation.ofStatements (Script.read text).statements := by
  rw [Script.isValid, List.isEmpty_iff] at h
  rw [validate, Validation.ofScript, h]
  rfl

/-- Scripts without refused lines in which the same commands are executed are found to be
the same, apart from the places of what is found. -/
theorem content_validate_eq {text text' : String} (h : (Script.read text).isValid)
    (h' : (Script.read text').isValid)
    (hcommands : (Script.read text).executable.map Statement.command =
      (Script.read text').executable.map Statement.command) :
    (validate text).errors.map Diagnostic.content =
        (validate text').errors.map Diagnostic.content ∧
      (validate text).warnings.map Diagnostic.content =
        (validate text').warnings.map Diagnostic.content := by
  have hsame := Scope.Agrees.content_diagnostics_eq
    (⟨rfl, rfl, rfl⟩ : Scope.empty.Agrees Scope.empty) hcommands
  rw [Script.executable, Script.executable, Scope.diagnostics_filter_isExecutable,
    Scope.diagnostics_filter_isExecutable] at hsame
  rw [validate_of_isValid h, validate_of_isValid h', Validation.ofStatements,
    Validation.ofStatements]
  exact Validation.content_ofDiagnostics_eq hsame

end FlightScript
