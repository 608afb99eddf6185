import FlightScript.Proofs.Execution.Log
import FlightScript.Proofs.Validation.Declaration

/-!
# The control flow and the errors of validation

The errors of validation are about names, and statements of the control flow introduce none and
use none. So they can be left out of a list of statements, or put into it, without a change of
the errors (`errors_withoutControlFlow`); only warnings tell of blocks.
-/

namespace FlightScript

namespace Scope

/-- Two scopes have the same names; their open blocks may differ. -/
structure SameNames (scope scope' : Scope) : Prop where
  objects_eq : scope.objects = scope'.objects
  assigned_eq : scope.assigned = scope'.assigned

def faultsOf (scope : Scope) (c : Command) : List Finding :=
  (scope.findings c).filter (·.severity = .error)

variable {scope scope' : Scope} {s : Statement}

theorem faultsOf_of_isControlFlow (scope : Scope) {c : Command} (h : c.isControlFlow) :
    scope.faultsOf c = [] := by
  cases c with
  | otherwise => exact filter_unlessHolds _ _ .error
  | endIf => exact filter_unlessHolds _ _ .error
  | endWhile => exact filter_unlessHolds _ _ .error
  | ifThen condition => rfl
  | whileDo condition => rfl
  | _ => cases h

theorem sameNames_after_of_isControlFlow (scope : Scope) (h : s.isControlFlow) :
    (scope.after s).SameNames scope := by
  rw [Statement.isControlFlow] at h
  rw [after]
  cases hc : s.command with
  | endIf => exact ⟨(scope.close_eq .ifThen).1, (scope.close_eq .ifThen).2⟩
  | endWhile => exact ⟨(scope.close_eq .whileDo).1, (scope.close_eq .whileDo).2⟩
  | ifThen condition => exact ⟨rfl, rfl⟩
  | whileDo condition => exact ⟨rfl, rfl⟩
  | otherwise => exact ⟨rfl, rfl⟩
  | _ => simp [hc, Command.isControlFlow] at h

namespace SameNames

theorem trans {scope'' : Scope} (h : scope.SameNames scope') (h' : scope'.SameNames scope'') :
    scope.SameNames scope'' :=
  ⟨h.objects_eq.trans h'.objects_eq, h.assigned_eq.trans h'.assigned_eq⟩

theorem symm (h : scope.SameNames scope') : scope'.SameNames scope :=
  ⟨h.objects_eq.symm, h.assigned_eq.symm⟩

theorem faultsOf_eq (h : scope.SameNames scope') (c : Command) :
    scope.faultsOf c = scope'.faultsOf c := by
  by_cases hc : c.isControlFlow
  · rw [faultsOf_of_isControlFlow scope hc, faultsOf_of_isControlFlow scope' hc]
  · cases c with
    | create kind name => rw [faultsOf, faultsOf, findings, findings, h.objects_eq]
    | set object property v =>
        rw [faultsOf, faultsOf, findings, findings, h.objects_eq, h.assigned_eq]
    | propagate propagator spacecraft stop =>
        rw [faultsOf, faultsOf, findings, findings, h.objects_eq]
    | save object => rw [faultsOf, faultsOf, findings, findings, h.objects_eq]
    | report tokens => rfl
    | «variable» name v => rfl
    | comment text => rfl
    | unknown => rfl
    | _ => exact absurd rfl hc

theorem after (h : scope.SameNames scope') (s : Statement) :
    (scope.after s).SameNames (scope'.after s) := by
  by_cases hs : s.isControlFlow
  · exact ((scope.sameNames_after_of_isControlFlow hs).trans h).trans
      (scope'.sameNames_after_of_isControlFlow hs).symm
  · rw [Statement.isControlFlow] at hs
    rw [Scope.after, Scope.after]
    cases hc : s.command with
    | create kind name => exact ⟨congrArg (List.insert name) h.objects_eq, h.assigned_eq⟩
    | «variable» name v => exact ⟨h.objects_eq, congrArg (List.insert name) h.assigned_eq⟩
    | set object property v => exact h
    | propagate propagator spacecraft stop => exact h
    | report tokens => exact h
    | save object => exact h
    | comment text => exact h
    | unknown => exact h
    | _ => simp [hc, Command.isControlFlow] at hs

end SameNames

def errorsOf (scope : Scope) (l : List Statement) : List Diagnostic :=
  (scope.diagnostics l).filter (·.severity = .error)

theorem errorsOf_nil (scope : Scope) : scope.errorsOf [] = [] := by
  rw [errorsOf, diagnostics_nil, List.filter_eq_nil_iff]
  intro d hd
  simp [severity_of_mem_closing hd]

theorem errorsOf_cons (scope : Scope) (s : Statement) (rest : List Statement) :
    scope.errorsOf (s :: rest) =
      (scope.faultsOf s.command).map (fun f => f.diagnostic s.line s.text) ++
        (scope.after s).errorsOf rest := by
  rw [errorsOf, diagnostics_cons, List.filter_append, List.filter_map]
  rfl

theorem SameNames.errorsOf_withoutControlFlow (h : scope.SameNames scope') (l : List Statement) :
    scope.errorsOf (Statement.withoutControlFlow l) = scope'.errorsOf l := by
  induction l generalizing scope scope' with
  | nil => exact (errorsOf_nil scope).trans (errorsOf_nil scope').symm
  | cons s rest ih =>
      by_cases hs : s.isControlFlow
      · rw [Statement.withoutControlFlow, List.filter_cons_of_neg (by simp [hs]), errorsOf_cons,
          faultsOf_of_isControlFlow scope' hs]
        exact ih (h.trans (scope'.sameNames_after_of_isControlFlow hs).symm)
      · rw [Statement.withoutControlFlow, List.filter_cons_of_pos (by simp [hs]), errorsOf_cons,
          errorsOf_cons, h.faultsOf_eq]
        exact congrArg _ (ih (h.after s))

end Scope

namespace Validation

/-- Statements of the control flow have no bearing on the errors. -/
theorem errors_withoutControlFlow (l : List Statement) :
    (ofStatements (Statement.withoutControlFlow l)).errors = (ofStatements l).errors :=
  have hsame : Scope.empty.SameNames .empty := ⟨rfl, rfl⟩
  hsame.errorsOf_withoutControlFlow l

end Validation

end FlightScript
