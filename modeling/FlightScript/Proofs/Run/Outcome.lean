import FlightScript.Proofs.Run.Summary
import FlightScript.Proofs.Validation.Commands

/-!
# Outcomes

The outcome of a run is what its final record says apart from places in the script: from
line numbers, columns and the text of lines. It depends on the commands that are executed
only (`outcome_ofSequence_eq`, `outcome_cancelled_eq`).
-/

namespace FlightScript

/-- What a record says about the run of its job, apart from places in the script. -/
structure Job.Outcome where
  status : Status
  progress : Float
  values : Table Value
  log : List String
  errors : List (String × String × Severity)
  deriving DecidableEq

def Summary.outcome (s : Summary) : Job.Outcome where
  status := s.status
  progress := s.progress
  values := s.values
  log := s.log
  errors := s.errors.map Diagnostic.content

def Job.outcome (j : Job) : Job.Outcome :=
  j.summary.outcome

namespace Bindings

/-- Two sequences fail at the same place, with the same error. -/
structure Failure.Agrees (f f' : Failure) : Prop where
  length_eq : f.before.length = f'.before.length
  bindings_eq : f.bindings = f'.bindings
  error_eq : f.error = f'.error

theorem Failure.Agrees.after {f f' : Failure} (h : f.Agrees f') (s s' : Statement) :
    (f.after [s]).Agrees (f'.after [s']) where
  length_eq := congrArg (· + 1) h.length_eq
  bindings_eq := h.bindings_eq
  error_eq := h.error_eq

/-- Statements with the same commands are executed to the same end, or fail alike. -/
theorem executeAll_cases_of_commands (b : Bindings) (step : Float) {l l' : List Statement}
    (hl : l.map Statement.command = l'.map Statement.command) :
    (∃ c, b.executeAll step l = .ok c ∧ b.executeAll step l' = .ok c) ∨
      ∃ f f', b.executeAll step l = .error f ∧ b.executeAll step l' = .error f' ∧ f.Agrees f' := by
  induction l generalizing b l' with
  | nil =>
      obtain rfl := List.map_eq_nil_iff.1 hl.symm
      exact Or.inl ⟨b, rfl, rfl⟩
  | cons s rest ih =>
      obtain ⟨s', rest', rfl, hs, hrest⟩ := List.map_eq_cons_iff.1 hl.symm
      rcases hexec : b.execute step s.command with ⟨c, _ | error⟩
      · rw [executeAll_cons_of_ok hexec, executeAll_cons_of_ok (hs ▸ hexec)]
        rcases ih c hrest.symm with ⟨d, hok, hok'⟩ | ⟨f, f', hf, hf', hagrees⟩
        · rw [hok, hok']
          exact Or.inl ⟨d, rfl, rfl⟩
        · rw [hf, hf']
          exact Or.inr ⟨_, _, rfl, rfl, hagrees.after s s'⟩
      · rw [executeAll_cons_of_error hexec, executeAll_cons_of_error (hs ▸ hexec)]
        exact Or.inr ⟨_, _, rfl, rfl, ⟨rfl, rfl, rfl⟩⟩

end Bindings

namespace Summary

variable {l l' : List Statement}

theorem outcome_failed_eq {f f' : Bindings.Failure} (h : f.Agrees f') (total : Nat) :
    (failed total f).outcome = (failed total f').outcome := by
  have hcontent : ∀ f : Bindings.Failure, (failed total f).outcome =
      ⟨.failed, progressAfter f.before.length total, f.bindings.values,
        f.bindings.log ++ ["Error: " ++ f.error.message],
        [("SE100", f.error.message, .error)]⟩ := fun _ => rfl
  rw [hcontent, hcontent, h.length_eq, h.bindings_eq, h.error_eq]

/-- The outcome of a run that nothing interrupts depends on the commands only. -/
theorem outcome_ofSequence_eq (step : Float)
    (h : l.map Statement.command = l'.map Statement.command) :
    (ofSequence step l).outcome = (ofSequence step l').outcome := by
  have hlength : l.length = l'.length := by simpa using congrArg List.length h
  rcases Bindings.empty.executeAll_cases_of_commands step h with
    ⟨b, hok, hok'⟩ | ⟨f, f', hf, hf', hagrees⟩
  · rw [ofSequence_of_ok hok, ofSequence_of_ok hok']
    rfl
  · rw [ofSequence_of_error hf, ofSequence_of_error hf', hlength]
    exact outcome_failed_eq hagrees _

theorem outcome_cancelled_eq {done done' : List Statement} (hdone : done.length = done'.length)
    (h : l.length = l'.length) (b : Bindings) :
    (cancelled l.length done b).outcome = (cancelled l'.length done' b).outcome := by
  have hcontent : ∀ total (done : List Statement), (cancelled total done b).outcome =
      ⟨.cancelled, progressAfter done.length total, b.values, b.log, []⟩ := fun _ _ => rfl
  rw [hcontent, hcontent, hdone, h]

end Summary

end FlightScript
