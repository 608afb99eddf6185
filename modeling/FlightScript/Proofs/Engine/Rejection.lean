import FlightScript.Proofs.Engine.Roster

/-!
# Rejected scripts

The script of a submission that is answered with a rejected job is not valid, and the name
of that job was given to no other (`moves_of_rejected`). So no history starts a job of that
name, neither before the rejection nor after it (`not_hasStarted_of_rejected`).
-/

namespace FlightScript

namespace Engine

variable {e : Engine}

theorem of_submit_eq_rejected {text user : String} {script : Option String}
    {follows : Option Nat} {rejected : Job}
    (h : (Reply.ofExcept Reply.job (e.submit text user script follows).2) =
      .failed (.validationFailed rejected)) :
    ¬ (validate text).isValid ∧ rejected.id = .numbered e.created := by
  cases hv : (validate text).isValid with
  | true =>
      rw [submit_of_valid hv] at h
      cases h
  | false =>
      rw [submit_snd_of_not_valid hv] at h
      cases h
      exact ⟨Bool.false_ne_true, rfl⟩

theorem savedScript_ne_rejected (e : Engine) (id user : String) (rejected : Job) :
    e.savedScript id user ≠ .error (.validationFailed rejected) := by
  intro h
  rw [savedScript] at h
  split at h
  · split at h
    · cases h
    · split at h <;> cases h
  · cases h

/-- A script that is rejected is one submission, and its job is not queued. -/
theorem moves_of_rejected {operation : Operation} {rejected : Job}
    (h : (e.apply operation).2 = .failed (.validationFailed rejected)) :
    ∃ text user script follows, e.moves operation = [.submit text user script follows] ∧
      ¬ (validate text).isValid ∧ rejected.id = .numbered e.created := by
  cases operation with
  | submit text user script follows =>
      exact ⟨text, user, script, _, rfl, of_submit_eq_rejected h⟩
  | submitSaved id user =>
      simp only [apply, submitSaved] at h
      cases hs : e.savedScript id user with
      | ok s =>
          rw [hs] at h
          exact ⟨s.content, user, some s.id, none, by simp only [moves, hs],
            of_submit_eq_rejected h⟩
      | error err =>
          rw [hs] at h
          cases h
          exact absurd hs (e.savedScript_ne_rejected id user rejected)
  | status id => cases hf : e.find? id <;> simp [apply, status, hf, Reply.ofExcept] at h
  | wait id =>
      simp only [apply, wait, collect] at h
      split at h <;> simp [Reply.ofExcept] at h
  | cancel id => cases hf : e.find? id <;> simp [apply, cancel, hf, Reply.ofExcept] at h
  | save s => cases hl : e.library.add s <;> simp [apply, hl] at h
  | resave s => cases hl : e.library.update s e.clock <;> simp [apply, hl] at h
  | unsave id => cases hl : e.library.delete id <;> simp [apply, hl] at h
  | _ => cases h

theorem not_hasStarted_of_rejected {start : Engine} {before rest : List Operation}
    {operation : Operation} {rejected : Job}
    (h : ((start.after before).apply operation).2 = .failed (.validationFailed rejected)) :
    ¬ start.HasStarted (before ++ operation :: rest) rejected.id := by
  obtain ⟨text, user, script, follows, hmoves, hv, hid⟩ := moves_of_rejected h
  rw [← mem_queues_trace_iff, trace_append, trace, along_append, run_trace, along_append,
    run_moves, hmoves, hid, List.mem_append, List.mem_append]
  rintro (hbefore | hnow | hrest)
  · have hgiven := hasGiven_of_mem_queues hbefore
    rw [run_trace] at hgiven
    exact not_hasGiven_numbered _ hgiven
  · rw [along, along, List.append_nil, queues, if_neg hv] at hnow
    exact List.not_mem_nil hnow
  · obtain ⟨n, hn, heq⟩ := (queues_nodup _ _).1 _ hrest
    cases heq
    rw [← run_moves, hmoves, run, List.foldl_cons, List.foldl_nil, move, created_submit] at hn
    exact Nat.not_succ_le_self _ hn

end Engine

end FlightScript
