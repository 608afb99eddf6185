import FlightScript.Proofs.Engine.Roster
import FlightScript.Proofs.Run.Count

/-!
# What is seen of a job

A job that has not ended shows how many of its statements are executed, and they are the first
ones of its script (`IsQueued.reaches_take`). Its final record is made of a number of them
(`EndsAs.exists_endsAfter`).
-/

namespace FlightScript

namespace Engine

variable {e : Engine} {id : JobId} {statements : List Statement}

theorem EndsAs.exists_endsAfter {r : Run} {done : List Statement} {j : Job}
    (h : e.EndsAs r statements done j) :
    ∃ k, j.EndsAfter e.defaultStep statements k := by
  have hsummary := h.summary_eq
  by_cases hstop : r.pending ≠ [] ∧ e.isCancelled r
  · rw [if_pos hstop, h.reaches.eq_take] at hsummary
    have hdone := h.reaches.executeAll_eq
    rw [h.reaches.eq_take] at hdone
    exact ⟨r.executed, .cancelled (h.reaches.executed_lt hstop.1) hdone hsummary⟩
  · rw [if_neg hstop] at hsummary
    cases hall : Bindings.empty.executeAll e.defaultStep statements with
    | ok b =>
        rw [Summary.ofSequence_of_ok hall] at hsummary
        exact ⟨_, .completed hall hsummary⟩
    | error f =>
        rw [Summary.ofSequence_of_error hall] at hsummary
        obtain ⟨⟨rest, hsplit⟩, -, -⟩ := Bindings.executeAll_eq_error_iff.1 hall
        have hlt : f.before.length < statements.length := by simp [hsplit]
        exact ⟨_, .failed hlt hall hsummary⟩

namespace IsQueued

variable {queued : Job} {follows : Option Nat}

theorem reaches_take (h : e.IsQueued queued statements follows) {moves : List Move} {r : Run}
    (hr : r ∈ (e.run moves).active) (hid : r.job.id = queued.id) :
    r.job.origin = queued.origin ∧
      r.Reaches e.defaultStep statements (statements.take r.executed) := by
  have hdone : r.job.origin = queued.origin ∧
      ∃ done, r.Reaches e.defaultStep statements done := by
    -- a turn lengthens what is reached, and other moves change the token at most
    have hgiven : e.HasGiven queued.id := h.hasToken.exists_number
    refine hgiven.of_mem_active_run (P := fun _ r => r.job.origin = queued.origin ∧
        ∃ done, r.Reaches e.defaultStep statements done)
      (fun r hr hid => ?_) (fun moves r hr _ hp r' hturn => ?_) (fun _ _ _ r t hp => ?_)
      moves r hr hid
    · obtain ⟨r₀, hr₀, horigin, done, hreach⟩ := h.isUnderWay
      rw [h.numbered.eq_of_id_eq hr hr₀ (hid.trans (congrArg Prod.fst horigin).symm)]
      exact ⟨horigin, done, hreach⟩
    · obtain ⟨horigin, done, hreach⟩ := hp
      have hturned := (e.run moves).origin_turn r
      rw [hturn] at hturned
      rw [← e.defaultStep_run moves] at hreach ⊢
      obtain ⟨s, hreach'⟩ := hreach.of_turn hturn
      exact ⟨hturned.trans horigin, _, hreach'⟩
    · obtain ⟨horigin, done, hreach⟩ := hp
      exact ⟨horigin, done, hreach.withToken t⟩
  obtain ⟨horigin, done, hreach⟩ := hdone
  exact ⟨horigin, hreach.eq_take ▸ hreach⟩

end IsQueued

end Engine

end FlightScript
