import FlightScript.Proofs.Run.Ending

/-!
# How many statements are executed

A run that reaches some of its statements has executed as many of them as it counts, and
those are the first ones (`Reaches.eq_take`). A turn that ends it executes none, so that the
final record is made of just as many (`Reaches.endsAfter_of_turn`): of all statements if the
job is completed, and of fewer if the next one failed or the job was stopped before it.
-/

namespace FlightScript

/-- A final record after a number of statements: all of them if the job is completed, and
fewer if the next one failed or the job was stopped before it. -/
inductive Job.EndsAfter (j : Job) (step : Float) (statements : List Statement) : Nat → Prop where
  | completed {b : Bindings} (hall : Bindings.empty.executeAll step statements = .ok b)
      (hsummary : j.summary = .completed statements b) :
      EndsAfter j step statements statements.length
  | failed {f : Bindings.Failure} (hlt : f.before.length < statements.length)
      (hall : Bindings.empty.executeAll step statements = .error f)
      (hsummary : j.summary = .failed statements.length f) :
      EndsAfter j step statements f.before.length
  | cancelled {k : Nat} {b : Bindings} (hlt : k < statements.length)
      (hdone : Bindings.empty.executeAll step (statements.take k) = .ok b)
      (hsummary : j.summary = .cancelled statements.length (statements.take k) b) :
      EndsAfter j step statements k

namespace Job.EndsAfter

variable {j : Job} {step : Float} {statements : List Statement} {k : Nat}

theorem le_length (h : j.EndsAfter step statements k) : k ≤ statements.length := by
  cases h with
  | completed => exact Nat.le_refl _
  | failed hlt => exact Nat.le_of_lt hlt
  | cancelled hlt => exact Nat.le_of_lt hlt

theorem isFinal (h : j.EndsAfter step statements k) : j.status.isFinal := by
  have hstatus : j.status = .completed ∨ j.status = .failed ∨ j.status = .cancelled := by
    cases h with
    | completed _ hsummary => exact Or.inl (congrArg Summary.status hsummary)
    | failed _ _ hsummary => exact Or.inr (Or.inl (congrArg Summary.status hsummary))
    | cancelled _ _ hsummary => exact Or.inr (Or.inr (congrArg Summary.status hsummary))
  rcases hstatus with hs | hs | hs <;> rw [hs] <;> rfl

end Job.EndsAfter

namespace Run.Reaches

variable {r : Run} {step : Float} {statements done : List Statement}

theorem eq_take (h : r.Reaches step statements done) : done = statements.take r.executed := by
  rw [h.split, h.executed_eq, List.take_left]

theorem executed_le (h : r.Reaches step statements done) : r.executed ≤ statements.length := by
  rw [h.split, h.executed_eq, List.length_append]
  exact Nat.le_add_right _ _

theorem executed_lt (h : r.Reaches step statements done) (hp : r.pending ≠ []) :
    r.executed < statements.length := by
  rw [h.split, h.executed_eq, List.length_append]
  exact Nat.lt_add_of_pos_right (List.length_pos_iff.2 hp)

theorem length_pending (h : r.Reaches step statements done) :
    r.pending.length = statements.length - r.executed := by
  rw [← h.total_eq, total, Nat.add_sub_cancel_left]

/-- A turn in which a run goes on executes one statement. -/
theorem executed_of_turn (h : r.Reaches step statements done) {now : Int} {cancelled : Bool}
    {r' : Run} (hturn : (r.turn step now cancelled).1 = .running r') :
    r'.executed = r.executed + 1 ∧
      r'.Reaches step statements (statements.take r'.executed) ∧ r'.job.status = .running := by
  obtain ⟨s, hreach⟩ := h.of_turn hturn
  refine ⟨?_, hreach.eq_take ▸ hreach, (hreach.running_of_ne_nil (by simp)).1⟩
  rw [hreach.executed_eq, h.executed_eq, List.length_append]
  rfl

/-- A turn that ends a run makes a record of the statements that were executed before. -/
theorem endsAfter_of_turn (h : r.Reaches step statements done) {now : Int} {cancelled : Bool}
    {j : Job} (hturn : (r.turn step now cancelled).1 = .ended j) :
    j.EndsAfter step statements r.executed := by
  cases hp : r.pending with
  | nil =>
      obtain ⟨j', hj', hsummary⟩ := h.turn_of_nil hp now cancelled
      obtain rfl : j = j' := Progress.ended.inj (hturn.symm.trans hj')
      obtain rfl : statements = done := by rw [h.split, hp, List.append_nil]
      rw [h.executed_eq]
      exact .completed h.executeAll_eq hsummary
  | cons s rest =>
      have hne : r.pending ≠ [] := by rw [hp]; exact List.cons_ne_nil _ _
      cases cancelled with
      | true =>
          obtain ⟨j', hj', hsummary⟩ := h.turn_of_cancelled hne now
          obtain rfl : j = j' := Progress.ended.inj (hturn.symm.trans hj')
          have hdone := h.executeAll_eq
          rw [h.eq_take] at hdone hsummary
          exact .cancelled (h.executed_lt hne) hdone hsummary
      | false =>
          rcases hs : r.bindings.execute step s.command with ⟨b, _ | e⟩
          · obtain ⟨r', hr', -⟩ := h.turn_of_ok hp hs now
            cases hturn.symm.trans hr'
          · obtain ⟨j', hj', hsummary⟩ := h.turn_of_error hp hs now
            obtain rfl : j = j' := Progress.ended.inj (hturn.symm.trans hj')
            have hall := Bindings.executeAll_append_cons_of_error h.executeAll_eq hs rest
            rw [← hp, ← h.split] at hall
            have hlt := h.executed_lt hne
            rw [h.executed_eq] at hlt ⊢
            exact .failed hlt hall hsummary

end Run.Reaches

namespace Run

/-- The record that a turn ends with tells the time. -/
theorem completedAt_of_turn {r : Run} {step : Float} {now : Int} {cancelled : Bool} {j : Job}
    (hturn : (r.turn step now cancelled).1 = .ended j) : j.completedAt = some now := by
  rcases r.turn_cases step now cancelled with ⟨r', hgo⟩ | ⟨x, ending, -, hend⟩
  · rw [hgo] at hturn
    cases hturn
  · rw [hend] at hturn
    obtain rfl := Progress.ended.inj hturn
    exact congrArg (fun t => t.2.1) (x.times_finish now ending)

end Run

end FlightScript
