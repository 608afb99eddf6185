import FlightScript.Proofs.Engine.Snapshot
import FlightScript.Proofs.Engine.Stopping
import FlightScript.Proofs.Validation.ControlFlow

/-!
# The log of a job

The log of a completed job has one line for each of its statements that is not of the control
flow, in the order of the statements. Control flow has no part in anything else either: not in
the errors of validation, and not in what a run leaves behind.
-/

namespace FlightScript

namespace Statement

theorem countP_writes {l : List Statement} (h : ∀ s ∈ l, s.isExecutable) :
    l.countP writes = (withoutControlFlow l).length := by
  rw [withoutControlFlow, ← List.countP_eq_length_filter]
  refine List.countP_congr fun s hs => ?_
  rw [writes_eq, h s hs, Bool.true_and]

end Statement

theorem Job.EndsAfter.exists_of_completed {j : Job} {step : Float} {statements : List Statement}
    {k : Nat} (h : j.EndsAfter step statements k) (hstatus : j.status = .completed) :
    ∃ b, Bindings.empty.executeAll step statements = .ok b ∧ j.log = b.log := by
  cases h with
  | completed hall hsummary => exact ⟨_, hall, congrArg Summary.log hsummary⟩
  | failed _ _ hsummary => cases hstatus.symm.trans (congrArg Summary.status hsummary)
  | cancelled _ _ hsummary => cases hstatus.symm.trans (congrArg Summary.status hsummary)

namespace Engine

variable {e : Engine}

/-- A command that succeeds appends one line to the log, or it is one that changes nothing at
all. Statements of the control flow may be left out or put in: the errors of validation, what a
run leaves behind and what its record says of that stay the same. After some of the statements
of a completed job its log held as many lines as there are statements among them that are not
of the control flow, namely the first ones of the log that it has in the end. -/
theorem log_of_completed (he : e.Reachable) {submission : Operation} {text : String}
    (hs : e.submitted? submission = some text) (hv : (validate text).isValid) :
    let statements := (Script.read text).executable
    (∀ (b b' : Bindings) step c,
      (c.writes → b.execute step c = (b', none) → ∃ line, b'.log = b.log ++ [line]) ∧
        (c.writes = false → b.execute step c = (b, none))) ∧
    (∀ l l', Statement.withoutControlFlow l = Statement.withoutControlFlow l' →
      (Validation.ofStatements l).errors = (Validation.ofStatements l').errors ∧
      ∀ step, (∀ b : Bindings, b.leaves step l = b.leaves step l') ∧
        (Summary.ofSequence step (l.filter Statement.isExecutable)).results =
          (Summary.ofSequence step (l'.filter Statement.isExecutable)).results) ∧
    ∃ e' queued, e.apply submission = (e', .job queued) ∧
      ∀ between, Operation.wait queued.id ∉ between →
        ∃ record, ((e'.after between).apply (.wait queued.id)).2 = .job record ∧
          record.origin = queued.origin ∧
          (record.status = .completed →
            record.log.length = (Statement.withoutControlFlow statements).length ∧
            ∀ before rest, statements = before ++ rest →
              ∃ b, Bindings.empty.executeAll e.defaultStep before = .ok b ∧
                b.log = record.log.take (Statement.withoutControlFlow before).length) := by
  intro statements
  refine ⟨?_, ?_, ?_⟩
  · intro b b' step c
    exact ⟨Bindings.exists_line_of_writes, Bindings.execute_of_not_writes b step⟩
  · intro l l' h
    refine ⟨?_, fun step => ⟨?_, ?_⟩⟩
    · rw [← Validation.errors_withoutControlFlow l, h, Validation.errors_withoutControlFlow]
    · exact fun b => Bindings.leaves_eq_of_withoutControlFlow_eq h b step
    · have hexecutable : Statement.withoutControlFlow (l.filter Statement.isExecutable) =
          Statement.withoutControlFlow (l'.filter Statement.isExecutable) := by
        rw [Statement.withoutControlFlow_filter, h, Statement.withoutControlFlow_filter]
      rw [Summary.results_ofSequence, Summary.results_ofSequence,
        Bindings.leaves_eq_of_withoutControlFlow_eq hexecutable]
  · obtain ⟨queued, hreply, hqueued⟩ := exists_queued he.numbered hs hv
    refine ⟨_, queued, Prod.ext rfl hreply, fun between hwait => ?_⟩
    obtain ⟨record, hrecord, horigin, front, r, done, -, hends⟩ := hqueued.exists_record hwait
    refine ⟨record, hrecord, horigin, fun hstatus => ?_⟩
    obtain ⟨k, hk⟩ := hends.exists_endsAfter
    rw [defaultStep_run, defaultStep_apply] at hk
    obtain ⟨c, hall, hlog⟩ := hk.exists_of_completed hstatus
    have hexecutable : ∀ s ∈ statements, s.isExecutable := fun s hs => (List.mem_filter.1 hs).2
    constructor
    · obtain ⟨lines, hlines, hlength⟩ := Bindings.exists_lines_of_executeAll hall
      rw [hlog, hlines, ← Statement.countP_writes hexecutable, ← hlength]
      rfl
    · intro before rest hsplit
      have hbefore : ∀ s ∈ before, s.isExecutable := fun s hs =>
        hexecutable s (hsplit ▸ List.mem_append_left rest hs)
      have hparts : Bindings.empty.executeAll e.defaultStep (before ++ rest) = .ok c :=
        hsplit ▸ hall
      rw [hlog, ← Statement.countP_writes hbefore]
      exact Bindings.exists_log_eq_take hparts

/-- A job with a block in it. Without the block it leaves the same behind. -/
theorem log_of_completed_with_block :
    let text := "n = 1\nIf n > 0\n% one\nReport n\nElse\nSave n\nEndIf"
    ∃ record,
      ((((create 60 .channel false).apply (.submit text "ann" none none)).1.after [.round]).apply
          (.wait (.numbered 0))).2 = .job record ∧
        record.log.length = 3 ∧
        (∃ b, Bindings.empty.executeAll 60 ((Script.read text).executable.take 3) = .ok b ∧
          b.log = record.log.take 2) ∧
        Bindings.empty.leaves 60 (Script.read text).executable =
          Bindings.empty.leaves 60
            (Statement.withoutControlFlow (Script.read text).executable) := by
  intro text
  have hreachable : (create 60 .channel false).Reachable := ⟨60, .channel, false, [], rfl⟩
  have hsubmitted : (create 60 .channel false).submitted? (.submit text "ann" none none) =
      some text := rfl
  obtain ⟨-, hinert, e', queued, hsubmit, hdelivered⟩ :=
    log_of_completed hreachable hsubmitted (by decide +kernel)
  obtain rfl : Job.create (.numbered 0) "ann" none = queued :=
    Reply.job.inj ((by decide +kernel : _ = _).symm.trans (congrArg Prod.snd hsubmit))
  obtain rfl := congrArg Prod.fst hsubmit
  obtain ⟨record, hrecord, -, hlog⟩ := hdelivered [.round] (by decide)
  have hstatus : (match Reply.job record with | .job j => j.status | _ => .queued) = .completed :=
    hrecord ▸ (by decide +kernel)
  obtain ⟨hlength, htake⟩ := hlog hstatus
  have hblock : Statement.withoutControlFlow (Script.read text).executable =
      Statement.withoutControlFlow (Statement.withoutControlFlow (Script.read text).executable) :=
    by decide +kernel
  have hthree : (Statement.withoutControlFlow (Script.read text).executable).length = 3 := by
    decide +kernel
  have htwo : (Statement.withoutControlFlow ((Script.read text).executable.take 3)).length = 2 := by
    decide +kernel
  obtain ⟨b, hb, hlines⟩ := htake _ _ (List.take_append_drop 3 _).symm
  rw [htwo] at hlines
  exact ⟨record, hrecord, hlength.trans hthree, ⟨b, hb, hlines⟩,
    ((hinert _ _ hblock).2 60).1 .empty⟩

end Engine

end FlightScript
