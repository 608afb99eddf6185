import FlightScript.Proofs.Engine.Submission

/-!
# The result of a job

The job that runs a valid script delivers the record of its statements executed one
after the other, whatever else happens to the engine before and while it runs, unless
one of its turns finds that it was told to stop.
-/

namespace FlightScript

namespace Engine

instance (e : Engine) (id : JobId) : Decidable (e.SeesCancelled id) :=
  inferInstanceAs
    (Decidable (∃ r ∈ e.active, r.job.id = id ∧ r.pending ≠ [] ∧ e.isCancelled r))

/-- A job that is never found to be told to stop delivers the record of its
statements executed one after the other. -/
theorem delivered_eq_ofSequence {e : Engine} (he : e.Reachable) {submission : Operation}
    {text : String} (hs : e.submitted? submission = some text)
    (hv : (validate text).isValid) :
    ∃ queued, (e.apply submission).2 = .job queued ∧
      ∀ between, Operation.wait queued.id ∉ between →
        (∀ x ∈ (e.apply submission).1.roundsUntil between queued.id,
          ¬ x.SeesCancelled queued.id) →
        ∃ record,
          (((e.apply submission).1.after between).apply (.wait queued.id)).2 = .job record ∧
            record.origin = queued.origin ∧
            record.summary = .ofSequence e.defaultStep (Script.read text).executable := by
  obtain ⟨queued, hreply, hqueued⟩ := exists_queued he.numbered hs hv
  refine ⟨queued, hreply, ?_⟩
  intro between hwait hsees
  obtain ⟨x, hx, r, done, j, horigin, hends, hdelivered⟩ :=
    exists_endsAs hqueued.numbered hqueued.isUnderWay hwait
  refine ⟨j, hdelivered, hends.origin_eq.trans horigin, ?_⟩
  have hstop : ¬ (r.pending ≠ [] ∧ x.isCancelled r) := by
    rintro ⟨hpending, hcancelled⟩
    exact hsees x hx ⟨r, hends.mem_active, congrArg Prod.fst horigin, hpending, hcancelled⟩
  rw [hends.summary_eq, if_neg hstop, defaultStep_of_mem_roundsUntil hx, defaultStep_apply]

/-- A job whose third statement fails, while another job runs beside it. -/
theorem delivered_of_failing_statement :
    ∃ record,
      ((((create 60 .channel false).apply
          (.submit "n = 1\nCreate Spacecraft Sat\n Sat.X = far\nSave Sat" "ann" none none)).1.after
            [.round, .submit "m = 2" "bob" none none]).apply
              (.wait (.numbered 0))).2 = .job record ∧
        record.summary =
          ⟨.failed,
            [⟨3, 2, "Cannot convert 'far' to number for property X", "SE100", .error⟩],
            50, 3, "Sat.X = far", ⟨[("n", .number 1)], by decide⟩,
            ["Variable n = 1", "Created Spacecraft Sat",
              "Error: Cannot convert 'far' to number for property X"]⟩ := by
  have hreachable : (create 60 .channel false).Reachable := ⟨60, .channel, false, [], rfl⟩
  have hsubmitted : (create 60 .channel false).submitted?
      (.submit "n = 1\nCreate Spacecraft Sat\n Sat.X = far\nSave Sat" "ann" none none) =
        some "n = 1\nCreate Spacecraft Sat\n Sat.X = far\nSave Sat" := rfl
  obtain ⟨queued, hreply, hdelivered⟩ :=
    delivered_eq_ofSequence hreachable hsubmitted (by decide +kernel)
  obtain rfl : Job.create (.numbered 0) "ann" none = queued :=
    Reply.job.inj ((by decide +kernel : _ = _).symm.trans hreply)
  obtain ⟨record, hrecord, -, hsummary⟩ :=
    hdelivered [.round, .submit "m = 2" "bob" none none] (by decide) (by decide +kernel)
  exact ⟨record, hrecord, hsummary.trans (by decide +kernel)⟩

end Engine

end FlightScript
