import FlightScript.Proofs.Engine.Submission

/-!
# Where a job is stopped

A round looks at the token of a job before the next statement, and nobody looks at it
at any other time. A job that is found to be told to stop ends in that round, with the
record of the statements executed so far; after its last statement it completes,
whatever it is told.
-/

namespace FlightScript

theorem ExecutionError.kind_ne_cancelled (e : ExecutionError) :
    e.problem.kind ≠ .cancelled := by
  cases e <;> exact ProblemKind.noConfusion

namespace Engine

/-- Out of some moves, those of `front` lead to a round in which a job has the run
`r`. -/
def IsBoundary (e : Engine) (moves : List Move) (id : JobId) (front : List Move) (r : Run) :
    Prop :=
  (∃ rest, moves = front ++ .round :: rest) ∧ r ∈ (e.run front).active ∧ r.job.id = id

variable {e : Engine} {queued : Job} {statements : List Statement} {follows : Option Nat}

namespace IsQueued

theorem reaches (h : e.IsQueued queued statements follows) {between : List Operation}
    (hw : Operation.wait queued.id ∉ between) {front : List Move} {r : Run}
    (hr : e.IsBoundary (e.movesUntil between queued.id) queued.id front r) :
    ∃ done, r.Reaches (e.run front).defaultStep statements done := by
  obtain ⟨⟨rest, hsplit⟩, hactive, hid⟩ := hr
  have hcollect := collect_not_mem_movesUntil (e := e) hw
  rw [hsplit, List.mem_append, not_or] at hcollect
  exact (exists_reaches h.numbered h.isUnderWay hcollect.1 hactive hid).2

/-- The record of the round that ends a job is the one that waiting gives. -/
theorem mem_ended_of_endsAs (h : e.IsQueued queued statements follows)
    {between : List Operation} (hw : Operation.wait queued.id ∉ between) {record j : Job}
    (hrecord : ((e.after between).apply (.wait queued.id)).2 = .job record)
    {front : List Move} {r : Run} {done : List Statement}
    (hr : e.IsBoundary (e.movesUntil between queued.id) queued.id front r)
    (hends : (e.run front).EndsAs r statements done j) :
    j = record := by
  obtain ⟨⟨rest, hsplit⟩, -, hid⟩ := hr
  have hjob : j.id = queued.id := (congrArg Prod.fst hends.origin_eq).trans hid
  rw [← hjob] at hw hsplit hrecord
  exact Reply.job.inj ((hends.apply_wait_snd h.numbered hw hsplit).symm.trans hrecord)

/-- A job that is asked to stop before its next statement ends there. -/
theorem cancelled_of_isAskedToStop (h : e.IsQueued queued statements follows)
    {between : List Operation} (hw : Operation.wait queued.id ∉ between) {record : Job}
    (hrecord : ((e.after between).apply (.wait queued.id)).2 = .job record)
    {front : List Move} {r : Run} {done : List Statement}
    (hr : e.IsBoundary (e.movesUntil between queued.id) queued.id front r)
    (hreach : r.Reaches (e.run front).defaultStep statements done) (hp : r.pending ≠ [])
    (hask : e.IsAskedToStop queued.id follows front) :
    record ∈ (e.run front).round.ended ∧
      record.summary = .cancelled statements.length done r.bindings := by
  have hc : (e.run front).isCancelled r := (h.hasToken.isCancelled_iff hr.2.1 hr.2.2).2 hask
  obtain ⟨j, hends⟩ := exists_endsAs_of_isCancelled hr.2.1 hreach hp hc
  obtain rfl := h.mem_ended_of_endsAs hw hrecord hr hends
  exact ⟨hends.mem_ended, by rw [hends.summary_eq, if_pos ⟨hp, hc⟩]⟩

theorem completed_of_nil (h : e.IsQueued queued statements follows)
    {between : List Operation} (hw : Operation.wait queued.id ∉ between) {record : Job}
    (hrecord : ((e.after between).apply (.wait queued.id)).2 = .job record)
    {front : List Move} {r : Run} {done : List Statement}
    (hr : e.IsBoundary (e.movesUntil between queued.id) queued.id front r)
    (hreach : r.Reaches (e.run front).defaultStep statements done) (hp : r.pending = []) :
    record ∈ (e.run front).round.ended ∧
      record.summary = .completed statements r.bindings := by
  obtain ⟨j, hends⟩ := exists_endsAs_of_nil hr.2.1 hreach hp
  obtain rfl := h.mem_ended_of_endsAs hw hrecord hr hends
  refine ⟨hends.mem_ended, ?_⟩
  rw [hends.summary_eq, if_neg fun hstop => hstop.1 hp, Summary.ofSequence_of_ok]
  rw [hreach.split, hp, List.append_nil]
  exact hreach.executeAll_eq

/-- Waiting gives a record, and the job had its last round somewhere. -/
theorem exists_record (h : e.IsQueued queued statements follows) {between : List Operation}
    (hw : Operation.wait queued.id ∉ between) :
    ∃ record, ((e.after between).apply (.wait queued.id)).2 = .job record ∧
      record.origin = queued.origin ∧
        ∃ front r done, e.IsBoundary (e.movesUntil between queued.id) queued.id front r ∧
          (e.run front).EndsAs r statements done record := by
  obtain ⟨x, hx, r, done, j, horigin, hends, hdelivered⟩ :=
    exists_endsAs h.numbered h.isUnderWay hw
  rw [roundsUntil_eq, mem_roundStates_iff] at hx
  obtain ⟨front, rest, hsplit, rfl⟩ := hx
  refine ⟨j, hdelivered, hends.origin_eq.trans horigin, front, r, done, ?_, hends⟩
  exact ⟨⟨rest, hsplit⟩, hends.mem_active, congrArg Prod.fst horigin⟩

end IsQueued

/-- A job is stopped at a boundary, before one of its statements, with what it has made
until then, and in no other way. -/
theorem stopped_at_boundary (he : e.Reachable) {submission : Operation} {text : String}
    (hs : e.submitted? submission = some text) (hv : (validate text).isValid) :
    (∀ b step c err, (Bindings.execute b step c).2 = some err →
        err.problem.kind ≠ .cancelled) ∧
      ∃ e' queued, e.apply submission = (e', .job queued) ∧
        ∀ between, Operation.wait queued.id ∉ between →
          ∃ record, ((e'.after between).apply (.wait queued.id)).2 = .job record ∧
            record.origin = queued.origin ∧
            (∀ front r, e'.IsBoundary (e'.movesUntil between queued.id) queued.id front r →
              (e'.run front).find? queued.id = some r ∧
              ∃ done, (Script.read text).executable = done ++ r.pending ∧
                Bindings.empty.executeAll e.defaultStep done = .ok r.bindings ∧
                (r.pending ≠ [] →
                  e'.IsAskedToStop queued.id (e.followed? submission) front →
                    record ∈ (e'.run front).round.ended ∧ record.summary =
                      .cancelled (Script.read text).executable.length done r.bindings) ∧
                (r.pending = [] →
                  record ∈ (e'.run front).round.ended ∧ record.summary =
                    .completed (Script.read text).executable r.bindings)) ∧
            (record.status = .cancelled →
              ∃ front r,
                e'.IsBoundary (e'.movesUntil between queued.id) queued.id front r ∧
                r.pending ≠ [] ∧
                e'.IsAskedToStop queued.id (e.followed? submission) front) ∧
            ((Script.read text).executable = [] →
              record.summary = .completed [] .empty) := by
  refine ⟨fun _ _ _ err _ => err.kind_ne_cancelled, ?_⟩
  obtain ⟨queued, hreply, hqueued⟩ := exists_queued he.numbered hs hv
  have hstep : ∀ front,
      ((e.apply submission).1.run front).defaultStep = e.defaultStep := by
    intro front
    rw [defaultStep_run, defaultStep_apply]
  rcases hsubmit : e.apply submission with ⟨e', reply⟩
  rw [hsubmit] at hreply hqueued hstep
  obtain rfl : reply = .job queued := hreply
  refine ⟨e', queued, rfl, ?_⟩
  intro between hwait
  obtain ⟨record, hrecord, horigin, last, r, done, hlast, hends⟩ := hqueued.exists_record hwait
  refine ⟨record, hrecord, horigin, ?_, ?_, ?_⟩
  · intro front r hr
    obtain ⟨done, hreach⟩ := hqueued.reaches hwait hr
    have hfind := (hqueued.numbered.run front).find?_eq_some hr.2.1
    rw [hr.2.2] at hfind
    refine ⟨hfind, done, hreach.split, ?_, ?_, ?_⟩
    · rw [← hstep front]
      exact hreach.executeAll_eq
    · exact hqueued.cancelled_of_isAskedToStop hwait hrecord hr hreach
    · exact hqueued.completed_of_nil hwait hrecord hr hreach
  · intro hstatus
    obtain ⟨hpending, hcancelled⟩ := hends.isCancelled_of_status hstatus
    refine ⟨last, r, hlast, hpending, ?_⟩
    exact (hqueued.hasToken.isCancelled_iff hlast.2.1 hlast.2.2).1 hcancelled
  · intro hnil
    rw [hnil] at hends
    exact hends.summary_of_no_statements

/-- A job that is cancelled between its two statements. -/
theorem stopped_after_first_statement :
    ∃ record,
      ((((create 60 .channel false).apply (.submit "n = 1\nm = 2" "ann" none none)).1.after
          [.round, .cancel (.numbered 0)]).apply (.wait (.numbered 0))).2 = .job record ∧
        record.summary =
          ⟨.cancelled, [], 50, 1, "n = 1", ⟨[("n", .number 1)], by decide⟩,
            ["Variable n = 1"]⟩ := by
  have hreachable : (create 60 .channel false).Reachable := ⟨60, .channel, false, [], rfl⟩
  have hsubmitted : (create 60 .channel false).submitted?
      (.submit "n = 1\nm = 2" "ann" none none) = some "n = 1\nm = 2" := rfl
  obtain ⟨-, e', queued, hsubmit, hstopped⟩ :=
    stopped_at_boundary hreachable hsubmitted (by decide +kernel)
  obtain rfl : Job.create (.numbered 0) "ann" none = queued :=
    Reply.job.inj ((by decide +kernel : _ = _).symm.trans (congrArg Prod.snd hsubmit))
  obtain rfl := congrArg Prod.fst hsubmit
  obtain ⟨record, hrecord, -, hboundary, -⟩ :=
    hstopped [.round, .cancel (.numbered 0)] (by decide)
  let job := { Job.create (.numbered 0) "ann" none with
    status := .running, startedAt := some 0, progress := 50, line := 1, command := "n = 1" }
  let bindings : Bindings := ⟨.empty, ⟨[("n", .number 1)], by decide⟩, ["Variable n = 1"]⟩
  let r : Run := ⟨job, bindings, [⟨2, "m = 2", .variable "m" (.number 2)⟩], 1, ⟨true, none⟩⟩
  obtain ⟨-, done, hsplit, -, hcancelled, -⟩ :=
    hboundary [.round, .cancel (.numbered 0)] r
      ⟨⟨[], by decide +kernel⟩, by decide +kernel, rfl⟩
  obtain rfl : done = [⟨1, "n = 1", .variable "n" (.number 1)⟩] :=
    List.append_cancel_right (hsplit.symm.trans (by decide +kernel))
  obtain ⟨-, hsummary⟩ :=
    hcancelled (List.cons_ne_nil _ _) (Or.inl (List.mem_cons_of_mem _ (List.mem_singleton_self _)))
  exact ⟨record, hrecord, hsummary.trans (by decide +kernel)⟩

end Engine

end FlightScript
