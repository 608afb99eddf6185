import FlightScript.Proofs.Runtime.Tracking

/-!
# What is seen of a job

As long as a job is tracked, anybody may look at its record. It shows how many of its statements
are executed, and nothing of what they made (`Job.IsSnapshot`), until the job is settled: a job
whose last event waits for room shows its final record. The number of statements never goes down
(`Sound.executed_le`), and the final record of the job is made of no fewer.
-/

namespace FlightScript

/-- A record shows that a number of statements are executed, and nothing of what they made. -/
structure Job.IsSnapshot (j : Job) (statements : List Statement) (k : Nat) : Prop where
  progress_eq : j.progress =
    if k = 0 then 0 else Float.ofNat k / Float.ofNat statements.length * 100
  place_zero : k = 0 → j.line = 0 ∧ j.command = ""
  place_succ : ∀ n, k = n + 1 →
    ∃ s, statements[n]? = some s ∧ j.line = s.line ∧ j.command = s.trimmed
  errors_eq : j.errors = []
  values_eq : j.values = .empty
  log_eq : j.log = []
  completedAt_eq : j.completedAt = none

theorem Run.Reaches.isSnapshot {r : Run} {step : Float} {statements : List Statement}
    (h : r.Reaches step statements (statements.take r.executed)) :
    r.job.IsSnapshot statements r.executed where
  progress_eq := by
    rw [h.progress_eq, ← h.executed_eq]
    rfl
  place_zero := by
    intro hzero
    rw [h.line_eq, h.command_eq, hzero]
    exact ⟨rfl, rfl⟩
  place_succ := by
    intro n hn
    have hlt : n < statements.length := by
      have hle := h.executed_le
      omega
    have htake : statements.take r.executed = statements.take n ++ [statements[n]] := by
      rw [hn, List.take_succ_eq_append_getElem hlt]
    refine ⟨statements[n], List.getElem?_eq_getElem hlt, ?_, ?_⟩
    · rw [h.line_eq, htake, Summary.lineAfter_append_singleton]
    · rw [h.command_eq, htake, Summary.commandAfter_append_singleton]
  errors_eq := h.errors_eq
  values_eq := h.values_eq
  log_eq := h.log_eq
  completedAt_eq := h.completedAt_eq

namespace Runtime

/-- Looking at the job of a name, or listing all jobs, shows this record. -/
def Shows (rt : Runtime) (id : JobId) (job : Job) : Prop :=
  rt.status id = .ok job ∨ (job ∈ rt.list ∧ job.id = id)

variable {rt : Runtime} {id : JobId} {t : Task}

theorem Sound.exists_of_shows (h : rt.Sound) {job : Job} (hshows : rt.Shows id job) :
    ∃ t, rt.find? id = some t ∧ t.job = job := by
  rcases hshows with hstatus | ⟨hjob, rfl⟩
  · by_cases hmem : id ∈ rt.taskIds
    · obtain ⟨t, hf⟩ := exists_find?_eq_some hmem
      rw [status, h.record?_eq hf, h.jobs_eq] at hstatus
      exact ⟨t, hf, Except.ok.inj ((if_pos hmem).symm.trans hstatus)⟩
    · have htracks := h.tracks fun _ => Iff.rfl
      cases (htracks.lookup_unknown id hmem).1.symm.trans hstatus
  · rw [h.list_eq] at hjob
    obtain ⟨t, ht, rfl⟩ := List.mem_map.1 hjob
    exact ⟨t, h.find?_eq_some ht, rfl⟩

/-- The number of statements that a job has executed never goes down. -/
theorem Sound.executed_le (h : rt.Sound) (hf : rt.find? id = some t) (steps : List Step)
    {t' : Task} (hf' : (rt.run steps).find? id = some t') : t.run.executed ≤ t'.run.executed := by
  obtain ⟨statements, hreach⟩ := h.exists_reaches t (of_find?_eq_some hf).1
  exact (h.reaches_run hf hreach steps hf').2

/-- What is seen of a job that was started: how many of its statements are executed, or the
final record, if that is held back. -/
theorem Starts.snapshot {steps since : List Step} {text user : String} {script : Option String}
    {next : Runtime} (h : rt.Starts steps id text user script next since) (hrt : rt.Sound)
    (hf : (rt.run steps).find? id = some t) :
    let statements := (Script.read text).executable
    (t.job.IsSnapshot statements t.run.executed ∧
        Bindings.empty.executeAll rt.defaultStep (statements.take t.run.executed) =
          .ok t.run.bindings) ∨
      (t.job.EndsAfter rt.defaultStep statements t.run.executed ∧
        (rt.run steps).HoldsBack id) := by
  intro statements
  obtain ⟨-, hreach, -⟩ := h.of_find? hrt hf
  obtain ⟨ht, hid⟩ := of_find?_eq_some hf
  by_cases hclosing : t.IsClosing
  · obtain ⟨e, he⟩ := hclosing
    have hwaiting := (hrt.run steps).mem_waiting t ht (by rw [he]; exact Phase.noConfusion)
    cases hreach with
    | ready => cases he
    | starting => cases he
    | closing hends => exact Or.inr ⟨hends, _, ht, hid, ⟨e, he⟩, hid ▸ hwaiting⟩
  · have hrun := hreach.run_reaches hclosing
    exact Or.inl ⟨hrun.isSnapshot, hrun.executeAll_eq⟩

/-- A job is not seen any more once its record is returned. -/
theorem Sound.executed_le_of_ended (h : rt.Sound) {front rest earlier later : List Step} {j : Job}
    (hf : (rt.run front).find? id = some t) (hended : ((rt.run front).pollTask t).1 = .ended j)
    (hsplit : front ++ .poll id :: rest = earlier ++ later) {t' : Task}
    (hf' : (rt.run earlier).find? id = some t') : t'.run.executed ≤ t.run.executed := by
  have hfront := h.run front
  rcases List.append_eq_append_iff.1 hsplit with ⟨more, rfl, hmore⟩ | ⟨between, rfl, -⟩
  · cases more with
    | nil =>
        rw [List.append_nil, hf] at hf'
        rw [Option.some.inj hf']
    | cons s more =>
        obtain ⟨rfl, -⟩ := List.cons.inj hmore
        have hnone := find?_poll_self hfront hf
        rw [hended] at hnone
        have hgiven := (hfront.hasGiven_of_find? hf).step (.poll id)
        rw [run_append, run_cons] at hf'
        cases ((hfront.step _).find?_run_eq_none hgiven hnone more).symm.trans hf'
  · rw [run_append] at hf
    exact (h.run earlier).executed_le hf' between hf

/-- The record that a task returns is made of the statements that were executed by then. -/
theorem Starts.endsAfter {steps since : List Step} {text user : String} {script : Option String}
    {next : Runtime} {j : Job} (h : rt.Starts steps j.id text user script next since)
    (hrt : rt.Sound) (hj : j ∈ rt.returned steps) :
    j.origin = (j.id, script, user) ∧
      ∃ k, j.EndsAfter rt.defaultStep (Script.read text).executable k ∧
        ∀ front rest, steps = front ++ rest → ∀ t, (rt.run front).find? j.id = some t →
          t.run.executed ≤ k := by
  obtain ⟨-, -, -, -, -, hiff⟩ := h.of_sound hrt
  obtain ⟨front, s, rest, rfl, hreturns⟩ := mem_returned_iff.1 ((hiff j rfl).1 hj)
  obtain ⟨before, follows, rfl, hsubmit⟩ := h
  have hstarts : rt.Starts (before ++ .submit text user script follows :: front) j.id text user
      script next front := ⟨before, follows, rfl, hsubmit⟩
  obtain ⟨hnext, -, -, -, hrun, -⟩ := hstarts.of_sound hrt
  obtain ⟨rfl, t, hf, hended⟩ := (hnext.run front).mem_returns_iff.1 hreturns
  rw [← hrun] at hf hended
  obtain ⟨horigin, hreach, -⟩ := hstarts.of_find? hrt hf
  have hpolls := (hrt.run _).polls_of_eq hf hended
  rw [defaultStep_run] at hpolls
  refine ⟨hpolls.origin_eq.trans horigin, _, (hreach.endsAfter_of_polls hpolls).1, ?_⟩
  intro earlier later hsplit t' hf'
  rw [← List.cons_append, ← List.append_assoc] at hsplit
  exact hrt.executed_le_of_ended hf hended hsplit hf'

/-- The record of a job that is tracked shows how many of its statements are executed, and who
submitted it, and nothing else, or it is the final one and held back. That number never goes
down, and the final record of the job is made of at least as many statements: of all of them if
the job completed, and of fewer if it failed or was cancelled. -/
theorem shown_after (step : Float) (sink : Sink) (usesLibrary : Bool) (steps : List Step) :
    let start := create step sink usesLibrary
    (∀ front rest, steps = front ++ rest → ∀ id job, (start.run front).Shows id job →
      ∃ text user script next since, start.Starts front id text user script next since ∧
        job.origin = (id, script, user) ∧
        let statements := (Script.read text).executable
        ∃ t, (start.run front).find? id = some t ∧ t.job = job ∧
          t.run.executed ≤ statements.length ∧
          ((job.IsSnapshot statements t.run.executed ∧
              Bindings.empty.executeAll step (statements.take t.run.executed) =
                .ok t.run.bindings) ∨
            (job.EndsAfter step statements t.run.executed ∧ (start.run front).HoldsBack id)) ∧
          ∀ more t', (start.run (front ++ more)).find? id = some t' →
            t.run.executed ≤ t'.run.executed) ∧
    ∀ record ∈ start.returned steps, ∃ text user script next since,
      start.Starts steps record.id text user script next since ∧
      record.origin = (record.id, script, user) ∧
      ∃ k, record.EndsAfter step (Script.read text).executable k ∧
        ∀ front rest, steps = front ++ rest →
          ∀ t, (start.run front).find? record.id = some t → t.run.executed ≤ k := by
  intro start
  have hstart := Sound.of_create step sink usesLibrary
  refine ⟨fun front rest hsplit id job hshows => ?_, fun record hrecord => ?_⟩
  · obtain ⟨t, hf, rfl⟩ := (hstart.run front).exists_of_shows hshows
    obtain ⟨text, user, script, next, since, hstarts⟩ := hasStarted_of_find? hstart rfl hf
    obtain ⟨horigin, hreach, -⟩ := hstarts.of_find? hstart hf
    refine ⟨text, user, script, next, since, hstarts, horigin, t, hf, rfl, hreach.executed_le,
      hstarts.snapshot hstart hf, fun more t' hf' => ?_⟩
    rw [run_append] at hf'
    exact (hstart.run front).executed_le hf more hf'
  · obtain ⟨text, user, script, next, since, hstarts⟩ :=
      hasStarted_of_mem_returned hstart rfl hrecord
    exact ⟨text, user, script, next, since, hstarts, hstarts.endsAfter hstart hrecord⟩

/-- A job of which one of two statements is executed, and its record after it was cancelled before
the other one. -/
theorem shown_after_cancelling :
    let start := create 60 (.channel (.create 1)) false
    let front : List Step :=
      [.submit "% c\nn = 1\n\n m = 2" "ann" none none, .poll (.numbered 0)]
    let rest : List Step := [.cancel (.numbered 0), .poll (.numbered 0)]
    (∃ job, (start.run front).status (.numbered 0) = .ok job ∧ job.progress = 50 ∧
      job.line = 2 ∧ job.command = "n = 1" ∧ job.completedAt = none) ∧
    ∃ record ∈ start.returned (front ++ rest), record.status = .cancelled ∧
      ∃ text k, record.EndsAfter 60 (Script.read text).executable k ∧ 1 ≤ k := by
  intro start front rest
  obtain ⟨hshown, hfinal⟩ := shown_after 60 (.channel (.create 1)) false (front ++ rest)
  have hexecuted : ((start.run front).find? (.numbered 0)).map (fun t => t.run.executed) =
      some 1 := by
    decide +kernel
  constructor
  · let job := { Job.create (.numbered 0) "ann" none with
      status := .running, startedAt := some 0, progress := 50, line := 2, command := "n = 1" }
    have hlook : (start.run front).status (.numbered 0) = .ok job := by decide +kernel
    obtain ⟨text, user, script, next, since, ⟨before, follows, hsplit, -⟩, -, t, hf, -, -,
      hsnapshot, -⟩ := hshown front rest rfl _ job (Or.inl hlook)
    obtain rfl : text = "% c\nn = 1\n\n m = 2" := by
      cases before with
      | nil => exact (Step.submit.inj (List.cons.inj hsplit).1).1.symm
      | cons s before =>
          have hlast := (List.cons.inj hsplit).2
          cases before with
          | nil => cases (List.cons.inj hlast).1
          | cons s' before => simp at hlast
    rw [hf, Option.map_some, Option.some.injEq] at hexecuted
    rw [hexecuted] at hsnapshot
    rcases hsnapshot with ⟨hsnapshot, -⟩ | ⟨hends, -⟩
    · have hprogress := hsnapshot.progress_eq
      have hlength : (Script.read "% c\nn = 1\n\n m = 2").executable.length = 2 := by
        decide +kernel
      rw [hlength] at hprogress
      exact ⟨job, hlook, hprogress.trans (by decide +kernel), rfl, rfl, hsnapshot.completedAt_eq⟩
    · cases hends.isFinal
  · obtain ⟨record, hrecord, hid, hstatus⟩ : ∃ record ∈ start.returned (front ++ rest),
        record.id = .numbered 0 ∧ record.status = .cancelled := by
      decide +kernel
    obtain ⟨text, -, -, -, -, -, -, k, hends, hle⟩ := hfinal record hrecord
    obtain ⟨t, hf, hone⟩ := Option.map_eq_some_iff.1 hexecuted
    rw [hid] at hle
    exact ⟨record, hrecord, hstatus, text, k, hends, hone ▸ hle front rest rfl t hf⟩

/-- A job whose last event waits for room shows the time of its end. -/
theorem completed_job_is_shown :
    let rt := (create 60 (.channel (.create 1)) false).run
      [.submit "" "ann" none none, .poll (.numbered 0)]
    ∃ job, rt.status (.numbered 0) = .ok job ∧ job.progress = 100 ∧ job.completedAt = some 0 := by
  refine ⟨{ Job.create (.numbered 0) "ann" none with
    status := .completed, progress := 100, startedAt := some 0, completedAt := some 0 }, ?_, rfl,
    rfl⟩
  decide +kernel

end Runtime

end FlightScript
