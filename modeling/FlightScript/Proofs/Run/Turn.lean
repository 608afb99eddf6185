import FlightScript.Proofs.Run.Summary

/-!
# Turns

`r.Reaches step statements done` ties a run to the statements of its script: `done`
are executed, in sequence and without a failure, the others are pending, the bindings
are what `done` made, and the record of the job shows exactly that. It holds of a
queued run with nothing done. A turn either takes it from `done` to one statement
more or ends the run with one of the three summaries, and there are four cases:
nothing is pending (`turn_of_nil`), the run is told to stop (`turn_of_cancelled`),
the next statement is executed (`turn_of_ok`) or it fails (`turn_of_error`).
-/

namespace FlightScript

namespace Job

theorem origin_settle (j : Job) (next : Status) : (j.settle next).origin = j.origin := by
  cases h : j.status.canBecome next <;> simp [settle, transition, h, origin]

end Job

namespace Progress

def origin : Progress → JobId × Option String × String
  | .running r => r.job.origin
  | .ended j => j.origin

end Progress

namespace Run

theorem turn_eq (r : Run) (step : Float) (now : Int) (cancelled : Bool) :
    r.turn step now cancelled =
      (((r.begin now).1.proceed step now cancelled).1,
        (r.begin now).2 ++ ((r.begin now).1.proceed step now cancelled).2) := rfl

theorem proceed_of_nil {r : Run} (h : r.pending = []) (step : Float) (now : Int)
    (cancelled : Bool) :
    r.proceed step now cancelled = Prod.map .ended id (r.finish now .completed) := by
  simp [proceed, h, Prod.map]

theorem proceed_of_cancelled {r : Run} {s : Statement} {rest : List Statement}
    (h : r.pending = s :: rest) (step : Float) (now : Int) :
    r.proceed step now true = Prod.map .ended id (r.finish now .cancelled) := by
  simp [proceed, h, Prod.map]

theorem proceed_of_ok {r : Run} {s : Statement} {rest : List Statement} {step : Float}
    {b : Bindings} (h : r.pending = s :: rest)
    (hs : r.bindings.execute step s.command = (b, none)) (now : Int) :
    r.proceed step now false = (.running ((r.attend s).advance b rest), []) := by
  simp [proceed, h, attend, hs]

theorem proceed_of_error {r : Run} {s : Statement} {rest : List Statement} {step : Float}
    {b : Bindings} {e : ExecutionError} (h : r.pending = s :: rest)
    (hs : r.bindings.execute step s.command = (b, some e)) (now : Int) :
    r.proceed step now false =
      Prod.map .ended id
        ({ (r.attend s).fault s e with bindings := b }.finish now (.failed e)) := by
  simp [proceed, h, attend, hs, Prod.map]

theorem origin_finish (r : Run) (now : Int) (ending : Ending) :
    (r.finish now ending).1.origin = r.job.origin := by
  cases ending with
  | completed => exact (r.results now).origin_settle .completed
  | cancelled => exact (r.results now).origin_settle .cancelled
  | failed e => exact (r.results now).origin_settle .failed

theorem origin_begin (r : Run) (now : Int) :
    (r.begin now).1.job.origin = r.job.origin := by
  by_cases hq : r.job.status = .queued
  · rw [Run.begin, if_pos hq]
    exact r.job.origin_settle .running
  · rw [Run.begin, if_neg hq]

theorem origin_turn (r : Run) (step : Float) (now : Int) (cancelled : Bool) :
    (r.turn step now cancelled).1.origin = r.job.origin := by
  rw [turn_eq, ← r.origin_begin now]
  cases hp : (r.begin now).1.pending with
  | nil =>
      rw [proceed_of_nil hp]
      exact origin_finish _ now .completed
  | cons s rest =>
      cases cancelled with
      | true =>
          rw [proceed_of_cancelled hp]
          exact origin_finish _ now .cancelled
      | false =>
          rcases hs : (r.begin now).1.bindings.execute step s.command with ⟨b, _ | e⟩
          · rw [proceed_of_ok hp hs]
            rfl
          · rw [proceed_of_error hp hs]
            exact origin_finish _ now (.failed e)

/-- Starting a job leaves what it has made, what it has to do and its token. -/
theorem begin_rest (r : Run) (now : Int) :
    (r.begin now).1.pending = r.pending ∧ (r.begin now).1.bindings = r.bindings ∧
      (r.begin now).1.token = r.token := by
  by_cases hq : r.job.status = .queued
  · rw [Run.begin, if_pos hq]
    exact ⟨rfl, rfl, rfl⟩
  · rw [Run.begin, if_neg hq]
    exact ⟨rfl, rfl, rfl⟩

/-- A run goes on only by executing its next statement. -/
theorem exists_of_turn_eq_running {r r' : Run} {step : Float} {now : Int} {cancelled : Bool}
    (h : (r.turn step now cancelled).1 = .running r') :
    ∃ s rest b, (r.begin now).1.pending = s :: rest ∧
      (r.begin now).1.bindings.execute step s.command = (b, none) ∧
        r' = ((r.begin now).1.attend s).advance b rest := by
  rw [turn_eq] at h
  cases hp : (r.begin now).1.pending with
  | nil =>
      rw [proceed_of_nil hp] at h
      cases h
  | cons s rest =>
      cases cancelled with
      | true =>
          rw [proceed_of_cancelled hp] at h
          cases h
      | false =>
          rcases hs : (r.begin now).1.bindings.execute step s.command with ⟨b, _ | e⟩
          · rw [proceed_of_ok hp hs] at h
            cases h
            exact ⟨s, rest, b, rfl, hs, rfl⟩
          · rw [proceed_of_error hp hs] at h
            cases h

/-- A run that goes on has one statement less to execute, and the token that it had. -/
theorem rest_of_turn {r r' : Run} {step : Float} {now : Int} {cancelled : Bool}
    (h : (r.turn step now cancelled).1 = .running r') :
    (∃ s, r.pending = s :: r'.pending) ∧ r'.token = r.token := by
  obtain ⟨hpending, -, htoken⟩ := r.begin_rest now
  obtain ⟨s, rest, b, hp, -, rfl⟩ := exists_of_turn_eq_running h
  exact ⟨⟨s, hpending.symm.trans hp⟩, htoken⟩

/-- The run has executed the statements `done` out of some statements, and its record
shows that. -/
structure Reaches (r : Run) (step : Float) (statements done : List Statement) : Prop where
  split : statements = done ++ r.pending
  executed_eq : r.executed = done.length
  executeAll_eq : Bindings.empty.executeAll step done = .ok r.bindings
  started : r.job.status = .queued ∧ r.job.startedAt = none ∧ done = [] ∨
    r.job.status = .running ∧ r.job.startedAt.isSome
  line_eq : r.job.line = Summary.lineAfter done
  command_eq : r.job.command = Summary.commandAfter done
  progress_eq : r.job.progress = Summary.progressAfter done.length statements.length
  errors_eq : r.job.errors = []
  values_eq : r.job.values = .empty
  log_eq : r.job.log = []
  completedAt_eq : r.job.completedAt = none

theorem reaches_create (id : JobId) (user : String) (script : Option String)
    (statements : List Statement) (token : Token) (step : Float) :
    (create (Job.create id user script) statements token).Reaches step statements [] where
  split := rfl
  executed_eq := rfl
  executeAll_eq := rfl
  started := Or.inl ⟨rfl, rfl, rfl⟩
  line_eq := rfl
  command_eq := rfl
  progress_eq := rfl
  errors_eq := rfl
  values_eq := rfl
  log_eq := rfl
  completedAt_eq := rfl

variable {r : Run} {step : Float} {statements done : List Statement}

namespace Reaches

theorem withToken (h : r.Reaches step statements done) (t : Token) :
    { r with token := t }.Reaches step statements done :=
  { h with }

theorem total_eq (h : r.Reaches step statements done) : r.total = statements.length := by
  rw [total, h.executed_eq, h.split, List.length_append]

/-- A started run reaches the same statements, and its job is running. -/
theorem begin (h : r.Reaches step statements done) (now : Int) :
    (r.begin now).1.Reaches step statements done ∧ (r.begin now).1.job.status = .running := by
  rcases h.started with ⟨hq, -, -⟩ | ⟨hr, hs⟩
  · have hb : (r.begin now).1 = { r with job := (r.job.settle .running).start now } := by
      rw [Run.begin, if_pos hq]
    have hset : r.job.settle .running = { r.job with status := .running } :=
      r.job.settle_of_canBecome (by rw [hq]; rfl)
    rw [hb, hset]
    exact ⟨{ h with started := Or.inr ⟨rfl, rfl⟩ }, rfl⟩
  · have hb : (r.begin now).1 = r := by
      rw [Run.begin, if_neg (by rw [hr]; decide)]
    rw [hb]
    exact ⟨h, hr⟩

end Reaches

/-- The final record of a running job that is settled in a final status. -/
theorem settle_results (hr : r.job.status = .running) (now : Int) {next : Status}
    (hnext : next.isFinal) :
    (r.results now).settle next = { r.results now with status := next } :=
  Job.settle_of_canBecome _ (by
    have hstatus : (r.results now).status = .running := hr
    rw [hstatus]
    exact hnext)

theorem summary_finish_completed (hr : r.job.status = .running) (now : Int) :
    (r.finish now .completed).1.summary =
      ⟨.completed, r.job.errors, 100, r.job.line, r.job.command, r.bindings.values,
        r.bindings.log⟩ := by
  have hset := settle_results hr now (show Status.completed.isFinal from rfl)
  simp only [finish, hset]
  rfl

theorem summary_finish_cancelled (hr : r.job.status = .running) (now : Int) :
    (r.finish now .cancelled).1.summary =
      ⟨.cancelled, r.job.errors, r.job.progress, r.job.line, r.job.command,
        r.bindings.values, r.bindings.log⟩ := by
  have hset := settle_results hr now (show Status.cancelled.isFinal from rfl)
  simp only [finish, hset]
  rfl

theorem summary_finish_failed (hr : r.job.status = .running) (now : Int)
    (e : ExecutionError) :
    (r.finish now (.failed e)).1.summary =
      ⟨.failed, r.job.errors, r.job.progress, r.job.line, r.job.command,
        r.bindings.values, r.bindings.log ++ ["Error: " ++ e.message]⟩ := by
  have hset := settle_results hr now (show Status.failed.isFinal from rfl)
  simp only [finish, hset]
  rfl

namespace Reaches

/-- A run with nothing pending ends as completed, whether or not it is told to stop. -/
theorem turn_of_nil (h : r.Reaches step statements done) (hp : r.pending = []) (now : Int)
    (cancelled : Bool) :
    ∃ j, (r.turn step now cancelled).1 = .ended j ∧
      j.summary = .completed statements r.bindings := by
  obtain ⟨hpending, hbindings, -⟩ := r.begin_rest now
  obtain ⟨hb, hstatus⟩ := h.begin now
  have hsum := summary_finish_completed hstatus now
  have hdone : statements = done := by
    rw [h.split, hp, List.append_nil]
  refine ⟨((r.begin now).1.finish now .completed).1, ?_, ?_⟩
  · rw [turn_eq, proceed_of_nil (hpending.trans hp)]
    rfl
  · rw [hsum, hb.errors_eq, hb.line_eq, hb.command_eq, hbindings, hdone]
    rfl

/-- A run that is told to stop while something is pending ends as cancelled. -/
theorem turn_of_cancelled (h : r.Reaches step statements done) (hp : r.pending ≠ [])
    (now : Int) :
    ∃ j, (r.turn step now true).1 = .ended j ∧
      j.summary = .cancelled statements.length done r.bindings := by
  obtain ⟨hpending, hbindings, -⟩ := r.begin_rest now
  obtain ⟨hb, hstatus⟩ := h.begin now
  have hsum := summary_finish_cancelled hstatus now
  obtain ⟨s, rest, hs⟩ := List.exists_cons_of_ne_nil hp
  refine ⟨((r.begin now).1.finish now .cancelled).1, ?_, ?_⟩
  · rw [turn_eq, proceed_of_cancelled (hpending.trans hs)]
    rfl
  · rw [hsum, hb.errors_eq, hb.line_eq, hb.command_eq, hb.progress_eq, hbindings]
    rfl

/-- A running job has executed one statement more after the next one. -/
theorem advance (h : r.Reaches step statements done) (hr : r.job.status = .running)
    {s : Statement} {rest : List Statement} {b : Bindings} (hp : r.pending = s :: rest)
    (hs : r.bindings.execute step s.command = (b, none)) :
    ((r.attend s).advance b rest).Reaches step statements (done ++ [s]) := by
  have hlength : (done ++ [s]).length = done.length + 1 := List.length_append
  have htotal : (r.attend s).total = statements.length := h.total_eq
  exact {
    split := by rw [h.split, hp, List.append_assoc]; rfl
    executed_eq := by rw [hlength, ← h.executed_eq]; rfl
    executeAll_eq := Bindings.executeAll_append_singleton h.executeAll_eq hs
    started := Or.inr ⟨hr, by
      rcases h.started with ⟨hq, -, -⟩ | ⟨-, hsome⟩
      · rw [hr] at hq
        cases hq
      · exact hsome⟩
    line_eq := (Summary.lineAfter_append_singleton done s).symm
    command_eq := (Summary.commandAfter_append_singleton done s).symm
    progress_eq := by
      rw [hlength, Summary.progressAfter, if_neg (Nat.succ_ne_zero _), ← htotal, ← h.executed_eq]
      rfl
    errors_eq := h.errors_eq
    values_eq := h.values_eq
    log_eq := h.log_eq
    completedAt_eq := h.completedAt_eq }

theorem turn_of_ok (h : r.Reaches step statements done) {s : Statement}
    {rest : List Statement} {b : Bindings} (hp : r.pending = s :: rest)
    (hs : r.bindings.execute step s.command = (b, none)) (now : Int) :
    ∃ r', (r.turn step now false).1 = .running r' ∧
      r'.Reaches step statements (done ++ [s]) ∧ r'.pending = rest := by
  obtain ⟨hpending, hbindings, -⟩ := r.begin_rest now
  obtain ⟨hb, hstatus⟩ := h.begin now
  have hpending' := hpending.trans hp
  have hs' : (r.begin now).1.bindings.execute step s.command = (b, none) := by
    rw [hbindings]
    exact hs
  refine ⟨((r.begin now).1.attend s).advance b rest, ?_, hb.advance hstatus hpending' hs', rfl⟩
  rw [turn_eq, proceed_of_ok hpending' hs']

theorem turn_of_error (h : r.Reaches step statements done) {s : Statement}
    {rest : List Statement} {b : Bindings} {e : ExecutionError} (hp : r.pending = s :: rest)
    (hs : r.bindings.execute step s.command = (b, some e)) (now : Int) :
    ∃ j, (r.turn step now false).1 = .ended j ∧
      j.summary = .failed statements.length ⟨done, r.bindings, s, e⟩ := by
  obtain ⟨hpending, hbindings, -⟩ := r.begin_rest now
  obtain ⟨hb, hstatus⟩ := h.begin now
  have hpending' := hpending.trans hp
  have hs' : (r.begin now).1.bindings.execute step s.command = (b, some e) := by
    rw [hbindings]
    exact hs
  obtain ⟨hvalues, hlog⟩ := Bindings.execute_of_error hs
  let faulty : Run := { ((r.begin now).1.attend s).fault s e with bindings := b }
  have hfaulty : faulty.job.status = .running := hstatus
  have hsum := summary_finish_failed hfaulty now e
  refine ⟨(faulty.finish now (.failed e)).1, ?_, ?_⟩
  · rw [turn_eq, proceed_of_error hpending' hs']
    rfl
  · have herrors : faulty.job.errors =
        (r.begin now).1.job.errors ++
          [(Finding.failedCommand e.message).diagnostic s.line s.text] := rfl
    have hprogress : faulty.job.progress = (r.begin now).1.job.progress := rfl
    rw [hsum, herrors, hprogress, hb.errors_eq, hb.progress_eq]
    simp only [faulty, hvalues, hlog]
    rfl

/-- A run that is not stopped at its next statement goes on, or ends as the sequence of
its statements does. -/
theorem turn_of_not_stopped (h : r.Reaches step statements done) (now : Int)
    {cancelled : Bool} (hc : r.pending = [] ∨ cancelled = false) :
    (∃ r' done', (r.turn step now cancelled).1 = .running r' ∧
        r'.Reaches step statements done') ∨
      ∃ j, (r.turn step now cancelled).1 = .ended j ∧
        j.summary = .ofSequence step statements := by
  cases hp : r.pending with
  | nil =>
      obtain ⟨j, hj, hsum⟩ := h.turn_of_nil hp now cancelled
      have hdone : statements = done := by
        rw [h.split, hp, List.append_nil]
      refine Or.inr ⟨j, hj, ?_⟩
      rw [hsum, Summary.ofSequence_of_ok (hdone ▸ h.executeAll_eq)]
  | cons s rest =>
      obtain rfl : cancelled = false := by
        rcases hc with hnil | hfalse
        · rw [hp] at hnil
          cases hnil
        · exact hfalse
      rcases hs : r.bindings.execute step s.command with ⟨b, _ | e⟩
      · obtain ⟨r', hr', hreach, -⟩ := h.turn_of_ok hp hs now
        exact Or.inl ⟨r', done ++ [s], hr', hreach⟩
      · obtain ⟨j, hj, hsum⟩ := h.turn_of_error hp hs now
        have herror := Bindings.executeAll_append_cons_of_error h.executeAll_eq hs rest
        rw [← hp, ← h.split] at herror
        refine Or.inr ⟨j, hj, ?_⟩
        rw [hsum, Summary.ofSequence_of_error herror]

end Reaches

end Run

end FlightScript
