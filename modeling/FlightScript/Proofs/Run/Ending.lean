import FlightScript.Proofs.Run.Turn

/-!
# How a turn ends a run

A turn starts the job if it is queued and then executes one statement or closes the
run. `r.Closes step cancelled x ending` says that the turn of the started run `r`
closes it as `x` with an ending, and `turn_cases` says all that a turn can do: what
there is afterwards, and which events there are. A run that reaches some of its
statements is settled without a refusal, in the status of its ending.
-/

namespace FlightScript

namespace Job

def times (j : Job) : Option Int × Option Int × Int :=
  (j.startedAt, j.completedAt, j.elapsed)

theorem times_settle (j : Job) (next : Status) : (j.settle next).times = j.times := by
  cases h : j.status.canBecome next <;> simp [settle, transition, h, times]

end Job

namespace Ending

def status : Ending → Status
  | .completed => .completed
  | .cancelled => .cancelled
  | .failed _ => .failed

def events (j : Job) : Ending → List Event
  | .completed => [.completed j.id true j.elapsed]
  | .cancelled => []
  | .failed e => [.failed j.id e.message j.line]

theorem isFinal_status (ending : Ending) : ending.status.isFinal := by
  cases ending <;> rfl

end Ending

namespace Run

/-- The turn of a started run closes it as another run, with an ending. -/
inductive Closes (r : Run) (step : Float) : Bool → Run → Ending → Prop where
  | completed {cancelled : Bool} (hp : r.pending = []) : Closes r step cancelled r .completed
  | cancelled {s : Statement} {rest : List Statement} (hp : r.pending = s :: rest) :
      Closes r step true r .cancelled
  | failed {s : Statement} {rest : List Statement} {b : Bindings} {e : ExecutionError}
      (hp : r.pending = s :: rest) (hs : r.bindings.execute step s.command = (b, some e)) :
      Closes r step false { (r.attend s).fault s e with bindings := b } (.failed e)

theorem finish_snd (r : Run) (now : Int) (ending : Ending) :
    (r.finish now ending).2 = ending.events (r.finish now ending).1 := by
  cases ending <;> rfl

theorem times_finish (r : Run) (now : Int) (ending : Ending) :
    (r.finish now ending).1.times =
      (r.job.startedAt, some now, (r.job.startedAt.map fun started => now - started).getD 0) := by
  have hresults : ∀ next, ((r.results now).settle next).times =
      (r.job.startedAt, some now, (r.job.startedAt.map fun started => now - started).getD 0) :=
    fun next => (r.results now).times_settle next
  cases ending with
  | completed => exact hresults .completed
  | cancelled => exact hresults .cancelled
  | failed e => exact hresults .failed

/-- A started run goes on without an event, or it is closed. -/
theorem proceed_cases (r : Run) (step : Float) (now : Int) (cancelled : Bool) :
    (∃ r', r.proceed step now cancelled = (.running r', [])) ∨
    ∃ x ending, r.Closes step cancelled x ending ∧
      r.proceed step now cancelled = Prod.map .ended id (x.finish now ending) := by
  cases hp : r.pending with
  | nil => exact Or.inr ⟨r, .completed, .completed hp, proceed_of_nil hp step now cancelled⟩
  | cons s rest =>
      cases cancelled with
      | true => exact Or.inr ⟨r, .cancelled, .cancelled hp, proceed_of_cancelled hp step now⟩
      | false =>
          rcases hs : r.bindings.execute step s.command with ⟨b, _ | e⟩
          · exact Or.inl ⟨_, proceed_of_ok hp hs now⟩
          · exact Or.inr ⟨_, .failed e, .failed hp hs, proceed_of_error hp hs now⟩

/-- A turn publishes the start of a job that was queued. Then the run goes on, or it is
closed and its end is published. -/
theorem turn_cases (r : Run) (step : Float) (now : Int) (cancelled : Bool) :
    (∃ r', r.turn step now cancelled = (.running r', (r.begin now).2)) ∨
    ∃ x ending, (r.begin now).1.Closes step cancelled x ending ∧
      r.turn step now cancelled =
        (.ended (x.finish now ending).1,
          (r.begin now).2 ++ ending.events (x.finish now ending).1) := by
  rw [turn_eq]
  rcases (r.begin now).1.proceed_cases step now cancelled with
    ⟨r', hgo⟩ | ⟨x, ending, hcloses, hend⟩
  · rw [hgo, List.append_nil]
    exact Or.inl ⟨r', rfl⟩
  · refine Or.inr ⟨x, ending, hcloses, ?_⟩
    rw [hend, ← finish_snd]
    rfl

theorem Closes.status_eq {r x : Run} {step : Float} {cancelled : Bool} {ending : Ending}
    (h : r.Closes step cancelled x ending) : x.job.status = r.job.status := by
  cases h <;> rfl

theorem Closes.startedAt_eq {r x : Run} {step : Float} {cancelled : Bool} {ending : Ending}
    (h : r.Closes step cancelled x ending) : x.job.startedAt = r.job.startedAt := by
  cases h <;> rfl

theorem startedAt_begin_of_queued {r : Run} (hr : r.job.status = .queued) (now : Int) :
    (r.begin now).1.job.startedAt = some now := by
  rw [begin, if_pos hr]
  rfl

theorem startedAt_begin_of_running {r : Run} (hr : r.job.status = .running) (now : Int) :
    (r.begin now).1.job.startedAt = r.job.startedAt := by
  rw [begin, if_neg (by rw [hr]; decide)]

/-- A turn tells the time only when it starts a job. -/
theorem startedAt_turn {r r' : Run} {step : Float} {now : Int} {cancelled : Bool}
    (h : (r.turn step now cancelled).1 = .running r') :
    r'.job.startedAt = (r.begin now).1.job.startedAt := by
  obtain ⟨s, rest, b, -, -, rfl⟩ := exists_of_turn_eq_running h
  rfl

/-- A running job that is closed is settled in the status of its ending. -/
theorem transition_results {r : Run} (hr : r.job.status = .running) (now : Int)
    (ending : Ending) :
    (r.results now).transition ending.status =
      .ok { r.results now with status := ending.status } := by
  have hstatus : (r.results now).status = .running := hr
  rw [Job.transition, hstatus, if_pos]
  exact ending.isFinal_status

theorem status_finish {r : Run} (hr : r.job.status = .running) (now : Int) (ending : Ending) :
    (r.finish now ending).1.status = ending.status := by
  have hset := settle_results hr now ending.isFinal_status
  cases ending with
  | completed => exact congrArg Job.status hset
  | cancelled => exact congrArg Job.status hset
  | failed e => exact congrArg Job.status hset

namespace Reaches

variable {r : Run} {step : Float} {statements done : List Statement}

theorem running_of_ne_nil (h : r.Reaches step statements done) (hdone : done ≠ []) :
    r.job.status = .running ∧ r.job.startedAt.isSome := by
  rcases h.started with ⟨-, -, hnil⟩ | hrunning
  · exact absurd hnil hdone
  · exact hrunning

theorem of_turn (h : r.Reaches step statements done) {now : Int} {cancelled : Bool} {r' : Run}
    (hturn : (r.turn step now cancelled).1 = .running r') :
    ∃ s, r'.Reaches step statements (done ++ [s]) := by
  obtain ⟨hb, hstatus⟩ := h.begin now
  obtain ⟨s, rest, b, hp, hs, rfl⟩ := exists_of_turn_eq_running hturn
  exact ⟨s, hb.advance hstatus hp hs⟩

end Reaches

end Run

end FlightScript
