import FlightScript.Proofs.Runtime.Course
import FlightScript.Runtime.Operation

/-!
# The steps of an operation

A history of operations comes down to steps (`run_trace`), so that what holds after all steps
holds after every history. Whether a job has to wait for room depends on the channel and on what
its receiver does: `rt.FindsRoom id steps` says that one job finds room whenever it is polled in
some steps, and `rt.NeverWaits steps` that no task waits in any of the states in between. Without
a channel that is always so (`Sound.neverWaits`).
-/

namespace FlightScript

namespace Runtime

def callSteps (rt : Runtime) : Operation → List Step
  | .submit text user script follows =>
    [.submit text user script (follows.bind rt.signals.find?)]
  | .submitSaved id user =>
    match rt.engine.savedScript id user with
    | .ok s => [.submit s.content user (some s.id) none]
    | .error _ => []
  | .wait id => if id ∈ rt.completions then rt.waitSteps id else []
  | .cancel id => [.cancel id]
  | .round => rt.roundSteps
  | .status _ | .list => []
  | operation =>
    let (e, _) := rt.engine.apply operation
    [.environment e.signals e.library e.clock]

def actSteps (rt : Runtime) : Act → List Step
  | .call operation => rt.callSteps operation
  | .receive => [.receive]

def trace (rt : Runtime) : List Act → List Step
  | [] => []
  | a :: rest => rt.actSteps a ++ (rt.act a).1.trace rest

def turn (rt : Runtime) (t : Task) : Progress × List Event :=
  t.run.turn rt.defaultStep rt.clock (t.run.token.isCancelled rt.signals)

/-- No task waits for room. -/
def AllReady (rt : Runtime) : Prop :=
  ∀ t ∈ rt.tasks, t.phase = .ready

instance (rt : Runtime) : Decidable rt.AllReady :=
  inferInstanceAs (Decidable (∀ t ∈ rt.tasks, t.phase = .ready))

/-- No task has to wait for room after any of some steps. -/
def NeverWaits : Runtime → List Step → Prop
  | _, [] => True
  | rt, s :: rest => (rt.step s).AllReady ∧ (rt.step s).NeverWaits rest

instance decidableNeverWaits :
    (rt : Runtime) → (steps : List Step) → Decidable (rt.NeverWaits steps)
  | _, [] => isTrue trivial
  | rt, s :: rest =>
    have := decidableNeverWaits (rt.step s) rest
    inferInstanceAs (Decidable ((rt.step s).AllReady ∧ (rt.step s).NeverWaits rest))

/-- A job is not made to wait by any poll among some steps. -/
def FindsRoom (id : JobId) : Runtime → List Step → Prop
  | _, [] => True
  | rt, s :: rest =>
    (s = .poll id → ∀ t ∈ (rt.step s).find? id, t.phase = .ready) ∧ FindsRoom id (rt.step s) rest

instance decidableFindsRoom (id : JobId) :
    (rt : Runtime) → (steps : List Step) → Decidable (FindsRoom id rt steps)
  | _, [] => isTrue trivial
  | rt, s :: rest =>
    have := decidableFindsRoom id (rt.step s) rest
    inferInstanceAs (Decidable
      ((s = .poll id → ∀ t ∈ (rt.step s).find? id, t.phase = .ready) ∧
        FindsRoom id (rt.step s) rest))

theorem run_callSteps (rt : Runtime) (operation : Operation) :
    rt.run (rt.callSteps operation) = (rt.apply operation).1 := by
  cases operation with
  | submitSaved id user =>
      cases h : rt.engine.savedScript id user with
      | ok s =>
          simp only [callSteps, apply, submitSaved, h]
          rfl
      | error e =>
          simp only [callSteps, apply, submitSaved, h]
          rfl
  | wait id =>
      by_cases h : id ∈ rt.completions
      · simp only [callSteps, apply, wait, if_pos h, waitSteps, run_append]
        rfl
      · simp only [callSteps, apply, wait, if_neg h]
        rfl
  | _ => rfl

theorem run_actSteps (rt : Runtime) (a : Act) : rt.run (rt.actSteps a) = (rt.act a).1 := by
  cases a with
  | call operation => exact rt.run_callSteps operation
  | receive => rfl

theorem run_trace (rt : Runtime) (history : List Act) :
    rt.run (rt.trace history) = rt.after history := by
  induction history generalizing rt with
  | nil => rfl
  | cons a rest ih => rw [trace, run_append, run_actSteps, ih, after_cons]

theorem trace_append (rt : Runtime) (h k : List Act) :
    rt.trace (h ++ k) = rt.trace h ++ (rt.after h).trace k := by
  induction h generalizing rt with
  | nil => rfl
  | cons a rest ih => rw [List.cons_append, trace, trace, ih, after_cons, List.append_assoc]

variable {rt : Runtime} {id : JobId} {t : Task} {steps front rest : List Step}

theorem neverWaits_append :
    rt.NeverWaits (front ++ rest) ↔ rt.NeverWaits front ∧ (rt.run front).NeverWaits rest := by
  induction front generalizing rt with
  | nil => simp [NeverWaits]
  | cons s front ih => rw [List.cons_append, NeverWaits, NeverWaits, ih, and_assoc, run_cons]

theorem AllReady.run (h : rt.AllReady) (hsteps : rt.NeverWaits steps) :
    (rt.run steps).AllReady := by
  induction steps generalizing rt with
  | nil => exact h
  | cons s rest ih => exact ih hsteps.1 hsteps.2

theorem findsRoom_append :
    FindsRoom id rt (front ++ rest) ↔ FindsRoom id rt front ∧ FindsRoom id (rt.run front) rest := by
  induction front generalizing rt with
  | nil => simp [FindsRoom]
  | cons s front ih => rw [List.cons_append, FindsRoom, FindsRoom, ih, and_assoc, run_cons]

theorem NeverWaits.findsRoom (h : rt.NeverWaits steps) (id : JobId) : FindsRoom id rt steps := by
  induction steps generalizing rt with
  | nil => trivial
  | cons s rest ih => exact ⟨fun _ t hf => h.1 t (of_find?_eq_some hf).1, ih h.2⟩

/-! ### Turns -/

/-- A poll is a turn if no task waits before it or after it, and the sink takes the events. -/
theorem Sound.pollTask_eq (h : rt.Sound) (hready : rt.AllReady) (hf : rt.find? id = some t)
    (hnext : (rt.poll id).AllReady) :
    (rt.pollTask t).1 = .ofProgress (rt.turn t).1 ∧
      (rt.pollTask t).2.queue =
        rt.sink.queue ++ rt.sink.publisher.deliver (rt.turn t).2 := by
  refine (h.polls_of_eq hf rfl).eq_ofProgress (hready t (of_find?_eq_some hf).1) fun t' hp => ?_
  have hself := find?_poll_self h hf
  rw [hp] at hself
  exact hnext t' (of_find?_eq_some hself).1

/-! ### Sinks without a line -/

theorem Sound.publisher_step (h : rt.Sound) (s : Step) :
    (rt.step s).sink.publisher = rt.sink.publisher := by
  cases s with
  | submit text user script follows =>
      cases hv : (validate text).isValid with
      | false => rw [Runtime.step, submit_of_not_valid hv]
      | true =>
          rw [Runtime.step, submit_of_valid hv]
          rfl
  | poll id =>
      rw [Runtime.step]
      cases hf : rt.find? id with
      | none => rw [poll_eq_self hf]
      | some t =>
          have hpolls := (h.polls_of_eq hf rfl).publisher_eq
          rw [poll_eq hf]
          cases (rt.pollTask t).1 <;> exact hpolls
  | receive => exact Sink.publisher_receive _
  | cancel id =>
      rw [Runtime.step, Runtime.cancel]
      split <;> rfl
  | collect id =>
      rw [Runtime.step, Runtime.collect]
      split <;> rfl
  | _ => rfl

theorem Sound.allReady (h : rt.Sound) (hs : rt.sink.publisher ≠ .channel) : rt.AllReady := by
  intro t ht
  by_contra hne
  have hwaiting := h.mem_waiting t ht hne
  cases hsink : rt.sink with
  | channel c =>
      rw [hsink] at hs
      exact hs rfl
  | closed =>
      rw [hsink] at hwaiting
      cases hwaiting
  | discard =>
      rw [hsink] at hwaiting
      cases hwaiting

theorem Sound.neverWaits (h : rt.Sound) (hs : rt.sink.publisher ≠ .channel)
    (steps : List Step) : rt.NeverWaits steps := by
  induction steps generalizing rt with
  | nil => trivial
  | cons s rest ih =>
      have hstep := h.step s
      rw [← h.publisher_step s] at hs
      exact ⟨hstep.allReady hs, ih hstep hs⟩

end Runtime

end FlightScript
