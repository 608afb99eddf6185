import FlightScript.Execution
import FlightScript.Script.Statement

/-!
# Statements in sequence

`b.executeAll step statements` executes statements one after the other, each in the
bindings that the ones before it leave, up to the first one that fails. It knows
nothing of turns, tokens or records: it is what the run of a job is compared with.

A sequence splits at every place (`executeAll_append`), and it fails in exactly one
way: its statements up to some point are executed and the next one gives an error
(`executeAll_eq_error_iff`). A command that fails leaves the values and the log as
they were.
-/

namespace FlightScript

namespace Bindings

/-- The first statement of a sequence that fails. -/
structure Failure where
  /-- The statements before it, which were executed. -/
  before : List Statement
  /-- What those statements made. -/
  bindings : Bindings
  statement : Statement
  error : ExecutionError
  deriving DecidableEq

namespace Failure

/-- The failure in a sequence that has some more statements at its front. -/
def after (front : List Statement) (f : Failure) : Failure :=
  { f with before := front ++ f.before }

@[simp] theorem mapError_after_ok (front : List Statement) (b : Bindings) :
    (Except.ok b).mapError (after front) = .ok b := rfl

@[simp] theorem mapError_after_error (front : List Statement) (f : Failure) :
    (Except.error f : Except Failure Bindings).mapError (after front) = .error (f.after front) :=
  rfl

end Failure

/-- The bindings after a sequence of statements, or the first failure in it. -/
def executeAll (b : Bindings) (step : Float) : List Statement → Except Failure Bindings
  | [] => .ok b
  | s :: rest =>
    match b.execute step s.command with
    | (b', none) => (b'.executeAll step rest).mapError (Failure.after [s])
    | (_, some e) => .error ⟨[], b, s, e⟩

theorem executeAll_cons_of_ok {b b' : Bindings} {step : Float} {s : Statement}
    (h : b.execute step s.command = (b', none)) (rest : List Statement) :
    b.executeAll step (s :: rest) =
      (b'.executeAll step rest).mapError (Failure.after [s]) := by
  rw [executeAll, h]

theorem executeAll_cons_of_error {b b' : Bindings} {step : Float} {s : Statement}
    {e : ExecutionError} (h : b.execute step s.command = (b', some e))
    (rest : List Statement) : b.executeAll step (s :: rest) = .error ⟨[], b, s, e⟩ := by
  rw [executeAll, h]

/-- A sequence is executed if its first statement and then the others are. -/
theorem executeAll_cons_eq_ok_iff {b c : Bindings} {step : Float} {s : Statement}
    {rest : List Statement} :
    b.executeAll step (s :: rest) = .ok c ↔
      ∃ b', b.execute step s.command = (b', none) ∧ b'.executeAll step rest = .ok c := by
  rcases hs : b.execute step s.command with ⟨b', _ | e⟩
  · rw [executeAll_cons_of_ok hs]
    cases hr : b'.executeAll step rest with
    | ok d => simp [hr]
    | error f => simp [hr]
  · rw [executeAll_cons_of_error hs]
    simp

/-- A sequence goes on in the bindings that its front leaves. -/
theorem executeAll_append {b c : Bindings} {step : Float} {front : List Statement}
    (h : b.executeAll step front = .ok c) (rest : List Statement) :
    b.executeAll step (front ++ rest) =
      (c.executeAll step rest).mapError (Failure.after front) := by
  induction front generalizing b with
  | nil =>
      obtain rfl := Except.ok.inj h
      cases hb : b.executeAll step rest with
      | ok d => exact hb
      | error f => exact hb
  | cons s front ih =>
      obtain ⟨b', hs, hfront⟩ := executeAll_cons_eq_ok_iff.1 h
      rw [List.cons_append, executeAll_cons_of_ok hs, ih hfront]
      cases hc : c.executeAll step rest with
      | ok d => rfl
      | error f => rfl

/-- A sequence is executed if its front and then the rest of it are. -/
theorem executeAll_append_eq_ok_iff {b c : Bindings} {step : Float}
    {front rest : List Statement} :
    b.executeAll step (front ++ rest) = .ok c ↔
      ∃ d, b.executeAll step front = .ok d ∧ d.executeAll step rest = .ok c := by
  induction front generalizing b with
  | nil => simp [executeAll]
  | cons s front ih =>
      simp only [List.cons_append, executeAll_cons_eq_ok_iff, ih]
      grind

theorem executeAll_append_singleton {b c c' : Bindings} {step : Float}
    {done : List Statement} {s : Statement} (hdone : b.executeAll step done = .ok c)
    (hs : c.execute step s.command = (c', none)) :
    b.executeAll step (done ++ [s]) = .ok c' := by
  rw [executeAll_append hdone, executeAll_cons_of_ok hs]
  rfl

/-- A statement that fails after a sequence is the first failure, whatever follows. -/
theorem executeAll_append_cons_of_error {b c c' : Bindings} {step : Float}
    {done : List Statement} {s : Statement} {e : ExecutionError}
    (hdone : b.executeAll step done = .ok c) (hs : c.execute step s.command = (c', some e))
    (rest : List Statement) :
    b.executeAll step (done ++ s :: rest) = .error ⟨done, c, s, e⟩ := by
  rw [executeAll_append hdone, executeAll_cons_of_error hs, Failure.mapError_after_error,
    Failure.after, List.append_nil]

/-- A failure is where the statements before it are executed and the next one gives
an error. -/
theorem executeAll_eq_error_iff {b : Bindings} {step : Float} {statements : List Statement}
    {f : Failure} :
    b.executeAll step statements = .error f ↔
      (∃ rest, statements = f.before ++ f.statement :: rest) ∧
        b.executeAll step f.before = .ok f.bindings ∧
        (f.bindings.execute step f.statement.command).2 = some f.error := by
  constructor
  · intro h
    induction statements generalizing b f with
    | nil => cases h
    | cons s rest ih =>
        rcases hs : b.execute step s.command with ⟨b', _ | e⟩
        · rw [executeAll_cons_of_ok hs] at h
          cases hr : b'.executeAll step rest with
          | ok d => simp [hr] at h
          | error g =>
              obtain rfl : g.after [s] = f := by simpa [hr] using h
              obtain ⟨⟨tail, rfl⟩, hbefore, herror⟩ := ih hr
              refine ⟨⟨tail, rfl⟩, ?_, herror⟩
              change b.executeAll step (s :: g.before) = .ok g.bindings
              rw [executeAll_cons_of_ok hs, hbefore]
              rfl
        · rw [executeAll_cons_of_error hs] at h
          obtain rfl := Except.error.inj h
          exact ⟨⟨rest, rfl⟩, rfl, by rw [hs]⟩
  · rintro ⟨⟨rest, rfl⟩, hbefore, herror⟩
    exact executeAll_append_cons_of_error hbefore (Prod.ext rfl herror) rest

/-- A command that fails leaves the values and the log as they were. -/
theorem execute_of_error {b b' : Bindings} {step : Float} {c : Command}
    {e : ExecutionError} (h : b.execute step c = (b', some e)) :
    b'.values = b.values ∧ b'.log = b.log := by
  cases c with
  | set object property v =>
      simp only [execute, set] at h
      cases hobj : b.objects.get? object with
      | none => simp [hobj] at h
      | some o =>
          rcases ho : o.set property v with ⟨changed, _ | error⟩
          · simp [hobj, ho] at h
          · simp only [hobj, ho, Prod.mk.injEq] at h
            obtain ⟨rfl, -⟩ := h
            exact ⟨rfl, rfl⟩
  | propagate propagator spacecraft stop =>
      simp only [execute, propagate] at h
      cases hi : b.interval step propagator stop with
      | error err =>
          simp only [hi, Prod.mk.injEq] at h
          obtain ⟨rfl, -⟩ := h
          exact ⟨rfl, rfl⟩
      | ok days =>
          cases hm : b.moved spacecraft days with
          | error err =>
              simp only [hi, hm, Prod.mk.injEq] at h
              obtain ⟨rfl, -⟩ := h
              exact ⟨rfl, rfl⟩
          | ok craft => simp [hi, hm] at h
  | _ => simp [execute] at h

end Bindings

end FlightScript
