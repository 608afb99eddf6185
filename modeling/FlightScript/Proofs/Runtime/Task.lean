import FlightScript.Proofs.Run.Count
import FlightScript.Proofs.Runtime.Poll

/-!
# Tasks and scripts

`t.Reaches step statements` ties a task to the statements of its script: its record shows how
many of them are executed, or it is final and made of them. A poll keeps that as long as the
task is pending (`Task.Reaches.of_polls`), and a record that is returned is made of as many
statements as were executed before (`Task.Reaches.endsAfter_of_polls`).
-/

namespace FlightScript

namespace Task

variable {t : Task} {step : Float} {now : Int} {cancelled : Bool} {s : Sink}

/-- The task carries out some statements. The record of the job shows how many are executed,
or it is final and made of them. -/
inductive Reaches (step : Float) (statements : List Statement) : Task → Prop where
  | ready {r : Run} (h : r.Reaches step statements (statements.take r.executed)) :
      Reaches step statements ⟨r, .ready⟩
  | starting {r : Run} (h : r.Reaches step statements (statements.take r.executed))
      (hr : r.job.status = .running) :
      Reaches step statements ⟨r, .starting (.started r.job.id r.job.script)⟩
  | closing {r : Run} {e : Event} (h : r.job.EndsAfter step statements r.executed)
      (hpending : r.pending.length = statements.length - r.executed)
      (htime : r.job.completedAt.isSome) (he : e.job = r.job.id) :
      Reaches step statements ⟨r, .closing e⟩

namespace Reaches

variable {statements : List Statement} {t' : Task} {s' : Sink} {j : Job}

theorem of_create (id : JobId) (user : String) (script : Option String)
    (statements : List Statement) (token : Token) (step : Float) :
    (create (.create (.create id user script) statements token)).Reaches step statements :=
  .ready (Run.reaches_create id user script statements token step)

theorem isSound (h : t.Reaches step statements) : t.IsSound := by
  cases h with
  | ready => trivial
  | starting _ hr => exact ⟨hr, rfl⟩
  | closing _ _ _ he => exact he

theorem run_reaches (h : t.Reaches step statements) (ht : ¬ t.IsClosing) :
    t.run.Reaches step statements (statements.take t.run.executed) := by
  cases h with
  | ready h => exact h
  | starting h => exact h
  | closing => exact absurd ⟨_, rfl⟩ ht

theorem executed_le (h : t.Reaches step statements) : t.run.executed ≤ statements.length := by
  cases h with
  | ready h => exact h.executed_le
  | starting h => exact h.executed_le
  | closing h => exact h.le_length

theorem length_pending (h : t.Reaches step statements) :
    t.run.pending.length = statements.length - t.run.executed := by
  cases h with
  | ready h => exact h.length_pending
  | starting h => exact h.length_pending
  | closing _ hpending => exact hpending

theorem cancel (h : t.Reaches step statements) : t.cancel.Reaches step statements := by
  cases h with
  | ready h => exact .ready (h.withToken _)
  | starting h hr => exact .starting (h.withToken _) hr
  | closing h hpending htime he => exact .closing h hpending htime he

/-- A task that stays pending is still in its statements, and no fewer are executed. -/
theorem of_polls (h : t.Reaches step statements)
    (hp : t.Polls step now cancelled s (.pending t', s')) :
    t'.Reaches step statements ∧ t.run.executed ≤ t'.run.executed := by
  cases hp with
  | starting ht =>
      obtain ⟨hb, hstatus⟩ := (h.run_reaches ht).begin now
      have horigin := t.run.origin_begin now
      have hid : (t.run.begin now).1.job.id = t.id := congrArg Prod.fst horigin
      have hscript : (t.run.begin now).1.job.script = t.job.script :=
        congrArg (fun o => o.2.1) horigin
      have hexecuted := t.run.executed_begin now
      rw [← hid, ← hscript]
      exact ⟨.starting (hexecuted ▸ hb) hstatus, Nat.le_of_eq hexecuted.symm⟩
  | running ht hturn =>
      obtain ⟨hexecuted, hreach, -⟩ :=
        (h.run_reaches ht).executed_of_turn (congrArg Prod.fst hturn)
      exact ⟨.ready hreach, hexecuted ▸ Nat.le_succ _⟩
  | @settled j e s₁ ht hturn he =>
      have hends := (h.run_reaches ht).endsAfter_of_turn (congrArg Prod.fst hturn)
      have hexecuted := t.run.executed_begin now
      have hid : j.id = t.id := by
        have horigin := t.run.origin_turn step now cancelled
        rw [hturn] at horigin
        exact congrArg Prod.fst horigin
      have htime : j.completedAt.isSome := by
        rw [Run.completedAt_of_turn (congrArg Prod.fst hturn)]
        rfl
      have hpending := ((h.run_reaches ht).begin now).1.length_pending
      refine ⟨.closing ?_ hpending htime (he.trans hid.symm), Nat.le_of_eq hexecuted.symm⟩
      rw [← hexecuted] at hends
      exact hends
  | closing => exact ⟨h, Nat.le_refl _⟩

/-- A record that is returned is made of the statements that were executed before. -/
theorem endsAfter_of_polls (h : t.Reaches step statements)
    (hp : t.Polls step now cancelled s (.ended j, s')) :
    j.EndsAfter step statements t.run.executed ∧ j.completedAt.isSome := by
  cases hp with
  | ended ht hturn =>
      refine ⟨(h.run_reaches ht).endsAfter_of_turn (congrArg Prod.fst hturn), ?_⟩
      rw [Run.completedAt_of_turn (congrArg Prod.fst hturn)]
      rfl
  | returned hp =>
      cases h with
      | ready => cases hp
      | starting => cases hp
      | closing h _ htime => exact ⟨h, htime⟩

end Reaches

end Task

end FlightScript
