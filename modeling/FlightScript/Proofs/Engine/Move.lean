import FlightScript.Engine.Operation

/-!
# The moves of an engine

An operation does one or several things at once, and waiting does as many rounds as
it takes. `e.moves operation` cuts it into moves, of which there are five: a round, a
submission, a cancellation, the collection of a final record, and a change of what
no job holds. `e.trace history` does the same for a whole history, and both lead to
the same engine (`run_moves`, `run_trace`). What holds after every history is proved
move by move.

`e.roundStates moves` are the states in which the rounds of some moves begin. These
are the only times at which anybody looks at the token of a job.
-/

namespace FlightScript

/-- A list splits at its head or at a place after it. -/
theorem exists_split_cons_iff {α : Type} {a : α} {l : List α} {P : List α → α → List α → Prop} :
    (∃ front b rest, a :: l = front ++ b :: rest ∧ P front b rest) ↔
      P [] a l ∨ ∃ front b rest, l = front ++ b :: rest ∧ P (a :: front) b rest := by
  constructor
  · rintro ⟨front, b, rest, hsplit, hp⟩
    cases front with
    | nil =>
        obtain ⟨rfl, rfl⟩ := List.cons.inj hsplit
        exact Or.inl hp
    | cons c front =>
        obtain ⟨rfl, rfl⟩ := List.cons.inj hsplit
        exact Or.inr ⟨front, b, rest, rfl, hp⟩
  · rintro (hp | ⟨front, b, rest, rfl, hp⟩)
    · exact ⟨[], a, l, rfl, hp⟩
    · exact ⟨a :: front, b, rest, rfl, hp⟩

theorem exists_split_cons_at_iff {α : Type} {a b : α} {l : List α}
    {P : List α → List α → Prop} :
    (∃ front rest, a :: l = front ++ b :: rest ∧ P front rest) ↔
      (a = b ∧ P [] l) ∨ ∃ front rest, l = front ++ b :: rest ∧ P (a :: front) rest := by
  simpa [and_left_comm] using
    exists_split_cons_iff (a := a) (l := l) (P := fun front c rest => c = b ∧ P front rest)

inductive Move where
  | round
  | submit (text user : String) (script : Option String) (follows : Option Nat)
  | cancel (id : JobId)
  | collect (id : JobId)
  /-- Signals, library and clock change. -/
  | environment (signals : Signals) (library : Library) (clock : Int)
  deriving DecidableEq

namespace Engine

def move (e : Engine) : Move → Engine
  | .round => e.round
  | .submit text user script follows => (e.submit text user script follows).1
  | .cancel id => (e.cancel id).1
  | .collect id => (e.collect id).1
  | .environment signals library clock =>
    { e with signals := signals, library := library, clock := clock }

def run (e : Engine) (moves : List Move) : Engine :=
  moves.foldl move e

def roundCount (id : JobId) : Nat → Engine → Nat
  | 0, _ => 0
  | n + 1, e =>
    match e.find? id with
    | some _ => roundCount id n e.round + 1
    | none => 0

def roundsToSettle (e : Engine) (id : JobId) : Nat :=
  match e.find? id with
  | some r => roundCount id (r.pending.length + 1) e
  | none => 0

/-- The move that puts a library in the place of another one, if there is one. -/
def libraryMoves (e : Engine) : Except LibraryError Library → List Move
  | .ok library => [.environment e.signals library e.clock]
  | .error _ => []

def moves (e : Engine) : Operation → List Move
  | .submit text user script follows =>
    [.submit text user script (follows.bind e.signals.find?)]
  | .submitSaved id user =>
    match e.savedScript id user with
    | .ok s => [.submit s.content user (some s.id) none]
    | .error _ => []
  | .wait id => List.replicate (e.roundsToSettle id) .round ++ [.collect id]
  | .cancel id => [.cancel id]
  | .createSignal name => [.environment (e.signals.create name) e.library e.clock]
  | .raiseSignal name => [.environment (e.raise name) e.library e.clock]
  | .save s => e.libraryMoves (e.library.add s)
  | .resave s => e.libraryMoves (e.library.update s e.clock)
  | .unsave id => e.libraryMoves (e.library.delete id)
  | .round => [.round]
  | .setClock now => [.environment e.signals e.library now]
  | .status _ | .list | .isRaised _ | .read _ | .validate _ => []

def trace (e : Engine) : List Operation → List Move
  | [] => []
  | operation :: rest => e.moves operation ++ (e.apply operation).1.trace rest

def roundState (e : Engine) : Move → List Engine
  | .round => [e]
  | _ => []

def roundStates (e : Engine) : List Move → List Engine
  | [] => []
  | m :: rest => e.roundState m ++ (e.move m).roundStates rest

@[simp] theorem run_nil (e : Engine) : e.run [] = e := rfl

theorem run_append (e : Engine) (front rest : List Move) :
    e.run (front ++ rest) = (e.run front).run rest := by
  rw [run, run, run, List.foldl_append]

theorem roundsFor_eq_run (id : JobId) (n : Nat) (e : Engine) :
    roundsFor id n e = e.run (List.replicate (roundCount id n e) .round) := by
  induction n generalizing e with
  | zero => rfl
  | succ n ih =>
      cases h : e.find? id with
      | none => simp [roundsFor, roundCount, h]
      | some r =>
          simp only [roundsFor, roundCount, h, List.replicate_succ]
          exact ih e.round

theorem settle_eq_run (e : Engine) (id : JobId) :
    e.settle id = e.run (List.replicate (e.roundsToSettle id) .round) := by
  cases h : e.find? id with
  | none => simp [settle, roundsToSettle, h]
  | some r =>
      simp only [settle, roundsToSettle, h]
      exact roundsFor_eq_run id _ e

/-- The moves of an operation have its effect. -/
theorem run_moves (e : Engine) (operation : Operation) :
    e.run (e.moves operation) = (e.apply operation).1 := by
  cases operation with
  | submitSaved id user =>
      cases h : e.savedScript id user with
      | ok s =>
          simp only [moves, apply, submitSaved, h]
          rfl
      | error err =>
          simp only [moves, apply, submitSaved, h]
          rfl
  | wait id =>
      rw [moves, run_append, ← settle_eq_run]
      rfl
  | save s =>
      cases h : e.library.add s <;> simp only [moves, libraryMoves, apply, h] <;> rfl
  | resave s =>
      cases h : e.library.update s e.clock <;> simp only [moves, libraryMoves, apply, h] <;> rfl
  | unsave id =>
      cases h : e.library.delete id <;> simp only [moves, libraryMoves, apply, h] <;> rfl
  | _ => rfl

theorem run_trace (e : Engine) (history : List Operation) :
    e.run (e.trace history) = e.after history := by
  induction history generalizing e with
  | nil => rfl
  | cons operation rest ih =>
      rw [trace, run_append, run_moves, ih, after_cons]

theorem trace_append (e : Engine) (h k : List Operation) :
    e.trace (h ++ k) = e.trace h ++ (e.after h).trace k := by
  induction h generalizing e with
  | nil => rfl
  | cons operation rest ih =>
      rw [List.cons_append, trace, trace, ih, after_cons, List.append_assoc]

theorem eq_wait_of_collect_mem {e : Engine} {operation : Operation} {id : JobId}
    (h : Move.collect id ∈ e.moves operation) : operation = .wait id := by
  cases operation with
  | wait other =>
      rw [moves, List.mem_append, List.mem_replicate, List.mem_singleton] at h
      rcases h with ⟨-, hround⟩ | hcollect
      · cases hround
      · cases hcollect
        rfl
  | submitSaved other user =>
      cases hs : e.savedScript other user <;> simp [moves, hs] at h
  | save s => cases hl : e.library.add s <;> simp [moves, libraryMoves, hl] at h
  | resave s => cases hl : e.library.update s e.clock <;> simp [moves, libraryMoves, hl] at h
  | unsave other => cases hl : e.library.delete other <;> simp [moves, libraryMoves, hl] at h
  | _ => simp [moves] at h

theorem collect_not_mem_trace {e : Engine} {history : List Operation} {id : JobId}
    (h : Operation.wait id ∉ history) : Move.collect id ∉ e.trace history := by
  induction history generalizing e with
  | nil => exact List.not_mem_nil
  | cons operation rest ih =>
      rw [List.mem_cons, not_or] at h
      rw [trace, List.mem_append, not_or]
      refine ⟨fun hm => h.1 ?_, ih h.2⟩
      exact (eq_wait_of_collect_mem hm).symm

theorem roundStates_append (e : Engine) (front rest : List Move) :
    e.roundStates (front ++ rest) = e.roundStates front ++ (e.run front).roundStates rest := by
  induction front generalizing e with
  | nil => rfl
  | cons m front ih =>
      rw [List.cons_append, roundStates, roundStates, ih, List.append_assoc]
      rfl

/-- A round begins in the state that the moves before it lead to. -/
theorem mem_roundStates_iff {e x : Engine} {moves : List Move} :
    x ∈ e.roundStates moves ↔
      ∃ front rest, moves = front ++ .round :: rest ∧ x = e.run front := by
  induction moves generalizing e with
  | nil => simp [roundStates]
  | cons m moves ih =>
      rw [roundStates, List.mem_append, ih, exists_split_cons_at_iff]
      refine or_congr ?_ Iff.rfl
      cases m <;> simp [roundState]

end Engine

end FlightScript
