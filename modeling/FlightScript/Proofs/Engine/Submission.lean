import FlightScript.Proofs.Engine.Course
import FlightScript.Proofs.Engine.Request

/-!
# Submissions

A script is submitted as a text or by the name under which the library has it. If it
is valid, it is queued (`exists_queued`), in every engine that comes out of a history
of operations: the new job has all of its statements to go, and a new token, which
follows the signal that the submission names.
-/

namespace FlightScript

namespace Engine

/-- The engine comes out of a history of operations on a new one. -/
def Reachable (e : Engine) : Prop :=
  ∃ step publisher usesLibrary history, (create step publisher usesLibrary).after history = e

/-- The text of the script that an operation submits. -/
def submitted? (e : Engine) : Operation → Option String
  | .submit text _ _ _ => some text
  | .submitSaved id user =>
    match e.savedScript id user with
    | .ok s => some s.content
    | .error _ => none
  | _ => none

def followed? (e : Engine) : Operation → Option Nat
  | .submit _ _ _ follows => follows.bind e.signals.find?
  | _ => none

/-- An operation submits a text on behalf of a user, perhaps that of a saved script. -/
inductive Submits (e : Engine) : Operation → String → String → Option String → Prop where
  | submit (text user : String) (script follows : Option String) :
      Submits e (.submit text user script follows) text user script
  | submitSaved {id : String} {s : SavedScript} (user : String)
      (hs : e.savedScript id user = .ok s) :
      Submits e (.submitSaved id user) s.content user (some s.id)

/-- The job was just queued with some statements, to follow a signal or none. -/
structure IsQueued (e : Engine) (queued : Job) (statements : List Statement)
    (follows : Option Nat) : Prop where
  numbered : e.Numbered
  isUnderWay : e.IsUnderWay queued.origin statements
  hasToken : e.HasToken queued.id (.create follows)

theorem Reachable.numbered {e : Engine} (h : e.Reachable) : e.Numbered := by
  obtain ⟨step, publisher, usesLibrary, history, rfl⟩ := h
  exact (Numbered.of_create step publisher usesLibrary).after history

theorem defaultStep_apply (e : Engine) (operation : Operation) :
    (e.apply operation).1.defaultStep = e.defaultStep := by
  rw [← run_moves, defaultStep_run]

theorem isQueued_submit {e : Engine} (he : e.Numbered) {text : String}
    (h : (validate text).isValid) (user : String) (script : Option String)
    (follows : Option Nat) :
    (e.submit text user script follows).1.IsQueued (Job.create (.numbered e.created) user script)
      (Script.read text).executable follows := by
  have hnumbered := he.move (.submit text user script follows)
  rw [move] at hnumbered
  rw [submit_of_valid h] at hnumbered ⊢
  refine ⟨hnumbered, ?_, ⟨e.created, Nat.lt_succ_self _, rfl⟩, ?_⟩
  · refine ⟨_, List.mem_append_right _ (List.mem_singleton_self _), rfl, [], ?_⟩
    exact Run.reaches_create (.numbered e.created) user script _ _ _
  · intro r hr hid
    have hnew := hnumbered.eq_of_id_eq hr
      (List.mem_append_right _ (List.mem_singleton_self _)) hid
    rw [hnew]
    rfl

namespace Submits

variable {e : Engine} {submission : Operation} {text user : String} {script : Option String}

theorem apply_eq (h : e.Submits submission text user script) :
    e.apply submission =
      ((e.submit text user script (e.followed? submission)).1,
        .ofExcept .job (e.submit text user script (e.followed? submission)).2) := by
  cases h with
  | submit => rfl
  | submitSaved user hs => rw [Engine.apply, Engine.submitSaved, hs]; rfl

theorem moves_eq (h : e.Submits submission text user script) :
    e.moves submission = [.submit text user script (e.followed? submission)] := by
  cases h with
  | submit => rfl
  | submitSaved user hs => rw [moves, hs]; rfl

/-- The run of a valid script that is submitted has everything before it. -/
theorem mem_active (h : e.Submits submission text user script) (hv : (validate text).isValid) :
    Run.create (Job.create (.numbered e.created) user script) (Script.read text).executable
      (.create (e.followed? submission)) ∈ (e.apply submission).1.active := by
  rw [h.apply_eq]
  dsimp only
  rw [submit_of_valid hv]
  exact List.mem_append_right _ (List.mem_singleton_self _)

/-- A valid script that is submitted is queued under the next number. -/
theorem isQueued (h : e.Submits submission text user script) (he : e.Numbered)
    (hv : (validate text).isValid) :
    (e.apply submission).2 = .job (Job.create (.numbered e.created) user script) ∧
      (e.apply submission).1.IsQueued (Job.create (.numbered e.created) user script)
        (Script.read text).executable (e.followed? submission) := by
  rw [h.apply_eq]
  refine ⟨?_, isQueued_submit he hv user script _⟩
  rw [submit_of_valid hv]
  rfl

end Submits

theorem exists_submits {e : Engine} {submission : Operation} {text : String}
    (h : e.submitted? submission = some text) :
    ∃ user script, e.Submits submission text user script := by
  cases submission with
  | submit text' user script follows =>
      obtain rfl : text' = text := by simpa [submitted?] using h
      exact ⟨user, script, .submit text' user script follows⟩
  | submitSaved id user =>
      cases hsaved : e.savedScript id user with
      | error err => simp [submitted?, hsaved] at h
      | ok s =>
          obtain rfl : s.content = text := by simpa [submitted?, hsaved] using h
          exact ⟨user, some s.id, .submitSaved user hsaved⟩
  | _ => simp [submitted?] at h

theorem exists_queued {e : Engine} (he : e.Numbered) {submission : Operation} {text : String}
    (hs : e.submitted? submission = some text) (hv : (validate text).isValid) :
    ∃ queued, (e.apply submission).2 = .job queued ∧
      (e.apply submission).1.IsQueued queued (Script.read text).executable
        (e.followed? submission) := by
  obtain ⟨user, script, hsubmits⟩ := exists_submits hs
  exact ⟨_, hsubmits.isQueued he hv⟩

end Engine

end FlightScript
