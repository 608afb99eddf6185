import FlightScript.Proofs.Engine.Surroundings

/-!
# Histories without the library

What a history of operations does to jobs can be done without the library:
`e.inlined history` leaves out the operations that change the library, and submits the text of
a saved script in the place of the script. In an engine with any other library this leads to
the same jobs (`withLibrary_after_inlined`). So the text that a saved script has at its
submission is all that ever reaches a job, whatever becomes of the script afterwards.
-/

namespace FlightScript

namespace Engine

/-- What does the same as an operation to jobs, without the library. -/
def inline (e : Engine) : Operation → List Operation
  | .submitSaved id user =>
    match e.savedScript id user with
    | .ok s => [.submit s.content user (some s.id) none]
    | .error _ => []
  | .save _ | .resave _ | .unsave _ => []
  | operation => [operation]

def inlined (e : Engine) : List Operation → List Operation
  | [] => []
  | operation :: rest => e.inline operation ++ (e.apply operation).1.inlined rest

variable {e : Engine} {operation : Operation}

/-- A saved script that a user may run is submitted as its text. -/
theorem apply_submitSaved_of_ok {id user : String} {s : SavedScript}
    (h : e.savedScript id user = .ok s) :
    e.apply (.submitSaved id user) = e.apply (.submit s.content user (some s.id) none) := by
  simp only [apply, submitSaved, h]
  rfl

theorem apply_submitSaved_of_error {id user : String} {error : EngineError}
    (h : e.savedScript id user = .error error) :
    e.apply (.submitSaved id user) = (e, .failed error) := by
  simp only [apply, submitSaved, h]
  rfl

theorem inline_of_changesLibrary (h : operation.changesLibrary = true) :
    e.inline operation = [] := by
  cases operation with
  | save s => rfl
  | resave s => rfl
  | unsave id => rfl
  | _ => cases h

theorem inline_of_not (hchanges : operation.changesLibrary = false)
    (hruns : operation.runsSaved = false) : e.inline operation = [operation] := by
  cases operation with
  | save s => cases hchanges
  | resave s => cases hchanges
  | unsave id => cases hchanges
  | submitSaved id user => cases hruns
  | _ => rfl

theorem withLibrary_after_inline (e : Engine) (l : Library) (operation : Operation) :
    (e.withLibrary l).after (e.inline operation) = (e.apply operation).1.withLibrary l := by
  cases hchanges : operation.changesLibrary with
  | true =>
      obtain ⟨f, hf⟩ := exists_apply_of_changesLibrary hchanges
      rw [inline_of_changesLibrary hchanges, hf]
      rfl
  | false =>
      cases hruns : operation.runsSaved with
      | false =>
          rw [inline_of_not hchanges hruns, after_cons, after_nil,
            e.apply_withLibrary l hchanges hruns]
      | true =>
          cases operation with
          | submitSaved id user =>
              cases hsaved : e.savedScript id user with
              | error error =>
                  simp only [inline, hsaved, apply_submitSaved_of_error hsaved, after_nil]
              | ok s =>
                  simp only [inline, hsaved, apply_submitSaved_of_ok hsaved, after_cons, after_nil]
                  rw [apply_withLibrary e l rfl rfl]
          | _ => cases hruns

/-- A history leads to the same jobs as what does the same without the library. -/
theorem withLibrary_after_inlined (e : Engine) (l : Library) (history : List Operation) :
    (e.withLibrary l).after (e.inlined history) = (e.after history).withLibrary l := by
  induction history generalizing e with
  | nil => rfl
  | cons operation rest ih =>
      rw [inlined, after_append, withLibrary_after_inline, ih, after_cons]

/-- A history that runs no saved script only loses the operations on the library. -/
theorem inlined_eq_filter {history : List Operation}
    (h : ∀ operation ∈ history, operation.runsSaved = false) (e : Engine) :
    e.inlined history = history.filter fun operation => !operation.changesLibrary := by
  induction history generalizing e with
  | nil => rfl
  | cons operation rest ih =>
      have hrest := ih fun other hother => h other (List.mem_cons_of_mem _ hother)
      rw [inlined, hrest]
      cases hchanges : operation.changesLibrary with
      | true =>
          rw [inline_of_changesLibrary hchanges, List.filter_cons_of_neg (by simp [hchanges])]
          rfl
      | false =>
          rw [inline_of_not hchanges (h operation List.mem_cons_self),
            List.filter_cons_of_pos (by simp [hchanges])]
          rfl

/-- The answer to a look at a job, or to waiting for it, is the same without the library. -/
theorem apply_after_inlined (e : Engine) (l : Library) (history : List Operation)
    (hchanges : operation.changesLibrary = false) (hruns : operation.runsSaved = false) :
    (((e.withLibrary l).after (e.inlined history)).apply operation).2 =
      ((e.after history).apply operation).2 := by
  rw [withLibrary_after_inlined, apply_withLibrary _ l hchanges hruns]

end Engine

end FlightScript
