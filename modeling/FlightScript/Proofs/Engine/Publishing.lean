import FlightScript.Proofs.Engine.Announcement
import FlightScript.Proofs.Engine.Surroundings

/-!
# Events and jobs

An engine with any publisher does what the engine does whose events are all received, and of
those events its receiver gets what the publisher delivers (`after_create_eq_heardBy`).
-/

namespace FlightScript

namespace Engine

/-- The engine that has another publisher, and always had. -/
def heardBy (e : Engine) (p : Publisher) : Engine :=
  e.within p e.library (p.deliver e.received)

variable {e : Engine}

theorem publisher_apply (e : Engine) (operation : Operation) :
    (e.apply operation).1.publisher = e.publisher := by
  rw [← run_moves, publisher_run]

/-- An operation does the same whatever the publisher is. -/
theorem apply_heardBy (he : e.publisher = .channel) (p : Publisher) (operation : Operation) :
    (e.heardBy p).apply operation =
      ((e.apply operation).1.heardBy p, (e.apply operation).2) := by
  cases hchanges : operation.changesLibrary with
  | true =>
      obtain ⟨f, hf⟩ := exists_apply_of_changesLibrary hchanges
      rw [hf, hf]
      rfl
  | false =>
      cases hruns : operation.runsSaved with
      | false =>
          obtain ⟨es, hes⟩ := e.exists_apply_within hchanges hruns
          have hown : e.apply operation = _ := hes e.publisher e.library e.received
          rw [heardBy, hes, hown, heardBy, he, Publisher.deliver_channel]
          simp only [within, Publisher.deliver_append]
      | true =>
          cases operation with
          | submitSaved id user =>
              have hown : e.apply (.submitSaved id user) = _ :=
                e.apply_submitSaved_within e.publisher e.received id user
              rw [heardBy, apply_submitSaved_within, hown]
              rfl
          | _ => cases hruns

theorem after_heardBy (he : e.publisher = .channel) (p : Publisher) (history : List Operation) :
    (e.heardBy p).after history = (e.after history).heardBy p := by
  induction history generalizing e with
  | nil => rfl
  | cons operation rest ih =>
      rw [after_cons, after_cons, apply_heardBy he]
      exact ih ((e.publisher_apply operation).trans he)

theorem published_heardBy (e : Engine) (p : Publisher) (id : JobId) :
    (e.heardBy p).published id = p.deliver (e.published id) := by
  by_cases hp : p = .channel
  · subst hp
    rw [heardBy, Publisher.deliver_channel, Publisher.deliver_channel]
    rfl
  · rw [heardBy, Publisher.deliver_of_ne_channel hp, Publisher.deliver_of_ne_channel hp]
    rfl

theorem after_create_eq_heardBy (step : Float) (usesLibrary : Bool) (history : List Operation)
    (p : Publisher) :
    (create step p usesLibrary).after history =
      ((create step .channel usesLibrary).after history).heardBy p := by
  have hstart : create step p usesLibrary = (create step .channel usesLibrary).heardBy p := rfl
  rw [hstart]
  exact after_heardBy rfl p history

end Engine

end FlightScript
