import FlightScript.Proofs.Engine.Publishing
import FlightScript.Proofs.Engine.Rejection

/-!
# Admission of scripts

A text is admitted just if validation finds no error in it (`gated_by_validation`). A text that
is not admitted costs the engine one number and nothing else: its job is handed back, failed
and with the errors of validation, and no one can look at it, cancel it or wait for it
afterwards. An admitted text gives the engine one more job, which waits for its first turn,
and all that was there stays as it was.
-/

open scoped List

namespace FlightScript

namespace Engine

/-- Whoever looks at the job, cancels it or waits for it finds nothing, and changes
nothing. -/
structure Ignores (e : Engine) (id : JobId) : Prop where
  status : e.apply (.status id) = (e, .failed (.unknownJob id))
  cancel : e.apply (.cancel id) = (e, .failed (.unknownJob id))
  wait : e.apply (.wait id) = (e, .failed (.unknownJob id))

/-- The engine `e'` has one more job than `e`, with a new name, and differs in nothing else.
Nothing was published of the job. -/
structure Admits (e : Engine) (r : Run) (e' : Engine) : Prop where
  eq : e' = { e with created := e.created + 1, active := e.active ++ [r] }
  jobs_eq : e'.jobs = e.jobs ++ [r.job]
  not_mem_ids : r.job.id ∉ e.ids
  perm_ids : e'.ids ~ r.job.id :: e.ids
  find?_self : e'.find? r.job.id = some r
  find?_other : ∀ id, id ≠ r.job.id → e'.find? id = e.find? id
  published_eq : e'.published r.job.id = []

variable {e : Engine} {id : JobId} {text : String}

theorem HasGiven.not_mem_queues (h : e.HasGiven id) (m : Move) : id ∉ e.queues m := by
  intro hid
  cases m with
  | submit text user script follows =>
      by_cases hv : (validate text).isValid
      · rw [queues, if_pos hv, List.mem_singleton] at hid
        exact e.not_hasGiven_numbered (hid ▸ h)
      · rw [queues, if_neg hv] at hid
        exact List.not_mem_nil hid
  | _ => exact List.not_mem_nil hid

/-- A name that was given and stands for nothing does so after every move. -/
theorem HasGiven.not_mem_ids_move (h : e.HasGiven id) (hid : id ∉ e.ids) (m : Move) :
    id ∉ (e.move m).ids := by
  have hperm := (e.perm_ids_move m).mem_iff (a := id)
  simp only [ids, List.mem_append, not_or] at hid hperm ⊢
  have hout : ¬ (id ∈ e.active.map (fun r => r.job.id) ∨ id ∈ e.queues m) :=
    not_or.2 ⟨hid.1, h.not_mem_queues m⟩
  rw [← hperm, not_or] at hout
  refine ⟨hout.1, fun hended => ?_⟩
  obtain ⟨j, hj, rfl⟩ := List.mem_map.1 hended
  rcases mem_ended_move_cases hj with ⟨hkept, -⟩ | hfinal
  · exact hid.2 (List.mem_map_of_mem hkept)
  · exact hout.2 (List.mem_map_of_mem hfinal)

theorem HasGiven.not_mem_ids_run (h : e.HasGiven id) (hid : id ∉ e.ids) (moves : List Move) :
    id ∉ (e.run moves).ids := by
  induction moves generalizing e with
  | nil => exact hid
  | cons m rest ih => exact ih (h.move m) (h.not_mem_ids_move hid m)

theorem wait_of_not_mem_ids (h : id ∉ e.ids) : e.wait id = (e, .error (.unknownJob id)) := by
  simp only [ids, List.mem_append, List.mem_map, not_or, not_exists, not_and] at h
  have hfind : e.find? id = none := find?_eq_none_iff.2 h.1
  have hended : e.ended.find? (fun job => job.id = id) = none := by
    rw [List.find?_eq_none]
    simpa using h.2
  simp only [wait, settle, hfind, collect, hended]

theorem apply_wait_of_not_mem_ids (h : id ∉ e.ids) :
    e.apply (.wait id) = (e, .failed (.unknownJob id)) := by
  rw [apply, wait_of_not_mem_ids h]
  rfl

theorem ignores_of_not_mem_ids (h : id ∉ e.ids) : e.Ignores id := by
  have hfind : e.find? id = none := by
    rw [find?_eq_none_iff]
    intro r hr hid
    exact h (List.mem_append_left _ (List.mem_map.2 ⟨r, hr, hid⟩))
  refine ⟨?_, ?_, apply_wait_of_not_mem_ids h⟩
  · rw [apply, status, hfind]
    rfl
  · simp only [apply, cancel, hfind, Reply.ofExcept]

/-- Nothing was published of a job that is not yet created. -/
theorem Reachable.published_created (h : e.Reachable) :
    e.published (.numbered e.created) = [] := by
  obtain ⟨step, publisher, usesLibrary, history, rfl⟩ := h
  rw [after_create_eq_heardBy, published_heardBy]
  have hnew : JobId.numbered ((create step .channel usesLibrary).after history).created ∉
      along queues (create step .channel usesLibrary)
        ((create step .channel usesLibrary).trace history) := by
    intro hqueued
    have hgiven := hasGiven_of_mem_queues hqueued
    rw [run_trace] at hgiven
    exact not_hasGiven_numbered _ hgiven
  have hnone := (publishedAfter_trace step usesLibrary history).of_other _ hnew
  rw [run_trace] at hnone
  exact congrArg publisher.deliver hnone

theorem Reachable.ignores_after (he : e.Reachable) (later : List Operation) :
    (({ e with created := e.created + 1 } : Engine).after later).Ignores (.numbered e.created) := by
  rw [← run_trace]
  apply ignores_of_not_mem_ids
  have hgiven : ({ e with created := e.created + 1 } : Engine).HasGiven (.numbered e.created) :=
    ⟨e.created, Nat.lt_succ_self _, rfl⟩
  exact hgiven.not_mem_ids_run he.numbered.numbered_not_mem_ids _

theorem apply_submit_of_not_valid (h : (validate text).isValid = false) (e : Engine)
    (user : String) (script follows : Option String) :
    e.apply (.submit text user script follows) =
      ({ e with created := e.created + 1 },
        .failed (.validationFailed { Job.create (.numbered e.created) user script with
          status := .failed
          errors := (validate text).errors
          completedAt := some e.clock })) := by
  rw [(Submits.submit text user script follows).apply_eq, submit_snd_of_not_valid h,
    submit_of_not_valid h]
  rfl

theorem apply_submit_of_valid (h : (validate text).isValid) (e : Engine) (user : String)
    (script follows : Option String) :
    e.apply (.submit text user script follows) =
      ((e.submit text user script (follows.bind e.signals.find?)).1,
        .job (Job.create (.numbered e.created) user script)) := by
  rw [(Submits.submit text user script follows).apply_eq, followed?, submit_of_valid h]
  rfl

theorem Reachable.admits_submit (he : e.Reachable) (h : (validate text).isValid)
    (user : String) (script : Option String) (follows : Option Nat) :
    e.Admits (Run.create (Job.create (.numbered e.created) user script)
      (Script.read text).executable (.create follows)) (e.submit text user script follows).1 := by
  have hnew := he.numbered.numbered_not_mem_ids
  have hnumbered := he.numbered.submit text user script follows
  rw [submit_of_valid h] at hnumbered ⊢
  refine ⟨rfl, List.map_append, hnew, ?_, ?_, ?_, he.published_created⟩
  · rw [ids, List.map_append, List.append_assoc]
    exact List.perm_middle
  · exact hnumbered.find?_eq_some (List.mem_append_right _ (List.mem_singleton_self _))
  · intro id hid
    have hlast : ¬ JobId.numbered e.created = id := fun heq => hid heq.symm
    simp [find?, List.find?_append, Run.create, Job.create, hlast]

/-- A script is rejected just if validation finds an error in it. The job of a rejected script
is failed with the errors of validation and without anything that a run leaves behind; its
engine is as before but for the number, and ignores the job for ever. Any other script is
queued as one more job, of which no statement is executed and nothing is published. -/
theorem gated_by_validation (he : e.Reachable) (text user : String)
    (script follows : Option String) :
    let next := (e.apply (.submit text user script follows)).1
    let reply := (e.apply (.submit text user script follows)).2
    let job := Job.create (.numbered e.created) user script
    ((∃ rejected, reply = .failed (.validationFailed rejected)) ↔ ¬ (validate text).isValid) ∧
    (¬ (validate text).isValid →
      reply = .failed (.validationFailed { job with
        status := .failed
        errors := (validate text).errors
        completedAt := some e.clock }) ∧
      next = { e with created := e.created + 1 } ∧
      ∀ later, (next.after later).Ignores job.id) ∧
    ((validate text).isValid →
      reply = .job job ∧ job.status = .queued ∧
      e.Admits (Run.create job (Script.read text).executable
        (.create (follows.bind e.signals.find?))) next) := by
  intro next reply job
  cases hv : (validate text).isValid with
  | false =>
      have happly := apply_submit_of_not_valid hv e user script follows
      have hnext : next = { e with created := e.created + 1 } := congrArg Prod.fst happly
      have hreply : reply = _ := congrArg Prod.snd happly
      refine ⟨iff_of_true ⟨_, hreply⟩ Bool.false_ne_true, fun _ => ⟨hreply, hnext, ?_⟩,
        fun h => absurd h Bool.false_ne_true⟩
      rw [hnext]
      exact he.ignores_after
  | true =>
      have happly := apply_submit_of_valid hv e user script follows
      have hnext : next = _ := congrArg Prod.fst happly
      have hreply : reply = .job job := congrArg Prod.snd happly
      refine ⟨iff_of_false ?_ (not_not_intro rfl), fun h => absurd rfl h,
        fun _ => ⟨hreply, rfl, ?_⟩⟩
      · rintro ⟨rejected, hrejected⟩
        rw [hreply] at hrejected
        cases hrejected
      · rw [hnext]
        exact he.admits_submit hv user script _

/-- Beside a job under way one script is rejected, whose job nobody finds after the next round,
and another one is queued. -/
theorem gated_beside_a_running_job :
    let e := (create 60 .channel false).after [.submit "k = 3\nl = 4" "bob" none none, .round]
    ((e.apply (.submit "Sat.X = 1" "ann" none none)).1.after [.round]).Ignores (.numbered 1) ∧
    (e.apply (.submit "n = 1" "ann" none none)).2 =
      .job (Job.create (.numbered 1) "ann" none) ∧
    (e.apply (.submit "n = 1" "ann" none none)).1.jobs.map Job.id =
      [.numbered 0, .numbered 1] := by
  intro e
  have he : e.Reachable := ⟨60, .channel, false, _, rfl⟩
  obtain ⟨-, hrejected, -⟩ := gated_by_validation he "Sat.X = 1" "ann" none none
  obtain ⟨-, -, hqueued⟩ := gated_by_validation he "n = 1" "ann" none none
  obtain ⟨-, -, hignores⟩ := hrejected (by decide +kernel)
  obtain ⟨hreply, -, hadmits⟩ := hqueued (by decide +kernel)
  have hcreated : e.created = 1 := by decide +kernel
  rw [hcreated] at hignores hreply hadmits
  refine ⟨hignores [.round], hreply, ?_⟩
  have hjobs : e.jobs.map Job.id = [.numbered 0] := by decide +kernel
  rw [hadmits.jobs_eq, List.map_append, hjobs]
  rfl

end Engine

end FlightScript
