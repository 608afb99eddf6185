import FlightScript.Proofs.Runtime.Course

/-!
# Jobs and their records

A job is started by a step that submits a valid script (`rt.Starts`). From then on it has a
task, until that returns the one record of the job (`Sound.course`), which is kept until
somebody who claimed it collects it (`Sound.mem_results_run`). Whoever claims a record is the
only one who can (`Sound.mem_completions_run_iff`).
-/

namespace FlightScript

namespace Runtime

/-- A step of some steps starts the job of a name with a text, for a user and out of a saved
script, if it is one. The runtime is `next` after that, and the steps `since` follow. -/
def Starts (rt : Runtime) (steps : List Step) (id : JobId) (text user : String)
    (script : Option String) (next : Runtime) (since : List Step) : Prop :=
  ∃ before follows, steps = before ++ .submit text user script follows :: since ∧
    (rt.run before).submit text user script follows = (next, .ok (Job.create id user script))

def HasStarted (rt : Runtime) (steps : List Step) (id : JobId) : Prop :=
  ∃ text user script next since, rt.Starts steps id text user script next since

variable {rt : Runtime} {id : JobId} {t : Task} {s : Step} {j : Job} {steps : List Step}
  {text user : String} {script : Option String} {next : Runtime} {since : List Step}

/-! ### What is returned -/

/-- Polls keep all records and add those that are returned. -/
theorem results_run_of_polls (h : ∀ s ∈ steps, ∃ id, s = .poll id) :
    (rt.run steps).results = rt.results ++ rt.returned steps := by
  induction steps generalizing rt with
  | nil => simp [returned]
  | cons s rest ih =>
      obtain ⟨id, rfl⟩ := h s List.mem_cons_self
      rw [run_cons, ih fun s hs => h s (List.mem_cons_of_mem _ hs), step, results_poll, returned,
        List.append_assoc]
      rfl

namespace Sound

theorem isFinal_of_mem_returned (h : rt.Sound) (hj : j ∈ rt.returned steps) :
    j.status.isFinal := by
  obtain ⟨front, s, rest, rfl, hreturns⟩ := mem_returned_iff.1 hj
  have hfront := h.run front
  obtain ⟨-, t, hf, hended⟩ := hfront.mem_returns_iff.1 hreturns
  obtain ⟨statements, hreach⟩ := hfront.exists_reaches t (of_find?_eq_some hf).1
  exact (hreach.endsAfter_of_polls (hfront.polls_of_eq hf hended)).1.isFinal

theorem hasGiven_of_mem_returned (h : rt.Sound) (hj : j ∈ rt.returned steps) :
    (rt.run steps).HasGiven j.id := by
  obtain ⟨front, s, rest, rfl, hreturns⟩ := mem_returned_iff.1 hj
  obtain ⟨-, t, hf, -⟩ := (h.run front).mem_returns_iff.1 hreturns
  rw [run_append]
  exact ((h.run front).hasGiven_of_find? hf).run _

/-- Nothing is returned of a job without a task. -/
theorem ne_of_mem_returned (h : rt.Sound) (hid : rt.HasGiven id) (hf : rt.find? id = none)
    (hj : j ∈ rt.returned steps) : j.id ≠ id := by
  rintro rfl
  obtain ⟨front, s, rest, rfl, hreturns⟩ := mem_returned_iff.1 hj
  obtain ⟨-, t, hf', -⟩ := (h.run front).mem_returns_iff.1 hreturns
  cases (h.find?_run_eq_none hid hf front).symm.trans hf'

/-- The task of a job is there until it returns a record of the job, once. -/
theorem course (h : rt.Sound) (hf : rt.find? id = some t) (steps : List Step) :
    ((∃ t', (rt.run steps).find? id = some t') ∧ ∀ j ∈ rt.returned steps, j.id ≠ id) ∨
      ((rt.run steps).find? id = none ∧ ∃ j ∈ rt.returned steps, j.id = id ∧
        ∀ j' ∈ rt.returned steps, j'.id = id → j' = j) := by
  induction steps generalizing rt t with
  | nil => exact Or.inl ⟨⟨t, hf⟩, fun j hj => by cases hj⟩
  | cons s rest ih =>
      have hgiven := (h.hasGiven_of_find? hf).step s
      have hone : ∀ j ∈ rt.returns s, j.id = id → (rt.pollTask t).1 = .ended j := by
        rintro j hj rfl
        obtain ⟨-, t', hf', hended⟩ := h.mem_returns_iff.1 hj
        obtain rfl := Option.some.inj (hf.symm.trans hf')
        exact hended
      cases hf' : (rt.step s).find? id with
      | some t' =>
          have hnone : ∀ j ∈ rt.returns s, j.id ≠ id := by
            rintro j hj rfl
            obtain ⟨rfl, -⟩ := h.mem_returns_iff.1 hj
            have hself := find?_poll_self h hf
            rw [hone j hj rfl] at hself
            cases hself.symm.trans hf'
          have hiff : ∀ j, j.id = id → (j ∈ rt.returned (s :: rest) ↔
              j ∈ (rt.step s).returned rest) := by
            intro j hid
            rw [returned, List.mem_append, or_iff_right fun hj => hnone j hj hid]
          rcases ih (h.step s) hf' with ⟨hthere, hnot⟩ | ⟨hgone, j, hj, hid, hunique⟩
          · exact Or.inl ⟨hthere, fun j hj hid => hnot j ((hiff j hid).1 hj) hid⟩
          · refine Or.inr ⟨hgone, j, (hiff j hid).2 hj, hid, fun j' hj' hid' => ?_⟩
            exact hunique j' ((hiff j' hid').1 hj') hid'
      | none =>
          have hs : s = .poll id := by
            by_contra hne
            rcases h.find?_step_of_ne hf hne with hsame | ⟨-, hcancel⟩
            · cases hf'.symm.trans hsame
            · cases hf'.symm.trans hcancel
          subst hs
          have hself := find?_poll_self h hf
          cases hp : (rt.pollTask t).1 with
          | pending t' =>
              rw [hp] at hself
              cases hf'.symm.trans hself
          | ended job =>
              have horigin := h.origin_pollTask hf
              rw [hp] at horigin
              have hid : job.id = id := (congrArg Prod.fst horigin).trans (of_find?_eq_some hf).2
              have hreturns : job ∈ rt.returns (.poll id) :=
                h.mem_returns_iff.2 ⟨by rw [hid], t, by rw [hid, hf], hp⟩
              refine Or.inr ⟨(h.step _).find?_run_eq_none hgiven hf' rest, job,
                List.mem_append_left _ hreturns, hid, fun j' hj' hid' => ?_⟩
              rcases List.mem_append.1 hj' with hnow | hlater
              · exact (Polled.ended.inj (hp.symm.trans (hone j' hnow hid'))).symm
              · exact absurd hid' ((h.step _).ne_of_mem_returned hgiven hf' hlater)

/-- A task carries out the same statements all the time, and the number of those that are
executed never goes down. -/
theorem reaches_run (h : rt.Sound) (hf : rt.find? id = some t) {statements : List Statement}
    (hreach : t.Reaches rt.defaultStep statements) (steps : List Step) {t' : Task}
    (hf' : (rt.run steps).find? id = some t') :
    t'.Reaches rt.defaultStep statements ∧ t.run.executed ≤ t'.run.executed := by
  refine h.find?_run_induction hf
    (P := fun _ t' => t'.Reaches rt.defaultStep statements ∧ t.run.executed ≤ t'.run.executed)
    ⟨hreach, Nat.le_refl _⟩ ?_ (fun _ _ h => ⟨h.1.cancel, h.2⟩) (fun _ _ _ _ h => h) steps hf'
  rintro front t₁ t₂ hf₁ ⟨hreach, hle⟩ hp
  have hpolls := (h.run front).polls_of_eq hf₁ hp
  rw [defaultStep_run] at hpolls
  obtain ⟨hnext, hmore⟩ := hreach.of_polls hpolls
  exact ⟨hnext, Nat.le_trans hle hmore⟩

end Sound

/-! ### What is started -/

theorem validate_of_submit {follows : Option Nat} {queued : Job}
    (h : (rt.submit text user script follows).2 = .ok queued) :
    (validate text).isValid ∧ queued = .create (.numbered rt.created) user script := by
  have hiff : (Validation.ofScript (Script.read text)).isValid = (validate text).isValid := rfl
  cases hv : (validate text).isValid with
  | false =>
      rw [submit] at h
      simp [hiff, hv] at h
  | true =>
      rw [submit_of_valid hv] at h
      exact ⟨rfl, (Except.ok.inj h).symm⟩

namespace Starts

/-- A job that was just started is queued, and all that is returned of it is returned since. -/
theorem of_sound (h : rt.Starts steps id text user script next since) (hrt : rt.Sound) :
    next.Sound ∧ next.defaultStep = rt.defaultStep ∧
      (∃ follows, next.find? id = some (.create (.create (.create id user script)
        (Script.read text).executable (.create follows)))) ∧
      id ∈ next.completions ∧ rt.run steps = next.run since ∧
      ∀ j, j.id = id → (j ∈ rt.returned steps ↔ j ∈ next.returned since) := by
  obtain ⟨before, follows, rfl, hsubmit⟩ := h
  obtain ⟨hv, hqueued⟩ := validate_of_submit (congrArg Prod.snd hsubmit)
  obtain rfl : id = .numbered (rt.run before).created := congrArg Job.id hqueued
  obtain rfl : (rt.run before).step (.submit text user script follows) = next :=
    congrArg Prod.fst hsubmit
  have hbefore := hrt.run before
  have hnew : (rt.run before).find? (.numbered (rt.run before).created) = none := by
    rw [find?_eq_none_iff]
    intro hmem
    exact (rt.run before).not_hasGiven_numbered
      (hbefore.hasGiven _ (List.mem_append_left _ hmem))
  refine ⟨hbefore.step _, ?_, ⟨follows, ?_⟩, ?_, ?_, ?_⟩
  · rw [defaultStep_step, defaultStep_run]
  · rw [step, submit_of_valid hv]
    exact (find?_register _ _).2.1 hnew
  · rw [step, submit_of_valid hv]
    exact List.mem_append_right _ (List.mem_singleton_self _)
  · rw [run_append, run_cons]
  · intro j hid
    have hbefore' : j ∉ rt.returned before := fun hj =>
      (rt.run before).not_hasGiven_numbered (hid ▸ hrt.hasGiven_of_mem_returned hj)
    rw [returned_append, List.mem_append, or_iff_right hbefore', returned, List.mem_append,
      or_iff_right]
    exact fun hj => by cases hj

/-- The task of a job that was started carries out the statements of its text. -/
theorem reaches (h : rt.Starts steps id text user script next since) (hrt : rt.Sound)
    (hf : (rt.run steps).find? id = some t) :
    t.Reaches rt.defaultStep (Script.read text).executable := by
  obtain ⟨hnext, hstep, ⟨follows, hf₀⟩, -, hrun, -⟩ := h.of_sound hrt
  rw [hrun] at hf
  rw [← hstep]
  exact (hnext.reaches_run hf₀ (Task.Reaches.of_create ..) since hf).1

theorem append (h : rt.Starts steps id text user script next since) (later : List Step) :
    rt.Starts (steps ++ later) id text user script next (since ++ later) := by
  obtain ⟨before, follows, rfl, hsubmit⟩ := h
  exact ⟨before, follows, by simp, hsubmit⟩

end Starts

theorem HasStarted.append (h : rt.HasStarted steps id) (later : List Step) :
    rt.HasStarted (steps ++ later) id := by
  obtain ⟨text, user, script, next, since, hstarts⟩ := h
  exact ⟨text, user, script, next, since ++ later, hstarts.append later⟩

/-- Only a submission makes a task. -/
theorem Sound.exists_submit (h : rt.Sound) (hf : rt.find? id = none)
    (hf' : (rt.step s).find? id = some t) :
    ∃ text user script follows, s = .submit text user script follows ∧
      (rt.submit text user script follows).2 = .ok (Job.create id user script) := by
  by_cases hnew : ∃ text user script follows, s = .submit text user script follows
  · obtain ⟨text, user, script, follows, rfl⟩ := hnew
    refine ⟨text, user, script, follows, rfl, ?_⟩
    obtain rfl : id = .numbered rt.created := by
      by_contra hne
      cases ((rt.find?_submit text user script follows).2 id hne hf).symm.trans hf'
    cases hv : (validate text).isValid with
    | false =>
        rw [Runtime.step, submit_of_not_valid hv] at hf'
        cases hf.symm.trans hf'
    | true => rw [submit_of_valid hv]
  · exfalso
    cases s with
    | submit text user script follows => exact hnew ⟨text, user, script, follows, rfl⟩
    | poll id' =>
        by_cases heq : id = id'
        · subst heq
          rw [Runtime.step, poll_eq_self hf] at hf'
          cases hf.symm.trans hf'
        · cases ((find?_poll_of_ne h heq).trans hf).symm.trans hf'
    | cancel id' =>
        have hids := mem_taskIds hf'
        rw [Runtime.step, taskIds_cancel] at hids
        exact find?_eq_none_iff.1 hf hids
    | collect id' =>
        rw [Runtime.step, Runtime.collect] at hf'
        split at hf' <;> cases hf.symm.trans hf'
    | _ => cases hf.symm.trans hf'

section

variable (hrt : rt.Sound) (hempty : rt.tasks = [])

include hrt hempty

theorem hasStarted_of_find? (hf : (rt.run steps).find? id = some t) :
    rt.HasStarted steps id := by
  induction steps using List.reverseRecOn generalizing t with
  | nil =>
      have ht := (of_find?_eq_some hf).1
      rw [run_nil, hempty] at ht
      cases ht
  | append_singleton front s ih =>
      cases hf' : (rt.run front).find? id with
      | some t' => exact (ih hf').append [s]
      | none =>
          rw [run_append] at hf
          obtain ⟨text, user, script, follows, rfl, hsubmit⟩ :=
            (hrt.run front).exists_submit hf' hf
          exact ⟨text, user, script, _, [], front, follows, rfl, Prod.ext rfl hsubmit⟩

theorem hasStarted_of_mem_returned (hj : j ∈ rt.returned steps) : rt.HasStarted steps j.id := by
  obtain ⟨front, s, rest, rfl, hreturns⟩ := mem_returned_iff.1 hj
  obtain ⟨-, t, hf, -⟩ := (hrt.run front).mem_returns_iff.1 hreturns
  exact (hasStarted_of_find? hrt hempty hf).append _

/-- The tasks that have not ended are those of the jobs that were started and of which no record
was returned. -/
theorem mem_taskIds_run_iff :
    id ∈ (rt.run steps).taskIds ↔
      rt.HasStarted steps id ∧ id ∉ (rt.returned steps).map Job.id := by
  constructor
  · intro hid
    obtain ⟨t, hf⟩ := exists_find?_eq_some hid
    obtain ⟨text, user, script, next, since, hstarts⟩ := hasStarted_of_find? hrt hempty hf
    refine ⟨⟨text, user, script, next, since, hstarts⟩, fun hreturned => ?_⟩
    obtain ⟨j, hj, rfl⟩ := List.mem_map.1 hreturned
    obtain ⟨hnext, -, ⟨follows, hf₀⟩, -, hrun, hiff⟩ := hstarts.of_sound hrt
    rcases hnext.course hf₀ since with ⟨-, hnot⟩ | ⟨hgone, -⟩
    · exact hnot j ((hiff j rfl).1 hj) rfl
    · rw [← hrun] at hgone
      cases hgone.symm.trans hf
  · rintro ⟨⟨text, user, script, next, since, hstarts⟩, hreturned⟩
    obtain ⟨hnext, -, ⟨follows, hf₀⟩, -, hrun, hiff⟩ := hstarts.of_sound hrt
    rcases hnext.course hf₀ since with ⟨⟨t, hf⟩, -⟩ | ⟨-, j, hj, rfl, -⟩
    · rw [hrun]
      exact mem_taskIds hf
    · exact absurd (List.mem_map_of_mem ((hiff j rfl).2 hj)) hreturned

end

end Runtime

end FlightScript
