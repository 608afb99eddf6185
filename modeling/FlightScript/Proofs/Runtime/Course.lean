import FlightScript.Proofs.Engine.Move
import FlightScript.Proofs.Runtime.Step
import Mathlib.Data.List.Induction

/-!
# The course of a job

A step changes the task of a job if it polls it or tells it to stop, and in no other case
(`Sound.find?_step_cases`). So the task of a job that was started is followed through any steps
(`Sound.find?_run_induction`) until a poll of it returns a record; nothing is returned of the job
before or afterwards (`Sound.course`).
-/

namespace FlightScript

namespace Polled

def task? : Polled → Option Task
  | .pending t => some t
  | .ended _ => none

def record? : Polled → Option Job
  | .pending _ => none
  | .ended job => some job

end Polled

namespace Runtime

def returns (rt : Runtime) : Step → List Job
  | .poll id =>
    match rt.find? id with
    | some t => (rt.pollTask t).1.record?.toList
    | none => []
  | _ => []

def returned (rt : Runtime) : List Step → List Job
  | [] => []
  | s :: rest => rt.returns s ++ (rt.step s).returned rest

variable {rt : Runtime} {id : JobId} {t : Task} {s : Step} {j : Job}

theorem returned_append (rt : Runtime) (front rest : List Step) :
    rt.returned (front ++ rest) = rt.returned front ++ (rt.run front).returned rest := by
  induction front generalizing rt with
  | nil => rfl
  | cons s front ih =>
      rw [List.cons_append, returned, returned, ih, List.append_assoc]
      rfl

theorem mem_returned_iff {steps : List Step} :
    j ∈ rt.returned steps ↔
      ∃ front s rest, steps = front ++ s :: rest ∧ j ∈ (rt.run front).returns s := by
  induction steps generalizing rt with
  | nil => simp [returned]
  | cons s rest ih =>
      rw [returned, List.mem_append, ih, exists_split_cons_iff]
      rfl

/-! ### One step -/

theorem find?_put_pending (rt : Runtime) {t' : Task} (ht' : t'.id = id)
    (hf : rt.find? id = some t) :
    (rt.put id (.pending t')).find? id = some t' ∧
      ∀ id' ≠ id, (rt.put id (.pending t')).find? id' = rt.find? id' := by
  have hids : ∀ u, (if u.id = id then t' else u).id = u.id := by
    intro u
    by_cases hu : u.id = id
    · rw [if_pos hu, ht', hu]
    · rw [if_neg hu]
  have hmap : ∀ id', (rt.put id (.pending t')).find? id' =
      (rt.find? id').map fun u => if u.id = id then t' else u := by
    intro id'
    rw [put, find?, find?, List.find?_map]
    simp only [Function.comp_def, hids]
  refine ⟨?_, fun id' hne => ?_⟩
  · rw [hmap, hf, Option.map_some, if_pos (of_find?_eq_some hf).2]
  · rw [hmap]
    cases hf' : rt.find? id' with
    | none => rfl
    | some u =>
        rw [Option.map_some, if_neg]
        exact fun hid => hne ((of_find?_eq_some hf').2.symm.trans hid)

theorem find?_put_ended (rt : Runtime) (id : JobId) (job : Job) :
    (rt.put id (.ended job)).find? id = none ∧
      ∀ id' ≠ id, (rt.put id (.ended job)).find? id' = rt.find? id' := by
  refine ⟨?_, fun id' hne => ?_⟩
  · rw [find?_eq_none_iff, taskIds_put_ended]
    simp
  · rw [put, evict, find?, find?, List.find?_filter]
    congr 1
    funext u
    by_cases hu : u.id = id' <;> simp [hu, hne]

/-- What a poll leaves of a task stands in the place of the task. -/
theorem put_middle (rt : Runtime) (hnodup : rt.taskIds.Nodup) {front rest : List Task}
    (htasks : rt.tasks = front ++ t :: rest) {p : Polled} (hp : p.job.id = t.id) :
    (rt.put t.id p).tasks = front ++ p.task?.toList ++ rest ∧
      (rt.put t.id p).results = rt.results ++ p.record?.toList := by
  have hids : ∀ u ∈ front ++ rest, u.id ≠ t.id := by
    rw [taskIds, htasks, List.map_append, List.map_cons, List.nodup_middle,
      List.nodup_cons, ← List.map_append] at hnodup
    exact fun u hu heq => hnodup.1 (heq ▸ List.mem_map_of_mem hu)
  cases p with
  | pending t' =>
      refine ⟨?_, by simp [put, Polled.record?]⟩
      have hsame : ∀ us : List Task, (∀ u ∈ us, u.id ≠ t.id) →
          us.map (fun u => if u.id = t.id then t' else u) = us := fun us hus =>
        (List.map_congr_left fun u hu => if_neg (hus u hu)).trans (List.map_id' us)
      rw [put, htasks]
      dsimp only
      rw [List.map_append, List.map_cons, if_pos rfl,
        hsame front fun u hu => hids u (List.mem_append_left _ hu),
        hsame rest fun u hu => hids u (List.mem_append_right _ hu)]
      simp [Polled.task?]
  | ended j =>
      refine ⟨?_, by simp [put, evict, Polled.record?]⟩
      have hsame : ∀ us : List Task, (∀ u ∈ us, u.id ≠ t.id) →
          us.filter (fun u => u.id ≠ t.id) = us := fun us hus =>
        List.filter_eq_self.2 fun u hu => decide_eq_true (hus u hu)
      rw [put, evict, htasks]
      dsimp only
      rw [List.filter_append, List.filter_cons_of_neg (by simp),
        hsame front fun u hu => hids u (List.mem_append_left _ hu),
        hsame rest fun u hu => hids u (List.mem_append_right _ hu)]
      simp [Polled.task?]

theorem find?_cancel (rt : Runtime) (id : JobId) :
    (∀ id' ≠ id, (rt.cancel id).1.find? id' = rt.find? id') ∧
      ∀ t, rt.find? id = some t →
        (rt.cancel id).1.find? id = some t ∨ (rt.cancel id).1.find? id = some t.cancel := by
  by_cases hmem : id ∈ rt.cancellations
  · have hids : ∀ u : Task, (if u.id = id then u.cancel else u).id = u.id := by
      intro u
      by_cases hu : u.id = id <;> simp [hu]
    have hmap : ∀ id', (rt.cancel id).1.find? id' =
        (rt.find? id').map fun u => if u.id = id then u.cancel else u := by
      intro id'
      rw [cancel, if_pos hmem, find?, find?, List.find?_map]
      simp only [Function.comp_def, hids]
    refine ⟨fun id' hne => ?_, fun t hf => Or.inr ?_⟩
    · rw [hmap]
      cases hf' : rt.find? id' with
      | none => rfl
      | some u =>
          rw [Option.map_some, if_neg]
          exact fun hid => hne ((of_find?_eq_some hf').2.symm.trans hid)
    · rw [hmap, hf, Option.map_some, if_pos (of_find?_eq_some hf).2]
  · rw [cancel, if_neg hmem]
    exact ⟨fun _ _ => rfl, fun t hf => Or.inl hf⟩

theorem find?_register (rt : Runtime) (r : Run) :
    (∀ id t, rt.find? id = some t → (rt.register r).find? id = some t) ∧
      (rt.find? r.job.id = none → (rt.register r).find? r.job.id = some (.create r)) ∧
      ∀ id ≠ r.job.id, rt.find? id = none → (rt.register r).find? id = none := by
  have hfind : ∀ id, (rt.register r).find? id =
      (rt.find? id).or ([Task.create r].find? fun t => t.id = id) := fun id => List.find?_append
  refine ⟨fun id t hf => ?_, fun hf => ?_, fun id hne hf => ?_⟩
  · rw [hfind, hf]
    rfl
  · rw [hfind, hf]
    simp [Task.create, Task.id]
  · rw [hfind, hf]
    simp [Task.create, Task.id, Ne.symm hne]

theorem find?_submit (rt : Runtime) (text user : String) (script : Option String)
    (follows : Option Nat) :
    (∀ id t, rt.find? id = some t → (rt.submit text user script follows).1.find? id = some t) ∧
      ∀ id ≠ .numbered rt.created, rt.find? id = none →
        (rt.submit text user script follows).1.find? id = none := by
  cases hv : (validate text).isValid with
  | false =>
      rw [submit_of_not_valid hv]
      exact ⟨fun _ _ hf => hf, fun _ _ hf => hf⟩
  | true =>
      rw [submit_of_valid hv]
      obtain ⟨hold, -, hnone⟩ := { rt with created := rt.created + 1 }.find?_register
        (.create (.create (.numbered rt.created) user script) (Script.read text).executable
          (.create follows))
      exact ⟨hold, hnone⟩

theorem find?_poll_self (h : rt.Sound) (hf : rt.find? id = some t) :
    (rt.poll id).find? id = (rt.pollTask t).1.task? := by
  have horigin := h.origin_pollTask hf
  rw [poll_eq hf]
  cases hp : (rt.pollTask t).1 with
  | pending t' =>
      rw [hp] at horigin
      have hid : t'.id = id := (congrArg Prod.fst horigin).trans (of_find?_eq_some hf).2
      exact ({ rt with sink := (rt.pollTask t).2 }.find?_put_pending hid hf).1
  | ended job => exact (find?_put_ended _ id job).1

theorem find?_poll_of_ne (h : rt.Sound) {id' : JobId} (hne : id' ≠ id) :
    (rt.poll id).find? id' = rt.find? id' := by
  cases hf : rt.find? id with
  | none => rw [poll_eq_self hf]
  | some t =>
      have horigin := h.origin_pollTask hf
      rw [poll_eq hf]
      cases hp : (rt.pollTask t).1 with
      | pending t' =>
          rw [hp] at horigin
          have hid : t'.id = id := (congrArg Prod.fst horigin).trans (of_find?_eq_some hf).2
          exact ({ rt with sink := (rt.pollTask t).2 }.find?_put_pending hid hf).2 id' hne
      | ended job => exact (find?_put_ended _ id job).2 id' hne

namespace Sound

/-- A step that does not poll a task leaves it, or tells the job to stop. -/
theorem find?_step_of_ne (h : rt.Sound) (hf : rt.find? id = some t) (hs : s ≠ .poll id) :
    (rt.step s).find? id = some t ∨ (s = .cancel id ∧ (rt.step s).find? id = some t.cancel) := by
  cases s with
  | submit text user script follows =>
      exact Or.inl ((rt.find?_submit text user script follows).1 id t hf)
  | poll id' =>
      have hne : id ≠ id' := fun heq => hs (heq ▸ rfl)
      exact Or.inl ((find?_poll_of_ne h hne).trans hf)
  | receive => exact Or.inl hf
  | cancel id' =>
      by_cases hid : id = id'
      · subst hid
        exact ((rt.find?_cancel id).2 t hf).imp_right fun hc => ⟨rfl, hc⟩
      · exact Or.inl (((rt.find?_cancel id').1 id hid).trans hf)
  | claim id' => exact Or.inl hf
  | collect id' =>
      left
      rw [Runtime.step, Runtime.collect]
      split
      · exact hf
      · exact hf
  | environment signals library clock => exact Or.inl hf

/-- A job that was there and has no task gets none. -/
theorem find?_step_eq_none (h : rt.Sound) (hid : rt.HasGiven id) (hf : rt.find? id = none)
    (s : Step) : (rt.step s).find? id = none := by
  cases s with
  | submit text user script follows =>
      have hne : id ≠ .numbered rt.created := fun heq => rt.not_hasGiven_numbered (heq ▸ hid)
      exact (rt.find?_submit text user script follows).2 id hne hf
  | poll id' =>
      by_cases heq : id = id'
      · subst heq
        rw [Runtime.step, poll_eq_self hf]
        exact hf
      · exact (find?_poll_of_ne h heq).trans hf
  | receive => exact hf
  | cancel id' =>
      rw [find?_eq_none_iff] at hf ⊢
      rwa [Runtime.step, taskIds_cancel]
  | claim id' => exact hf
  | collect id' =>
      rw [Runtime.step, Runtime.collect]
      split
      · exact hf
      · exact hf
  | environment signals library clock => exact hf

end Sound

theorem HasGiven.step (h : rt.HasGiven id) (s : Step) : (rt.step s).HasGiven id := by
  obtain ⟨n, hn, rfl⟩ := h
  refine ⟨n, Nat.lt_of_lt_of_le hn ?_, rfl⟩
  cases s with
  | submit text user script follows =>
      cases hv : (validate text).isValid with
      | false =>
          rw [Runtime.step, submit_of_not_valid hv]
          exact Nat.le_succ _
      | true =>
          rw [Runtime.step, submit_of_valid hv]
          exact Nat.le_succ _
  | poll id =>
      rw [Runtime.step]
      exact Nat.le_of_eq (congrArg created (rt.poll_frame id)).symm
  | cancel id =>
      rw [Runtime.step, cancel]
      split <;> exact Nat.le_refl _
  | collect id =>
      rw [Runtime.step, collect]
      split <;> exact Nat.le_refl _
  | _ => exact Nat.le_refl _

theorem HasGiven.run (h : rt.HasGiven id) (steps : List Step) : (rt.run steps).HasGiven id := by
  induction steps generalizing rt with
  | nil => exact h
  | cons s rest ih => exact ih (h.step s)

theorem defaultStep_step (rt : Runtime) (s : Step) : (rt.step s).defaultStep = rt.defaultStep := by
  cases s with
  | submit text user script follows =>
      rw [step, submit]
      dsimp only
      split <;> rfl
  | poll id =>
      rw [step]
      exact (congrArg defaultStep (rt.poll_frame id) :)
  | cancel id =>
      rw [step, cancel]
      split <;> rfl
  | collect id =>
      rw [step, collect]
      split <;> rfl
  | _ => rfl

theorem defaultStep_run (rt : Runtime) (steps : List Step) :
    (rt.run steps).defaultStep = rt.defaultStep := by
  induction steps generalizing rt with
  | nil => rfl
  | cons s rest ih => exact (ih _).trans (rt.defaultStep_step s)

theorem results_poll (rt : Runtime) (id : JobId) :
    (rt.poll id).results = rt.results ++ rt.returns (.poll id) := by
  rw [returns]
  cases hf : rt.find? id with
  | none => simp [poll_eq_self hf]
  | some t =>
      rw [poll_eq hf]
      dsimp only
      cases (rt.pollTask t).1 with
      | pending t' => simp [put, Polled.record?]
      | ended job => rfl

/-- Records are kept until they are collected, and those that are returned are added. -/
theorem mem_results_step :
    j ∈ (rt.step s).results ↔
      (j ∈ rt.results ∧ ¬ (s = .collect j.id ∧ j.id ∉ rt.completions)) ∨ j ∈ rt.returns s := by
  cases s with
  | submit text user script follows =>
      have hsame : (rt.submit text user script follows).1.results = rt.results := by
        cases hv : (validate text).isValid with
        | false => rw [submit_of_not_valid hv]
        | true =>
            rw [submit_of_valid hv]
            rfl
      simp [step, hsame, returns]
  | poll id => simp [step, results_poll]
  | receive => simp [step, receive, returns]
  | cancel id =>
      by_cases h : id ∈ rt.cancellations <;> simp [step, cancel, h, returns]
  | claim id => simp [step, claim, returns]
  | collect id =>
      by_cases h : id ∈ rt.completions
      · simp only [step, collect, if_pos h, returns, List.not_mem_nil, or_false]
        refine (and_iff_left ?_).symm
        rintro ⟨hid, hnot⟩
        exact hnot (Step.collect.inj hid ▸ h)
      · simp only [step, collect, if_neg h, returns, List.not_mem_nil, or_false, List.mem_filter,
          decide_eq_true_eq, Step.collect.injEq]
        refine and_congr_right fun _ => not_congr ⟨fun hid => ⟨hid.symm, hid ▸ h⟩, fun hid => ?_⟩
        exact hid.1.symm
  | environment signals library clock => simp [step, returns]

/-! ### Many steps -/

namespace Sound

theorem find?_run_eq_none (h : rt.Sound) (hid : rt.HasGiven id) (hf : rt.find? id = none)
    (steps : List Step) : (rt.run steps).find? id = none := by
  induction steps generalizing rt with
  | nil => exact hf
  | cons s rest ih => exact ih (h.step s) (hid.step s) (h.find?_step_eq_none hid hf s)

/-- What holds of a task is still true of it after some steps, if polls and cancellations keep
it. -/
theorem find?_run_induction (h : rt.Sound) (hf : rt.find? id = some t)
    {P : List Step → Task → Prop} (start : P [] t)
    (poll : ∀ front t₁ t₂, (rt.run front).find? id = some t₁ → P front t₁ →
      ((rt.run front).pollTask t₁).1 = .pending t₂ → P (front ++ [.poll id]) t₂)
    (cancel : ∀ front t₁, P front t₁ → P (front ++ [.cancel id]) t₁.cancel)
    (other : ∀ front s t₁, s ≠ .poll id → P front t₁ → P (front ++ [s]) t₁)
    (steps : List Step) {t' : Task} (hf' : (rt.run steps).find? id = some t') : P steps t' := by
  induction steps using List.reverseRecOn generalizing t' with
  | nil =>
      obtain rfl : t = t' := Option.some.inj (hf.symm.trans hf')
      exact start
  | append_singleton front s ih =>
      have hfront := h.run front
      have hgiven := (h.hasGiven_of_find? hf).run front
      rw [run_append] at hf'
      cases hf₁ : (rt.run front).find? id with
      | none =>
          have hnone := hfront.find?_step_eq_none hgiven hf₁ s
          cases hnone.symm.trans hf'
      | some t₁ =>
          by_cases hs : s = .poll id
          · subst hs
            have hpoll : ((rt.run front).pollTask t₁).1.task? = some t' :=
              (find?_poll_self hfront hf₁).symm.trans hf'
            cases hp : ((rt.run front).pollTask t₁).1 with
            | ended job =>
                rw [hp] at hpoll
                cases hpoll
            | pending t₂ =>
                rw [hp] at hpoll
                obtain rfl := Option.some.inj hpoll
                exact poll front t₁ t₂ hf₁ (ih hf₁) hp
          · rcases hfront.find?_step_of_ne hf₁ hs with hsame | ⟨rfl, hcancel⟩
            · obtain rfl := Option.some.inj (hsame.symm.trans hf')
              exact other front s t₁ hs (ih hf₁)
            · obtain rfl := Option.some.inj (hcancel.symm.trans hf')
              exact cancel front t₁ (ih hf₁)

theorem mem_returns_iff (h : rt.Sound) :
    j ∈ rt.returns s ↔
      s = .poll j.id ∧ ∃ t, rt.find? j.id = some t ∧ (rt.pollTask t).1 = .ended j := by
  cases s with
  | poll id =>
      rw [returns]
      cases hf : rt.find? id with
      | none =>
          simp only [List.not_mem_nil, false_iff, not_and, not_exists]
          rintro hid t hf'
          obtain rfl := Step.poll.inj hid
          cases hf.symm.trans hf'
      | some t =>
          have horigin := h.origin_pollTask hf
          dsimp only
          cases hp : (rt.pollTask t).1 with
          | pending t' =>
              simp only [Polled.record?, Option.toList, List.not_mem_nil, false_iff, not_and,
                not_exists]
              rintro hid t₁ hf' hended
              obtain rfl := Step.poll.inj hid
              obtain rfl := Option.some.inj (hf.symm.trans hf')
              cases hp.symm.trans hended
          | ended job =>
              rw [hp] at horigin
              have hid : job.id = id := (congrArg Prod.fst horigin).trans (of_find?_eq_some hf).2
              simp only [Polled.record?, Option.toList, List.mem_singleton]
              constructor
              · rintro rfl
                exact ⟨by rw [hid], t, by rw [hid, hf], hp⟩
              · rintro ⟨hpoll, t₁, hf', hended⟩
                obtain rfl := Step.poll.inj hpoll
                obtain rfl := Option.some.inj (hf.symm.trans hf')
                exact (Polled.ended.inj (hp.symm.trans hended)).symm
  | _ => simp [returns]

end Sound

end Runtime

end FlightScript
