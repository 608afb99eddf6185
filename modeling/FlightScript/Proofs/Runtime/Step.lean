import FlightScript.Proofs.Engine.Identity
import FlightScript.Proofs.Runtime.Task
import FlightScript.Runtime.Operation

/-!
# What a step does

The three maps of a runtime are changed by a submission, by a poll that ends a task and by
whoever claims a record. `Sound` says how they go together with the tasks: the names among the
jobs and the names among the cancellations are those of the tasks that have not ended, all
names differ, and a record that nobody claimed is kept or still to be made. Every step keeps
that (`Sound.step`).

`Sound.find?_step` says what a step makes of the task of a job.
-/

namespace FlightScript

@[simp] theorem Task.id_cancel (t : Task) : t.cancel.id = t.id := rfl

@[simp] theorem Task.job_cancel (t : Task) : t.cancel.job = t.job := rfl

namespace Runtime

def taskIds (rt : Runtime) : List JobId :=
  rt.tasks.map Task.id

def HasGiven (rt : Runtime) (id : JobId) : Prop :=
  ∃ n < rt.created, id = .numbered n

/-- The maps of a runtime go together with its tasks and the records that it keeps. -/
structure Sound (rt : Runtime) : Prop where
  jobs_eq : rt.jobs = rt.taskIds
  cancellations_eq : rt.cancellations = rt.taskIds
  nodup : (rt.taskIds ++ rt.results.map Job.id).Nodup
  hasGiven : ∀ id ∈ rt.taskIds ++ rt.results.map Job.id, rt.HasGiven id
  mem_ids : ∀ id ∈ rt.completions, id ∈ rt.taskIds ++ rt.results.map Job.id
  exists_reaches : ∀ t ∈ rt.tasks, ∃ statements, t.Reaches rt.defaultStep statements
  mem_waiting : ∀ t ∈ rt.tasks, t.phase ≠ .ready → t.id ∈ rt.sink.waiting

variable {rt : Runtime} {id : JobId} {t : Task}

theorem find?_eq_none_iff : rt.find? id = none ↔ id ∉ rt.taskIds := by
  rw [find?, List.find?_eq_none, taskIds]
  simp

theorem exists_find?_eq_some (h : id ∈ rt.taskIds) : ∃ t, rt.find? id = some t := by
  cases hf : rt.find? id with
  | none => exact absurd h (find?_eq_none_iff.1 hf)
  | some t => exact ⟨t, rfl⟩

theorem of_find?_eq_some (h : rt.find? id = some t) : t ∈ rt.tasks ∧ t.id = id :=
  ⟨List.mem_of_find?_eq_some h, by simpa using List.find?_some h⟩

theorem mem_taskIds (h : rt.find? id = some t) : id ∈ rt.taskIds :=
  (of_find?_eq_some h).2 ▸ List.mem_map_of_mem (of_find?_eq_some h).1

theorem not_hasGiven_numbered (rt : Runtime) : ¬ rt.HasGiven (.numbered rt.created) := by
  rintro ⟨n, hn, heq⟩
  exact absurd (JobId.numbered.inj heq) (Nat.ne_of_gt hn)

/-! ### The effect of each step -/

theorem submit_of_valid {text : String} (h : (validate text).isValid) (rt : Runtime)
    (user : String) (script : Option String) (follows : Option Nat) :
    rt.submit text user script follows =
      ({ rt with created := rt.created + 1 }.register
        (.create (.create (.numbered rt.created) user script) (Script.read text).executable
          (.create follows)),
        .ok (.create (.numbered rt.created) user script)) := by
  have hvalid : (Validation.ofScript (Script.read text)).isValid := h
  simp only [submit, hvalid, if_true]

theorem submit_of_not_valid {text : String} (h : (validate text).isValid = false) (rt : Runtime)
    (user : String) (script : Option String) (follows : Option Nat) :
    (rt.submit text user script follows).1 = { rt with created := rt.created + 1 } := by
  have hvalid : (Validation.ofScript (Script.read text)).isValid = false := h
  simp only [submit, hvalid, Bool.false_eq_true, if_false]

theorem poll_eq_self (hf : rt.find? id = none) : rt.poll id = rt := by
  rw [poll, hf]

theorem poll_eq (hf : rt.find? id = some t) :
    rt.poll id = { rt with sink := (rt.pollTask t).2 }.put id (rt.pollTask t).1 := by
  rw [poll, hf]

/-- A poll changes nothing but these. -/
theorem poll_frame (rt : Runtime) (id : JobId) :
    rt.poll id = { rt with
      sink := (rt.poll id).sink
      jobs := (rt.poll id).jobs
      cancellations := (rt.poll id).cancellations
      tasks := (rt.poll id).tasks
      results := (rt.poll id).results } := by
  cases hf : rt.find? id with
  | none => rw [poll_eq_self hf]
  | some t =>
      rw [poll_eq hf]
      cases (rt.pollTask t).1 <;> rfl

theorem taskIds_put_pending (rt : Runtime) {t : Task} (ht : t.id = id) :
    (rt.put id (.pending t)).taskIds = rt.taskIds := by
  rw [put, taskIds, taskIds, List.map_map]
  refine List.map_congr_left fun u _ => ?_
  by_cases hu : u.id = id
  · simp [hu, ht]
  · simp [hu]

theorem taskIds_put_ended (rt : Runtime) (id : JobId) (job : Job) :
    (rt.put id (.ended job)).taskIds = rt.taskIds.filter (· ≠ id) := by
  rw [put, evict, taskIds, taskIds, List.filter_map]
  rfl

theorem taskIds_cancel (rt : Runtime) (id : JobId) : (rt.cancel id).1.taskIds = rt.taskIds := by
  by_cases h : id ∈ rt.cancellations
  · rw [cancel, if_pos h, taskIds, taskIds, List.map_map]
    refine List.map_congr_left fun u _ => ?_
    by_cases hu : u.id = id <;> simp [hu]
  · rw [cancel, if_neg h]

namespace Sound

theorem of_create (step : Float) (sink : Sink) (usesLibrary : Bool) :
    (create step sink usesLibrary).Sound where
  jobs_eq := rfl
  cancellations_eq := rfl
  nodup := List.nodup_nil
  hasGiven := fun _ hid => by cases hid
  mem_ids := fun _ hid => by cases hid
  exists_reaches := fun _ ht => by cases ht
  mem_waiting := fun _ ht => by cases ht

theorem nodup_taskIds (h : rt.Sound) : rt.taskIds.Nodup :=
  (List.nodup_append'.1 h.nodup).1

theorem find?_eq_some (h : rt.Sound) (ht : t ∈ rt.tasks) : rt.find? t.id = some t :=
  Engine.find?_eq_some_of_nodup_map h.nodup_taskIds ht

theorem isSound (h : rt.Sound) (ht : t ∈ rt.tasks) : t.IsSound := by
  obtain ⟨statements, hreach⟩ := h.exists_reaches t ht
  exact hreach.isSound

theorem hasGiven_of_find? (h : rt.Sound) (hf : rt.find? id = some t) : rt.HasGiven id :=
  h.hasGiven id (List.mem_append_left _ (mem_taskIds hf))

/-! ### Every step keeps the maps together -/

theorem register (h : rt.Sound) {r : Run} (hr : r.job.id = .numbered rt.created)
    (hreach : ∃ statements, (Task.create r).Reaches rt.defaultStep statements) :
    ({ rt with created := rt.created + 1 }.register r).Sound := by
  have hnew : r.job.id ∉ rt.taskIds ++ rt.results.map Job.id :=
    fun hid => rt.not_hasGiven_numbered (hr ▸ h.hasGiven _ hid)
  have hids : (rt.tasks ++ [Task.create r]).map Task.id = rt.taskIds ++ [r.job.id] :=
    List.map_append
  have hperm : ((rt.taskIds ++ [r.job.id]) ++ rt.results.map Job.id).Perm
      (r.job.id :: (rt.taskIds ++ rt.results.map Job.id)) := by
    rw [List.append_assoc]
    exact List.perm_middle
  exact {
    jobs_eq := by rw [taskIds, Runtime.register, hids, h.jobs_eq]
    cancellations_eq := by rw [taskIds, Runtime.register, hids, h.cancellations_eq]
    nodup := by
      rw [taskIds, Runtime.register, hids, hperm.nodup_iff]
      exact List.nodup_cons.2 ⟨hnew, h.nodup⟩
    hasGiven := by
      intro id hid
      rw [taskIds, Runtime.register, hids, hperm.mem_iff] at hid
      rcases List.mem_cons.1 hid with rfl | hold
      · exact ⟨rt.created, Nat.lt_succ_self _, hr⟩
      · obtain ⟨n, hn, hid⟩ := h.hasGiven id hold
        exact ⟨n, Nat.lt_succ_of_lt hn, hid⟩
    mem_ids := by
      intro id hid
      rw [taskIds, Runtime.register, hids, hperm.mem_iff]
      rcases List.mem_append.1 hid with hold | hself
      · exact List.mem_cons_of_mem _ (h.mem_ids id hold)
      · exact List.mem_singleton.1 hself ▸ List.mem_cons_self
    exists_reaches := by
      intro t ht
      rcases List.mem_append.1 ht with hold | hself
      · exact h.exists_reaches t hold
      · exact List.mem_singleton.1 hself ▸ hreach
    mem_waiting := by
      intro t ht hne
      rcases List.mem_append.1 ht with hold | hself
      · exact h.mem_waiting t hold hne
      · exact absurd (List.mem_singleton.1 hself ▸ rfl) hne }

theorem submit (h : rt.Sound) (text user : String) (script : Option String)
    (follows : Option Nat) : (rt.submit text user script follows).1.Sound := by
  cases hv : (validate text).isValid with
  | false =>
      rw [submit_of_not_valid hv]
      refine { h with hasGiven := fun id hid => ?_ }
      obtain ⟨n, hn, hid⟩ := h.hasGiven id hid
      exact ⟨n, Nat.lt_succ_of_lt hn, hid⟩
  | true =>
      rw [submit_of_valid hv]
      exact h.register rfl ⟨_, Task.Reaches.of_create _ user script _ _ _⟩

/-- A poll of a task that stays pending changes no map. -/
theorem put_pending (h : rt.Sound) {t' : Task} {s : Sink}
    {statements : List Statement} (ht' : t'.id = id)
    (hreach : t'.Reaches rt.defaultStep statements)
    (hself : t'.phase ≠ .ready → id ∈ s.waiting)
    (hothers : ∀ id' ≠ id, id' ∈ rt.sink.waiting → id' ∈ s.waiting) :
    ({ rt with sink := s }.put id (.pending t')).Sound := by
  have hids := { rt with sink := s }.taskIds_put_pending ht'
  have hold : { rt with sink := s }.taskIds = rt.taskIds := rfl
  rw [hold] at hids
  have hmem : ∀ u ∈ ({ rt with sink := s }.put id (.pending t')).tasks,
      u = t' ∨ (u ∈ rt.tasks ∧ u.id ≠ id) := by
    intro u hu
    obtain ⟨u', hu', rfl⟩ := List.mem_map.1 hu
    by_cases hid : u'.id = id
    · exact Or.inl (if_pos hid)
    · rw [if_neg hid]
      exact Or.inr ⟨hu', hid⟩
  exact {
    jobs_eq := h.jobs_eq.trans hids.symm
    cancellations_eq := h.cancellations_eq.trans hids.symm
    nodup := by rw [hids]; exact h.nodup
    hasGiven := by rw [hids]; exact h.hasGiven
    mem_ids := by rw [hids]; exact h.mem_ids
    exists_reaches := by
      intro u hu
      rcases hmem u hu with rfl | ⟨hu, -⟩
      · exact ⟨statements, hreach⟩
      · exact h.exists_reaches u hu
    mem_waiting := by
      intro u hu hne
      rcases hmem u hu with rfl | ⟨hu, hid⟩
      · exact ht' ▸ hself hne
      · exact hothers _ hid (h.mem_waiting u hu hne) }

/-- A task that ends is removed from the maps, and its record is kept. -/
theorem put_ended (h : rt.Sound) (hf : rt.find? id = some t) {job : Job} {s : Sink}
    (hjob : job.id = id) (hothers : ∀ id' ≠ id, id' ∈ rt.sink.waiting → id' ∈ s.waiting) :
    ({ rt with sink := s }.put id (.ended job)).Sound := by
  have hids := { rt with sink := s }.taskIds_put_ended id job
  have hold : { rt with sink := s }.taskIds = rt.taskIds := rfl
  rw [hold] at hids
  have hresults : ({ rt with sink := s }.put id (.ended job)).results.map Job.id =
      rt.results.map Job.id ++ [id] := by
    rw [← hjob]
    exact List.map_append
  have hmem := mem_taskIds hf
  have hperm : (rt.taskIds.filter (· ≠ id) ++ (rt.results.map Job.id ++ [id])).Perm
      (rt.taskIds ++ rt.results.map Job.id) := by
    have herase : rt.taskIds.Perm (id :: rt.taskIds.filter (· ≠ id)) := by
      have hfilter : rt.taskIds.erase id = rt.taskIds.filter (· ≠ id) := by
        rw [h.nodup_taskIds.erase_eq_filter]
        exact List.filter_congr fun a _ => by rw [Bool.eq_iff_iff]; simp
      exact hfilter ▸ List.perm_cons_erase (mem_taskIds hf)
    rw [← List.append_assoc]
    exact (List.perm_append_singleton id _).trans (herase.append_right _).symm
  exact {
    jobs_eq := by rw [hids, ← h.jobs_eq]; rfl
    cancellations_eq := by rw [hids, ← h.cancellations_eq]; rfl
    nodup := by
      rw [hids, hresults, hperm.nodup_iff]
      exact h.nodup
    hasGiven := by
      intro id' hid
      rw [hids, hresults, hperm.mem_iff] at hid
      exact h.hasGiven id' hid
    mem_ids := by
      intro id' hid
      rw [hids, hresults, hperm.mem_iff]
      exact h.mem_ids id' hid
    exists_reaches := fun u hu => h.exists_reaches u (List.mem_filter.1 hu).1
    mem_waiting := by
      intro u hu hne
      obtain ⟨hu, hid⟩ := List.mem_filter.1 hu
      exact hothers _ (of_decide_eq_true hid) (h.mem_waiting u hu hne) }

/-- What a poll does to a task that has not ended. -/
theorem polls (h : rt.Sound) (hf : rt.find? id = some t) :
    t.Polls rt.defaultStep rt.clock (t.run.token.isCancelled rt.signals) rt.sink
      (rt.pollTask t) :=
  Task.polls (h.isSound (of_find?_eq_some hf).1) _ _ _ _

theorem polls_of_eq (h : rt.Sound) (hf : rt.find? id = some t) {p : Polled}
    (hp : (rt.pollTask t).1 = p) :
    t.Polls rt.defaultStep rt.clock (t.run.token.isCancelled rt.signals) rt.sink
      (p, (rt.pollTask t).2) :=
  hp ▸ h.polls hf

theorem origin_pollTask (h : rt.Sound) (hf : rt.find? id = some t) :
    (rt.pollTask t).1.job.origin = t.job.origin :=
  (h.polls_of_eq hf rfl).origin_eq

theorem poll (h : rt.Sound) (id : JobId) : (rt.poll id).Sound := by
  cases hf : rt.find? id with
  | none => rwa [poll_eq_self hf]
  | some t =>
      obtain ⟨ht, hid⟩ := of_find?_eq_some hf
      obtain ⟨statements, hreach⟩ := h.exists_reaches t ht
      obtain ⟨hothers, hself⟩ := (h.polls_of_eq hf rfl).mem_waiting (h.isSound ht)
      rw [hid] at hothers hself
      rw [poll_eq hf]
      cases hp : (rt.pollTask t).1 with
      | pending t' =>
          have hpolls := h.polls_of_eq hf hp
          have hid' : t'.id = id := (congrArg Prod.fst hpolls.origin_eq).trans hid
          exact h.put_pending hid' (hreach.of_polls hpolls).1 (hself t' hp) hothers
      | ended j =>
          have hpolls := h.polls_of_eq hf hp
          have hid' : j.id = id := (congrArg Prod.fst hpolls.origin_eq).trans hid
          exact h.put_ended hf hid' hothers

theorem receive (h : rt.Sound) : rt.receive.Sound :=
  { h with
    mem_waiting := by
      intro t ht hne
      rw [Runtime.receive, Sink.waiting_receive]
      exact h.mem_waiting t ht hne }

theorem cancel (h : rt.Sound) (id : JobId) : (rt.cancel id).1.Sound := by
  have hids := rt.taskIds_cancel id
  by_cases hmem : id ∈ rt.cancellations
  · rw [Runtime.cancel, if_pos hmem] at hids ⊢
    have htasks : ∀ u ∈ rt.tasks.map (fun t => if t.id = id then t.cancel else t),
        ∃ t ∈ rt.tasks, u = t ∨ u = t.cancel := by
      intro u hu
      obtain ⟨t, ht, rfl⟩ := List.mem_map.1 hu
      by_cases hid : t.id = id
      · exact ⟨t, ht, Or.inr (if_pos hid)⟩
      · exact ⟨t, ht, Or.inl (if_neg hid)⟩
    exact {
      jobs_eq := h.jobs_eq.trans hids.symm
      cancellations_eq := h.cancellations_eq.trans hids.symm
      nodup := by rw [hids]; exact h.nodup
      hasGiven := by rw [hids]; exact h.hasGiven
      mem_ids := by rw [hids]; exact h.mem_ids
      exists_reaches := by
        intro u hu
        obtain ⟨t, ht, rfl | rfl⟩ := htasks u hu
        · exact h.exists_reaches u ht
        · obtain ⟨statements, hreach⟩ := h.exists_reaches t ht
          exact ⟨statements, hreach.cancel⟩
      mem_waiting := by
        intro u hu hne
        obtain ⟨t, ht, rfl | rfl⟩ := htasks u hu
        · exact h.mem_waiting u ht hne
        · exact h.mem_waiting t ht hne }
  · rwa [Runtime.cancel, if_neg hmem]

theorem claim (h : rt.Sound) (id : JobId) : (rt.claim id).Sound :=
  { h with mem_ids := fun id' hid => h.mem_ids id' (List.mem_filter.1 hid).1 }

theorem collect (h : rt.Sound) (id : JobId) : (rt.collect id).Sound := by
  by_cases hmem : id ∈ rt.completions
  · rwa [Runtime.collect, if_pos hmem]
  · rw [Runtime.collect, if_neg hmem]
    have hsub : (rt.results.filter fun job => job.id ≠ id).Sublist rt.results :=
      List.filter_sublist
    have hids : (rt.taskIds ++ (rt.results.filter fun job => job.id ≠ id).map Job.id).Sublist
        (rt.taskIds ++ rt.results.map Job.id) := (hsub.map Job.id).append_left _
    exact { h with
      nodup := h.nodup.sublist hids
      hasGiven := fun id' hid => h.hasGiven id' (hids.subset hid)
      mem_ids := by
        intro id' hid
        rcases List.mem_append.1 (h.mem_ids id' hid) with htask | hresult
        · exact List.mem_append_left _ htask
        · obtain ⟨j, hj, rfl⟩ := List.mem_map.1 hresult
          have hne : j.id ≠ id := fun heq => hmem (heq ▸ hid)
          exact List.mem_append_right _
            (List.mem_map_of_mem (List.mem_filter.2 ⟨hj, decide_eq_true hne⟩)) }

theorem step (h : rt.Sound) (s : Step) : (rt.step s).Sound := by
  cases s with
  | submit text user script follows => exact h.submit text user script follows
  | poll id => exact h.poll id
  | receive => exact h.receive
  | cancel id => exact h.cancel id
  | claim id => exact h.claim id
  | collect id => exact h.collect id
  | environment signals library clock => exact { h with }

theorem run (h : rt.Sound) (steps : List Step) : (rt.run steps).Sound := by
  induction steps generalizing rt with
  | nil => exact h
  | cons s rest ih => exact ih (h.step s)

end Sound

end Runtime

end FlightScript
