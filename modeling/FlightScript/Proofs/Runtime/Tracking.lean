import FlightScript.Proofs.Runtime.History
import Mathlib.Data.List.Chain

/-!
# Which jobs are tracked

A runtime tracks a job from its submission until its task returns the final record. In between
the record of the job can be looked at and listed, and the job can be told to stop. The record
is queued until the task is polled for the first time and running from then on. It becomes
final before the task returns it: if the event of the end has to wait for room in the channel,
a job that has reached a final status is still tracked. No change of a status is ever refused.

`rt.trail id steps` are the statuses that a job goes through, in the states between some steps
and also in the middle of each poll.
-/

namespace FlightScript

/-- A job that shows the one status shows the other next, or still. -/
def Status.Precedes (s t : Status) : Prop :=
  t = s ∨ (s = .queued ∧ t = .running) ∨ (s = .running ∧ t.isFinal)

theorem Status.ne_queued_of_isFinal {s : Status} (h : s.isFinal) : s ≠ .queued := by
  rintro rfl
  cases h

namespace Task.Reaches

variable {t : Task} {step : Float} {statements : List Statement}

/-- A record is queued, running or final, and it is final just if the task is closing. -/
theorem status_cases (h : t.Reaches step statements) :
    (t.job.status = .queued ∧ t.job.startedAt = none) ∨
      (t.job.status = .running ∧ t.job.startedAt.isSome) ∨
      (t.job.status.isFinal ∧ t.IsClosing) := by
  cases h with
  | ready h =>
      rcases h.started with ⟨hqueued, htime, -⟩ | hrunning
      · exact Or.inl ⟨hqueued, htime⟩
      · exact Or.inr (Or.inl hrunning)
  | starting h hr =>
      rcases h.started with ⟨hqueued, -, -⟩ | hrunning
      · rw [hr] at hqueued
        cases hqueued
      · exact Or.inr (Or.inl hrunning)
  | closing h => exact Or.inr (Or.inr ⟨h.isFinal, _, rfl⟩)

/-- The statuses of a job before, in and after a poll follow each other. -/
theorem precedes_of_polls (h : t.Reaches step statements) {now : Int} {cancelled : Bool}
    {s s' : Sink} {p : Polled} (hp : t.Polls step now cancelled s (p, s')) :
    t.job.status.Precedes (t.run.begin now).1.job.status ∧
      (t.run.begin now).1.job.status.Precedes p.job.status ∧ p.job.status ≠ .queued := by
  by_cases ht : t.IsClosing
  · have hfinal : t.job.status.isFinal := by
      cases h with
      | ready => exact absurd ht.choose_spec (by simp)
      | starting => exact absurd ht.choose_spec (by simp)
      | closing h => exact h.isFinal
    have hne := Status.ne_queued_of_isFinal hfinal
    have hbegin : (t.run.begin now).1 = t.run := by
      rw [Run.begin, if_neg (show t.run.job.status ≠ .queued from hne)]
    rw [hbegin, hp.job_of_isClosing ht]
    exact ⟨Or.inl rfl, Or.inl rfl, hne⟩
  · have hreach := h.run_reaches ht
    have hrunning := (hreach.begin now).2
    have hbefore : t.job.status.Precedes .running := by
      rcases hreach.started with ⟨hqueued, -, -⟩ | ⟨hstatus, -⟩
      · exact Or.inr (Or.inl ⟨hqueued, rfl⟩)
      · exact Or.inl hstatus.symm
    rw [hrunning]
    refine ⟨hbefore, ?_⟩
    cases hp with
    | starting => exact ⟨Or.inl hrunning, fun hq => by cases hq.symm.trans hrunning⟩
    | running _ hturn =>
        obtain ⟨-, -, hstatus⟩ := hreach.executed_of_turn (congrArg Prod.fst hturn)
        exact ⟨Or.inl hstatus, fun hq => by cases hq.symm.trans hstatus⟩
    | settled _ hturn =>
        have hfinal := (hreach.endsAfter_of_turn (congrArg Prod.fst hturn)).isFinal
        exact ⟨Or.inr (Or.inr ⟨rfl, hfinal⟩), Status.ne_queued_of_isFinal hfinal⟩
    | ended _ hturn =>
        have hfinal := (hreach.endsAfter_of_turn (congrArg Prod.fst hturn)).isFinal
        exact ⟨Or.inr (Or.inr ⟨rfl, hfinal⟩), Status.ne_queued_of_isFinal hfinal⟩
    | closing hclosing => exact absurd ⟨_, hclosing⟩ ht
    | returned hclosing => exact absurd ⟨_, hclosing⟩ ht

end Task.Reaches

namespace Runtime

/-- The status in the record of a job, for as long as there is one. -/
def statusOf? (rt : Runtime) (id : JobId) : Option Status :=
  (rt.record? id).map Job.status

/-- The status of a job in the middle of a poll of its task, when it is started if it was
queued. -/
def statusWithin? (rt : Runtime) (id : JobId) : Step → Option Status
  | .poll other =>
    if other = id then (rt.find? id).map fun t => (t.run.begin rt.clock).1.job.status else none
  | _ => none

/-- The statuses of a job before, in and after each of some steps. -/
def trail (rt : Runtime) (id : JobId) : List Step → List Status
  | [] => (rt.statusOf? id).toList
  | s :: rest =>
    (rt.statusOf? id).toList ++ ((rt.statusWithin? id s).toList ++ (rt.step s).trail id rest)

/-- The jobs with certain names, and no others, are in both maps, and they are listed, looked at
and told to stop. -/
structure Tracks (rt : Runtime) (tracked : JobId → Prop) : Prop where
  mem_jobs_iff : ∀ id, id ∈ rt.jobs ↔ tracked id
  mem_cancellations_iff : ∀ id, id ∈ rt.cancellations ↔ tracked id
  nodup_jobs : rt.jobs.Nodup
  nodup_cancellations : rt.cancellations.Nodup
  map_id_list : rt.list.map Job.id = rt.jobs
  activeCount_eq : rt.activeCount = rt.list.length
  lookup : ∀ id, tracked id →
    (∃ job ∈ rt.list, job.id = id ∧ rt.status id = .ok job) ∧ (rt.cancel id).2 = .ok ()
  lookup_unknown : ∀ id, ¬ tracked id →
    rt.status id = .error (.unknownJob id) ∧ (rt.cancel id).2 = .error (.unknownJob id)

/-- The record of a job is final, and its task waits for room to publish that. -/
def HoldsBack (rt : Runtime) (id : JobId) : Prop :=
  ∃ t ∈ rt.tasks, t.id = id ∧ t.IsClosing ∧ id ∈ rt.sink.waiting

variable {rt : Runtime} {id : JobId} {t : Task}

/-! ### Records -/

namespace Sound

theorem record?_of_mem (h : rt.Sound) {j : Job} (hj : j ∈ rt.tasks.map Task.job ++ rt.results) :
    rt.record? j.id = some j := by
  have hnodup : ((rt.tasks.map Task.job ++ rt.results).map Job.id).Nodup := by
    rw [List.map_append, List.map_map]
    exact h.nodup
  exact Engine.find?_eq_some_of_nodup_map hnodup hj

theorem record?_eq (h : rt.Sound) (hf : rt.find? id = some t) : rt.record? id = some t.job := by
  obtain ⟨ht, rfl⟩ := of_find?_eq_some hf
  exact h.record?_of_mem (List.mem_append_left _ (List.mem_map_of_mem ht))

theorem record?_cases (h : rt.Sound) {j : Job} (hj : rt.record? id = some j) :
    (∃ t, rt.find? id = some t ∧ j = t.job) ∨
      (rt.find? id = none ∧ j ∈ rt.results ∧ j.id = id) := by
  have hid : j.id = id := by simpa using List.find?_some hj
  cases hf : rt.find? id with
  | some t => exact Or.inl ⟨t, rfl, Option.some.inj (hj.symm.trans (h.record?_eq hf))⟩
  | none =>
      refine Or.inr ⟨rfl, ?_, hid⟩
      rcases List.mem_append.1 (List.mem_of_find?_eq_some hj) with htask | hresult
      · obtain ⟨t, ht, rfl⟩ := List.mem_map.1 htask
        have htid : t.id = id := hid
        rw [← htid, h.find?_eq_some ht] at hf
        cases hf
      · exact hresult

theorem list_eq (h : rt.Sound) : rt.list = rt.tasks.map Task.job := by
  have hrecord : ∀ t ∈ rt.tasks, rt.record? t.id = some t.job :=
    fun t ht => h.record?_eq (h.find?_eq_some ht)
  rw [list, h.jobs_eq, taskIds, List.filterMap_map, ← List.filterMap_eq_map]
  exact List.filterMap_congr hrecord

theorem tracks (h : rt.Sound) {tracked : JobId → Prop}
    (ht : ∀ id, id ∈ rt.taskIds ↔ tracked id) : rt.Tracks tracked where
  mem_jobs_iff := by rw [h.jobs_eq]; exact ht
  mem_cancellations_iff := by rw [h.cancellations_eq]; exact ht
  nodup_jobs := by rw [h.jobs_eq]; exact h.nodup_taskIds
  nodup_cancellations := by rw [h.cancellations_eq]; exact h.nodup_taskIds
  map_id_list := by rw [h.list_eq, h.jobs_eq, List.map_map]; rfl
  activeCount_eq := by
    rw [h.list_eq, activeCount, h.jobs_eq, taskIds, List.length_map, List.length_map]
  lookup := by
    intro id hid
    have hmem := (ht id).2 hid
    obtain ⟨t, hf⟩ := exists_find?_eq_some hmem
    refine ⟨⟨t.job, ?_, (of_find?_eq_some hf).2, ?_⟩, ?_⟩
    · rw [h.list_eq]
      exact List.mem_map_of_mem (of_find?_eq_some hf).1
    · rw [status, h.record?_eq hf, h.jobs_eq]
      exact if_pos hmem
    · rw [Runtime.cancel, h.cancellations_eq, if_pos hmem]
  lookup_unknown := by
    intro id hid
    have hmem : id ∉ rt.taskIds := fun hmem => hid ((ht id).1 hmem)
    constructor
    · rw [status, h.jobs_eq]
      cases rt.record? id with
      | none => rfl
      | some job => exact if_neg hmem
    · rw [Runtime.cancel, h.cancellations_eq, if_neg hmem]

/-! ### The statuses of a job -/

theorem statusWithin?_of_ne (rt : Runtime) {s : Step} (hs : s ≠ .poll id) :
    rt.statusWithin? id s = none := by
  cases s with
  | poll other =>
      rw [statusWithin?, if_neg]
      rintro rfl
      exact hs rfl
  | _ => rfl

theorem statusWithin?_poll (hf : rt.find? id = some t) :
    rt.statusWithin? id (.poll id) = some (t.run.begin rt.clock).1.job.status := by
  rw [statusWithin?, if_pos rfl, hf, Option.map_some]

theorem statusOf?_eq (h : rt.Sound) (hf : rt.find? id = some t) :
    rt.statusOf? id = some t.job.status := by
  rw [statusOf?, h.record?_eq hf, Option.map_some]

/-- A job that is started in the middle of a poll was queued. -/
theorem precedes_statusWithin? (h : rt.Sound) {s : Step} {w : Status}
    (hw : rt.statusWithin? id s = some w) : ∃ v, rt.statusOf? id = some v ∧ v.Precedes w := by
  by_cases hs : s = .poll id
  · subst hs
    cases hf : rt.find? id with
    | none =>
        rw [statusWithin?, if_pos rfl, hf] at hw
        cases hw
    | some t =>
        rw [statusWithin?_poll hf] at hw
        obtain rfl := Option.some.inj hw
        obtain ⟨statements, hreach⟩ := h.exists_reaches t (of_find?_eq_some hf).1
        exact ⟨_, h.statusOf?_eq hf, (hreach.precedes_of_polls (h.polls_of_eq hf rfl)).1⟩
  · rw [statusWithin?_of_ne rt hs] at hw
    cases hw

/-- The status of a job is what a poll made of it, or it is as it was. -/
theorem statusOf?_step (h : rt.Sound) (hid : rt.HasGiven id) {s : Step} {u : Status}
    (hu : (rt.step s).statusOf? id = some u) :
    (rt.statusOf? id = some u ∧ rt.statusWithin? id s = none) ∨
      ∃ w, rt.statusWithin? id s = some w ∧ w.Precedes u := by
  obtain ⟨j, hj, rfl⟩ := Option.map_eq_some_iff.1 hu
  have hstep := h.step s
  cases hf : rt.find? id with
  | none =>
      have hnone := h.find?_step_eq_none hid hf s
      rcases hstep.record?_cases hj with ⟨t, hf', -⟩ | ⟨-, hresult, rfl⟩
      · cases hnone.symm.trans hf'
      · left
        rcases mem_results_step.1 hresult with ⟨hold, -⟩ | hnew
        · refine ⟨by rw [statusOf?, h.record?_of_mem (List.mem_append_right _ hold)]; rfl, ?_⟩
          by_cases hs : s = .poll j.id
          · rw [hs, statusWithin?, if_pos rfl, hf]
            rfl
          · exact statusWithin?_of_ne rt hs
        · obtain ⟨-, t, hf', -⟩ := h.mem_returns_iff.1 hnew
          cases hf.symm.trans hf'
  | some t =>
      by_cases hs : s = .poll id
      · subst hs
        right
        obtain ⟨statements, hreach⟩ := h.exists_reaches t (of_find?_eq_some hf).1
        have hself := find?_poll_self h hf
        have hjob : j.status = (rt.pollTask t).1.job.status := by
          rcases hstep.record?_cases hj with ⟨t', hf', rfl⟩ | ⟨hnone, hresult, rfl⟩
          · have htask := hself.symm.trans hf'
            cases hp : (rt.pollTask t).1 with
            | pending t₁ =>
                rw [hp] at htask
                rw [Option.some.inj htask]
                rfl
            | ended job =>
                rw [hp] at htask
                cases htask
          · rcases mem_results_step.1 hresult with ⟨hold, -⟩ | hnew
            · have hboth := List.nodup_append'.1 h.nodup
              exact absurd (List.mem_map_of_mem hold) (hboth.2.2 (mem_taskIds hf))
            · obtain ⟨-, t₁, hf₁, hended⟩ := h.mem_returns_iff.1 hnew
              obtain rfl := Option.some.inj (hf.symm.trans hf₁)
              rw [hended]
              rfl
        obtain ⟨-, hafter, -⟩ := hreach.precedes_of_polls (h.polls_of_eq hf rfl)
        exact ⟨_, statusWithin?_poll hf, hjob ▸ hafter⟩
      · left
        refine ⟨?_, statusWithin?_of_ne rt hs⟩
        have hsame : (rt.step s).statusOf? id = some t.job.status := by
          rcases h.find?_step_of_ne hf hs with hold | ⟨-, hcancel⟩
          · exact hstep.statusOf?_eq hold
          · have hstatus := hstep.statusOf?_eq hcancel
            exact hstatus
        rw [h.statusOf?_eq hf, ← hsame, hu]

/-- The statuses of a job follow each other, beginning with the present one. -/
theorem trail_chain (h : rt.Sound) (hid : rt.HasGiven id) (steps : List Step) :
    (rt.trail id steps).head? = rt.statusOf? id ∧
      (rt.trail id steps).IsChain Status.Precedes := by
  induction steps generalizing rt with
  | nil => cases hs : rt.statusOf? id <;> simp [trail, hs]
  | cons s rest ih =>
      obtain ⟨hhead, hchain⟩ := ih (h.step s) (hid.step s)
      rw [trail]
      cases hw : rt.statusWithin? id s with
      | none =>
          have hsame : ∀ u, (rt.step s).statusOf? id = some u → rt.statusOf? id = some u := by
            intro u hu
            rcases h.statusOf?_step hid hu with ⟨hold, -⟩ | ⟨w, hwithin, -⟩
            · exact hold
            · cases hw.symm.trans hwithin
          cases hv : rt.statusOf? id with
          | none =>
              refine ⟨hhead.trans ?_, hchain⟩
              cases hu : (rt.step s).statusOf? id with
              | none => rfl
              | some u => exact (hsame u hu).symm.trans hv
          | some v =>
              refine ⟨rfl, List.isChain_cons.2 ⟨fun u hu => Or.inl ?_, hchain⟩⟩
              exact Option.some.inj ((hsame u (hhead.symm.trans hu)).symm.trans hv)
      | some w =>
          obtain ⟨v, hv, hbefore⟩ := h.precedes_statusWithin? hw
          rw [hv]
          refine ⟨rfl, List.isChain_cons_cons.2 ⟨hbefore, ?_⟩⟩
          refine List.isChain_cons.2 ⟨fun u hu => ?_, hchain⟩
          rcases h.statusOf?_step hid (hhead.symm.trans hu) with ⟨-, hnone⟩ | ⟨w', hw', hafter⟩
          · cases hw.symm.trans hnone
          · obtain rfl := Option.some.inj (hw.symm.trans hw')
            exact hafter

end Sound

/-! ### The record of a job that was started -/

/-- The task of a job that was started carries out the statements of its text, and it was not
polled just if its record is queued. -/
theorem Starts.of_find? {steps since : List Step} {text user : String} {script : Option String}
    {next : Runtime} (h : rt.Starts steps id text user script next since) (hrt : rt.Sound)
    (hf : (rt.run steps).find? id = some t) :
    t.job.origin = (id, script, user) ∧
      t.Reaches rt.defaultStep (Script.read text).executable ∧
      (t.job.status = .queued ↔ .poll id ∉ since) := by
  obtain ⟨hnext, hstep, ⟨follows, hf₀⟩, -, hrun, -⟩ := h.of_sound hrt
  rw [hrun] at hf
  rw [← hstep]
  refine hnext.find?_run_induction hf₀
    (P := fun since t => t.job.origin = (id, script, user) ∧
      t.Reaches next.defaultStep (Script.read text).executable ∧
      (t.job.status = .queued ↔ .poll id ∉ since))
    ⟨rfl, Task.Reaches.of_create .., iff_of_true rfl List.not_mem_nil⟩ ?_ ?_ ?_ since hf
  · rintro front t₁ t₂ hf₁ ⟨horigin, hreach, -⟩ hp
    have hpolls := (hnext.run front).polls_of_eq hf₁ hp
    rw [defaultStep_run] at hpolls
    refine ⟨hpolls.origin_eq.trans horigin, (hreach.of_polls hpolls).1, ?_⟩
    exact iff_of_false (hreach.precedes_of_polls hpolls).2.2 (by simp)
  · rintro front t₁ ⟨horigin, hreach, hstatus⟩
    exact ⟨horigin, hreach.cancel, by simpa using hstatus⟩
  · rintro front s t₁ hs ⟨horigin, hreach, hstatus⟩
    exact ⟨horigin, hreach, by simpa [Ne.symm hs] using hstatus⟩

/-- The record of a job that is tracked is queued, running, or final and held back. -/
theorem Starts.record_cases {steps since : List Step} {text user : String}
    {script : Option String} {next : Runtime}
    (h : rt.Starts steps id text user script next since) (hrt : rt.Sound) {job : Job}
    (hjob : job ∈ (rt.run steps).list) (hid : job.id = id) :
    (job.status = .queued ∧ job.startedAt = none ∧ .poll id ∉ since) ∨
      (job.status = .running ∧ job.startedAt.isSome ∧ .poll id ∈ since) ∨
      (job.status.isFinal ∧ .poll id ∈ since ∧ (rt.run steps).HoldsBack id) := by
  have hsound := hrt.run steps
  rw [hsound.list_eq] at hjob
  obtain ⟨t, ht, rfl⟩ := List.mem_map.1 hjob
  have htid : t.id = id := hid
  have hf : (rt.run steps).find? id = some t := htid ▸ hsound.find?_eq_some ht
  obtain ⟨-, hreach, hiff⟩ := h.of_find? hrt hf
  have hpolled : t.job.status ≠ .queued → .poll id ∈ since := fun hne => by
    by_contra hnot
    exact hne (hiff.2 hnot)
  rcases hreach.status_cases with ⟨hqueued, htime⟩ | ⟨hrunning, htime⟩ | ⟨hfinal, hclosing⟩
  · exact Or.inl ⟨hqueued, htime, hiff.1 hqueued⟩
  · exact Or.inr (Or.inl ⟨hrunning, htime, hpolled (by rw [hrunning]; decide)⟩)
  · have hne := Status.ne_queued_of_isFinal hfinal
    have hphase : t.phase ≠ .ready := by
      obtain ⟨e, he⟩ := hclosing
      rw [he]
      exact Phase.noConfusion
    refine Or.inr (Or.inr ⟨hfinal, hpolled hne, t, ht, htid, hclosing, ?_⟩)
    exact htid ▸ hsound.mem_waiting t ht hphase

/-- The jobs that are tracked, by both maps alike, are those that were started and whose task has
not returned. A job is queued until its first poll, then running and at last in one final
status, in which it stays, and no change of a status is refused. It is final while it is
tracked just as long as its last event waits for room. -/
theorem tracked_after (step : Float) (sink : Sink) (usesLibrary : Bool) (steps : List Step) :
    let start := create step sink usesLibrary
    let rt := start.run steps
    rt.Tracks (fun id => start.HasStarted steps id ∧
      id ∉ (start.returned steps).map Job.id) ∧
    (∀ job ∈ start.returned steps, job.status.isFinal) ∧
    (∀ id text user script next since, start.Starts steps id text user script next since →
      (∀ job ∈ rt.list, job.id = id →
        (job.status = .queued ∧ job.startedAt = none ∧ .poll id ∉ since) ∨
        (job.status = .running ∧ job.startedAt.isSome ∧ .poll id ∈ since) ∨
        (job.status.isFinal ∧ .poll id ∈ since ∧ rt.HoldsBack id)) ∧
      (next.trail id since).head? = some .queued ∧
      (next.trail id since).IsChain Status.Precedes) ∧
    ∀ t ∈ rt.tasks, ¬ t.IsClosing →
      (t.job.status = .queued → ∃ job, t.job.transition .running = .ok job) ∧
      ∀ step now cancelled x ending, (t.run.begin now).1.Closes step cancelled x ending →
        ∃ job, (x.results now).transition ending.status = .ok job := by
  intro start rt
  have hstart := Sound.of_create step sink usesLibrary
  have hrt : rt.Sound := hstart.run steps
  refine ⟨?_, fun job hjob => hstart.isFinal_of_mem_returned hjob, ?_, ?_⟩
  · exact hrt.tracks fun id => mem_taskIds_run_iff hstart rfl
  · intro id text user script next since hstarts
    obtain ⟨hnext, -, ⟨follows, hf⟩, -⟩ := hstarts.of_sound hstart
    obtain ⟨hhead, hchain⟩ := hnext.trail_chain (hnext.hasGiven_of_find? hf) since
    refine ⟨fun job hjob hid => hstarts.record_cases hstart hjob hid, ?_, hchain⟩
    rw [hhead, hnext.statusOf?_eq hf]
    rfl
  · intro t ht hopen
    obtain ⟨statements, hreach⟩ := hrt.exists_reaches t ht
    refine ⟨fun hqueued => ?_, fun step now cancelled x ending hcloses => ?_⟩
    · exact ⟨_, by rw [Job.transition, if_pos (by rw [hqueued]; rfl)]⟩
    · have hrunning : x.job.status = .running :=
        hcloses.status_eq.trans ((hreach.run_reaches hopen).begin now).2
      exact ⟨_, Run.transition_results hrunning now ending⟩

/-- In a channel with room for one event, a job whose start is published and not received is
completed, and still tracked. -/
theorem tracked_after_full_channel :
    let start := create 60 (.channel (.create 1)) false
    let rt := start.run [.submit "" "ann" none none, .submit "Sat.X = 1" "bob" none none,
      .poll (.numbered 0)]
    rt.HoldsBack (.numbered 0) ∧ (rt.cancel (.numbered 0)).2 = .ok () ∧
      (rt.cancel (.numbered 1)).2 = .error (.unknownJob (.numbered 1)) := by
  intro start rt
  obtain ⟨htracks, -, hstarts, -⟩ := tracked_after 60 (.channel (.create 1)) false
    [.submit "" "ann" none none, .submit "Sat.X = 1" "bob" none none, .poll (.numbered 0)]
  have hfirst : start.Starts [.submit "" "ann" none none, .submit "Sat.X = 1" "bob" none none,
      .poll (.numbered 0)] (.numbered 0) "" "ann" none _ _ :=
    ⟨[], none, rfl, Prod.ext rfl (by decide +kernel)⟩
  obtain ⟨hrecord, -, -⟩ := hstarts _ _ _ _ _ _ hfirst
  obtain ⟨⟨job, hjob, hid, hlook⟩, hcancel⟩ :=
    htracks.lookup (.numbered 0) ⟨⟨_, _, _, _, _, hfirst⟩, by decide +kernel⟩
  refine ⟨?_, hcancel, ?_⟩
  · have hstatus : ∀ job ∈ rt.list, job.status = .completed := by decide +kernel
    rcases hrecord job hjob hid with ⟨hqueued, -⟩ | ⟨hrunning, -⟩ | ⟨-, -, hheld⟩
    · cases (hstatus job hjob).symm.trans hqueued
    · cases (hstatus job hjob).symm.trans hrunning
    · exact hheld
  · refine (htracks.lookup_unknown (.numbered 1) fun htracked => ?_).2
    exact absurd ((htracks.mem_jobs_iff _).2 htracked) (by decide +kernel)

/-- A job can be looked at that has reached a final status. -/
theorem completed_job_is_tracked :
    let rt := (create 60 (.channel (.create 1)) false).run
      [.submit "" "ann" none none, .poll (.numbered 0)]
    rt.jobs = [.numbered 0] ∧
      ∃ job, rt.status (.numbered 0) = .ok job ∧ job.status = .completed := by
  refine ⟨by decide +kernel, { Job.create (.numbered 0) "ann" none with
    status := .completed, progress := 100, startedAt := some 0, completedAt := some 0 }, ?_, rfl⟩
  decide +kernel

end Runtime

end FlightScript
