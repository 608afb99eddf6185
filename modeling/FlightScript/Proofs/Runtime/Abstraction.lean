import FlightScript.Proofs.Engine.Admission
import FlightScript.Proofs.Runtime.Delivery

/-!
# Runtimes and engines

A runtime in which no task has to wait for room does what its engine does
(`after_create_engine`): a poll is a turn of a run, the polls of a round are the round of the
engine (`Sound.engine_round`), and an operation has the same effect and is answered in the same
way (`Sound.apply_engine`). So what holds of every history of an engine holds of such a runtime.

The engine knows a record by being kept, the runtime by somebody being able to claim it. These are
the same as long as nobody waits for a job that has not ended (`rt.Claimable`).
-/

namespace FlightScript

theorem Engine.stillRunning_cons (p : Progress) (ps : List Progress) :
    stillRunning (p :: ps) = stillRunning [p] ++ stillRunning ps :=
  List.filterMap_append (l := [p])

theorem Engine.justEnded_cons (p : Progress) (ps : List Progress) :
    justEnded (p :: ps) = justEnded [p] ++ justEnded ps :=
  List.filterMap_append (l := [p])

namespace Runtime

def calls : List Act → List Operation
  | [] => []
  | .call operation :: rest => operation :: calls rest
  | .receive :: rest => calls rest

/-- Every job that has not ended, and every record that is kept, can be claimed, but for some. -/
def Claimable (rt : Runtime) (except : JobId → Prop) : Prop :=
  ∀ id ∈ rt.taskIds ++ rt.results.map Job.id, id ∈ rt.completions ∨ except id

variable {rt : Runtime} {id : JobId} {t : Task} {steps : List Step} {n : Nat}
  {except : JobId → Prop}

/-! ### Rounds -/

theorem find?_engine (rt : Runtime) (id : JobId) :
    rt.engine.find? id = (rt.find? id).map Task.run := by
  rw [Engine.find?, find?, engine, List.find?_map]
  rfl

theorem turn_engine (rt : Runtime) (t : Task) : rt.engine.turn t.run = rt.turn t := rfl

namespace Sound

/-- A poll of a task is a turn of its run. -/
theorem poll_engine (h : rt.Sound) (hready : rt.AllReady) {front rest : List Task}
    (htasks : rt.tasks = front ++ t :: rest) (hnext : (rt.poll t.id).AllReady) :
    ∃ new : List Task, (rt.poll t.id).tasks = front ++ new ++ rest ∧
      new.map Task.run = Engine.stillRunning [(rt.turn t).1] ∧
      (rt.poll t.id).engine = { rt.engine with
        active := (rt.poll t.id).tasks.map Task.run
        ended := rt.results ++ Engine.justEnded [(rt.turn t).1]
        received := rt.engine.received ++ rt.sink.publisher.deliver (rt.turn t).2 } := by
  have hf : rt.find? t.id = some t := h.find?_eq_some (htasks ▸ by simp)
  obtain ⟨hp, hqueue⟩ := h.pollTask_eq hready hf hnext
  have hid : (Polled.ofProgress (rt.turn t).1).job.id = t.id := by
    rw [← hp]
    exact congrArg Prod.fst (h.origin_pollTask hf)
  have hpublisher := (h.polls_of_eq hf rfl).publisher_eq
  obtain ⟨htasks', hresults⟩ :=
    { rt with sink := (rt.pollTask t).2 }.put_middle h.nodup_taskIds htasks hid
  have hpoll : rt.poll t.id =
      { rt with sink := (rt.pollTask t).2 }.put t.id (.ofProgress (rt.turn t).1) := by
    rw [poll_eq hf, hp]
  refine ⟨(Polled.ofProgress (rt.turn t).1).task?.toList, by rw [hpoll, htasks'], ?_, ?_⟩
  · cases (rt.turn t).1 <;> rfl
  · have hended : (Polled.ofProgress (rt.turn t).1).record?.toList =
        Engine.justEnded [(rt.turn t).1] := by
      cases (rt.turn t).1 <;> rfl
    rw [hended] at hresults
    rw [hpoll, engine, hresults, engine]
    cases (rt.turn t).1 <;>
      simp only [Polled.ofProgress, put, evict, hpublisher, hqueue, List.append_assoc]

/-- The polls of some tasks, one after the other, are turns of their runs. -/
theorem run_polls_engine (h : rt.Sound) (hready : rt.AllReady) {front rest : List Task}
    (htasks : rt.tasks = front ++ rest) (hsteps : rt.NeverWaits (rest.map fun t => .poll t.id)) :
    (rt.run (rest.map fun t => .poll t.id)).engine = { rt.engine with
      active := front.map Task.run ++ Engine.stillRunning (rest.map fun t => (rt.turn t).1)
      ended := rt.results ++ Engine.justEnded (rest.map fun t => (rt.turn t).1)
      received := rt.engine.received ++
        rt.sink.publisher.deliver (rest.flatMap fun t => (rt.turn t).2) } := by
  induction rest generalizing rt front with
  | nil => simp [engine, htasks, Engine.stillRunning, Engine.justEnded]
  | cons t rest ih =>
      obtain ⟨hnext, hlater⟩ := hsteps
      obtain ⟨new, htasks', hnew, hpoll⟩ := h.poll_engine hready htasks hnext
      have hturn : ∀ u, (rt.poll t.id).turn u = rt.turn u := by
        intro u
        rw [← turn_engine, ← turn_engine, hpoll]
        rfl
      have hrest := ih (h.poll t.id) hnext htasks' hlater
      have hresults : (rt.poll t.id).results = rt.results ++ Engine.justEnded [(rt.turn t).1] :=
        congrArg Engine.ended hpoll
      have hpublisher : (rt.poll t.id).sink.publisher = rt.sink.publisher :=
        congrArg Engine.publisher hpoll
      rw [List.map_cons, run_cons]
      refine hrest.trans ?_
      rw [hpoll, hresults, hpublisher, List.map_append, hnew, List.map_cons,
        Engine.stillRunning_cons _ (rest.map _), Engine.justEnded_cons _ (rest.map _),
        List.flatMap_cons, Publisher.deliver_append]
      simp only [hturn, List.append_assoc]

/-- The polls of a round are the round of the engine. -/
theorem engine_round (h : rt.Sound) (hready : rt.AllReady) (hsteps : rt.NeverWaits rt.roundSteps) :
    (rt.run rt.roundSteps).engine = rt.engine.round := by
  have hround := h.run_polls_engine hready (List.nil_append rt.tasks).symm hsteps
  have hturns : rt.engine.active.map rt.engine.turn = rt.tasks.map rt.turn :=
    List.map_map
  refine hround.trans ?_
  rw [Engine.round, hturns, List.map_map, List.flatMap_map]
  rfl

theorem engine_settleSteps (h : rt.Sound) (hready : rt.AllReady)
    (hsteps : rt.NeverWaits (settleSteps id n rt)) :
    (rt.run (settleSteps id n rt)).engine = Engine.roundsFor id n rt.engine := by
  induction n generalizing rt with
  | zero => rfl
  | succ n ih =>
      rw [settleSteps] at hsteps ⊢
      rw [Engine.roundsFor, find?_engine]
      cases hf : rt.find? id with
      | none => rfl
      | some t =>
          rw [hf, neverWaits_append] at hsteps
          obtain ⟨hnow, hlater⟩ := hsteps
          dsimp only
          rw [Option.map_some, run_append, ih (h.run _) (hready.run hnow) hlater,
            h.engine_round hready hnow]

end Sound

/-! ### Who is waited for -/

/-- Nobody is waited for any more if nothing is claimed. -/
theorem Claimable.step (hc : rt.Claimable except) (h : rt.Sound) {s : Step}
    (hs : ∀ id, s ≠ .claim id) : (rt.step s).Claimable except := by
  have hkeep : ∀ id ∈ rt.taskIds ++ rt.results.map Job.id,
      id ∈ (rt.step s).completions ∨ except id := fun id hid =>
    (hc id hid).imp_left fun hmem => mem_completions_step_iff.2 (Or.inl ⟨hmem, hs id⟩)
  intro id hid
  rcases List.mem_append.1 hid with htask | hresult
  · cases hf : rt.find? id with
    | some t => exact hkeep id (List.mem_append_left _ (mem_taskIds hf))
    | none =>
        obtain ⟨t, hf'⟩ := exists_find?_eq_some htask
        exact Or.inl (mem_completions_step_iff.2 (Or.inr (h.exists_submit hf hf')))
  · obtain ⟨j, hj, rfl⟩ := List.mem_map.1 hresult
    rcases mem_results_step.1 hj with ⟨hold, -⟩ | hreturns
    · exact hkeep j.id (List.mem_append_right _ (List.mem_map_of_mem hold))
    · obtain ⟨-, t, hf, -⟩ := h.mem_returns_iff.1 hreturns
      exact hkeep j.id (List.mem_append_left _ (mem_taskIds hf))

theorem Claimable.run (hc : rt.Claimable except) (h : rt.Sound)
    (hsteps : ∀ s ∈ steps, ∀ id, s ≠ .claim id) : (rt.run steps).Claimable except := by
  induction steps generalizing rt with
  | nil => exact hc
  | cons s rest ih =>
      exact ih (hc.step h (hsteps s List.mem_cons_self)) (h.step s) fun s hs =>
        hsteps s (List.mem_cons_of_mem _ hs)

theorem not_mem_completions_claimSteps (rt : Runtime) (id : JobId) :
    id ∉ (rt.run (rt.claimSteps id)).completions := by
  intro hmem
  rw [claimSteps, run_cons] at hmem
  have hclaimed := mem_completions_of_run hmem fun s hs => by
    obtain ⟨other, rfl⟩ := exists_poll_of_mem_settleSteps hs
    exact fun _ _ _ _ => Step.noConfusion
  exact absurd rfl (of_decide_eq_true (List.mem_filter.1 hclaimed).2)

/-- Waiting for a job that finds room leaves nobody waiting. -/
theorem Claimable.waitSteps (hc : rt.Claimable fun _ => False) (h : rt.Sound)
    (hroom : FindsRoom id rt (rt.waitSteps id)) :
    (rt.run (rt.waitSteps id)).Claimable fun _ => False := by
  have hclaim : (rt.claim id).Claimable (· = id) := by
    intro other hother
    rcases hc other hother with hmem | hfalse
    · by_cases hid : other = id
      · exact Or.inr hid
      · exact Or.inl (List.mem_filter.2 ⟨hmem, decide_eq_true hid⟩)
    · exact hfalse.elim
  have hsettled : (rt.run (rt.claimSteps id)).Claimable (· = id) :=
    hclaim.run (h.claim id) fun s hs => by
      obtain ⟨other, rfl⟩ := exists_poll_of_mem_settleSteps hs
      exact fun _ => Step.noConfusion
  have hcollected := hsettled.step (h.run _) (s := .collect id) fun _ => Step.noConfusion
  rw [Runtime.waitSteps, findsRoom_append] at hroom
  have hnone : (rt.run (rt.claimSteps id)).find? id = none :=
    (h.claim id).find?_settleSteps hroom.1.2
  have hnot := rt.not_mem_completions_claimSteps id
  rw [Runtime.waitSteps, run_append]
  intro other hother
  refine (hcollected other hother).imp_right ?_
  rintro rfl
  have hcollect : (rt.run (rt.claimSteps other)).collect other = { rt.run (rt.claimSteps other) with
      results := (rt.run (rt.claimSteps other)).results.filter fun job => job.id ≠ other } := by
    rw [collect, if_neg hnot]
  rw [run_cons, run_nil, Runtime.step, hcollect] at hother
  rcases List.mem_append.1 hother with htask | hresult
  · exact find?_eq_none_iff.1 hnone htask
  · obtain ⟨j, hj, hid⟩ := List.mem_map.1 hresult
    exact of_decide_eq_true (List.mem_filter.1 hj).2 hid

/-! ### Operations -/

theorem submit_engine (rt : Runtime) (text user : String) (script : Option String)
    (follows : Option Nat) :
    rt.engine.submit text user script follows =
      ((rt.submit text user script follows).1.engine,
        (rt.submit text user script follows).2) := by
  cases hv : (Validation.ofScript (Script.read text)).isValid with
  | false =>
      simp only [Engine.submit, submit, hv]
      rfl
  | true =>
      simp only [Engine.submit, submit, hv, if_true, register, engine, List.map_append]
      rfl

theorem engine_receive (rt : Runtime) : rt.receive.engine = rt.engine := by
  have hqueue : rt.sink.queue.head?.toList ++ rt.sink.queue.tail = rt.sink.queue := by
    cases rt.sink.queue <;> rfl
  simp only [receive, engine, Sink.publisher_receive, Sink.queue_receive,
    List.append_assoc, hqueue]

theorem collect_engine {rt : Runtime} (h : id ∉ rt.completions) :
    (rt.collect id).engine = (rt.engine.collect id).1 := by
  rw [Engine.collect_fst, collect, if_neg h]
  rfl

namespace Sound

theorem status_engine (h : rt.Sound) (id : JobId) : rt.engine.status id = rt.status id := by
  rw [Engine.status, find?_engine]
  cases hf : rt.find? id with
  | some t =>
      have hmem := mem_taskIds hf
      rw [status, h.record?_eq hf, h.jobs_eq]
      exact (if_pos hmem).symm
  | none =>
      have htracks := h.tracks fun _ => Iff.rfl
      exact (htracks.lookup_unknown id (find?_eq_none_iff.1 hf)).1.symm

theorem cancel_engine (h : rt.Sound) (id : JobId) :
    rt.engine.cancel id = ((rt.cancel id).1.engine, (rt.cancel id).2) := by
  rw [Engine.cancel, find?_engine, Runtime.cancel, h.cancellations_eq]
  cases hf : rt.find? id with
  | some t =>
      have hmem := mem_taskIds hf
      have htasks : (rt.tasks.map fun t => if t.id = id then t.cancel else t).map Task.run =
          (rt.tasks.map Task.run).map fun r =>
            if r.job.id = id then { r with token := r.token.cancel } else r := by
        rw [List.map_map, List.map_map]
        refine List.map_congr_left fun u _ => ?_
        by_cases hid : u.id = id
        · have hrid : u.run.job.id = id := hid
          simp [hid, hrid, Task.cancel]
        · have hrid : ¬ u.run.job.id = id := hid
          simp [hid, hrid]
      rw [if_pos hmem]
      simp only [Option.map_some, engine, htasks]
  | none =>
      rw [if_neg (find?_eq_none_iff.1 hf)]
      rfl

/-- Waiting for a job that finds room is the same for the engine. -/
theorem wait_engine (h : rt.Sound) (hc : rt.Claimable fun _ => False)
    (hsteps : rt.NeverWaits (rt.callSteps (.wait id))) :
    (rt.wait id).1.engine = (rt.engine.wait id).1 ∧
      (rt.wait id).2 = some (rt.engine.wait id).2 := by
  by_cases hmem : id ∈ rt.completions
  · rw [callSteps, if_pos hmem] at hsteps
    obtain ⟨-, record, -, -, hwait⟩ := h.wait_eq hmem (hsteps.findsRoom id)
    rw [waitSteps, neverWaits_append] at hsteps
    obtain ⟨hclaimed, hsettled⟩ := hsteps.1
    have hsettle : (rt.run (rt.claimSteps id)).engine = rt.engine.settle id := by
      rw [claimSteps, run_cons]
      refine ((h.claim id).engine_settleSteps hclaimed hsettled).trans ?_
      rw [Engine.settle, find?_engine, roundsToEnd]
      cases rt.find? id <;> rfl
    have hfind : (rt.engine.settle id).ended.find? (fun job => job.id = id) = some record := by
      have hanswer := congrArg Prod.snd hwait
      rw [Runtime.wait, if_pos hmem] at hanswer
      obtain ⟨job, hjob, hok⟩ := Option.map_eq_some_iff.1 hanswer
      rw [← hsettle, ← Except.ok.inj hok]
      exact hjob
    rw [hwait, Engine.wait]
    refine ⟨?_, ?_⟩
    · rw [collect_engine (rt.not_mem_completions_claimSteps id), hsettle]
    · rw [Engine.collect, hfind]
  · have hids : id ∉ rt.engine.ids := fun hid => by
      have hid' : id ∈ rt.taskIds ++ rt.results.map Job.id := by
        rw [Engine.ids, engine, List.map_map] at hid
        exact hid
      exact (hc id hid').elim hmem False.elim
    rw [Runtime.wait, if_neg hmem, Engine.wait_of_not_mem_ids hids]
    exact ⟨rfl, rfl⟩

/-- As long as no task waits for room, and nobody for a job, an operation has the same effect on
the engine of a runtime, and is answered in the same way. -/
theorem apply_engine (h : rt.Sound) (hready : rt.AllReady) (hc : rt.Claimable fun _ => False)
    {operation : Operation} (hsteps : rt.NeverWaits (rt.callSteps operation)) :
    (rt.apply operation).1.engine = (rt.engine.apply operation).1 ∧
      (rt.apply operation).2 = some (rt.engine.apply operation).2 := by
  cases operation with
  | submit text user script follows =>
      simp only [apply, Engine.apply, submit_engine]
      exact ⟨rfl, rfl⟩
  | submitSaved saved user =>
      simp only [apply, Engine.apply, submitSaved, Engine.submitSaved]
      cases rt.engine.savedScript saved user with
      | ok script =>
          simp only [submit_engine]
          exact ⟨trivial, trivial⟩
      | error e => exact ⟨rfl, rfl⟩
  | status id =>
      simp only [apply, Engine.apply, h.status_engine]
      exact ⟨trivial, trivial⟩
  | list =>
      have hjobs : rt.engine.jobs = rt.list := by
        rw [h.list_eq]
        exact List.map_map
      simp only [apply, Engine.apply, hjobs]
      exact ⟨trivial, trivial⟩
  | wait id =>
      obtain ⟨hengine, hanswer⟩ := h.wait_engine hc hsteps
      simp only [apply, Engine.apply, hengine, hanswer]
      exact ⟨trivial, rfl⟩
  | cancel id =>
      simp only [apply, Engine.apply, h.cancel_engine]
      exact ⟨trivial, trivial⟩
  | round => exact ⟨h.engine_round hready hsteps, rfl⟩
  | save script =>
      cases hadd : rt.library.add script <;>
        simp only [apply, Engine.apply, engine, hadd, and_self]
  | resave script =>
      cases hupdate : rt.library.update script rt.clock <;>
        simp only [apply, Engine.apply, engine, hupdate, and_self]
  | unsave saved =>
      cases hdelete : rt.library.delete saved <;>
        simp only [apply, Engine.apply, engine, hdelete, and_self]
  | _ => exact ⟨rfl, rfl⟩

/-- An act leaves nobody waiting if no task waits for room. -/
theorem claimable_act (h : rt.Sound) (hc : rt.Claimable fun _ => False) {a : Act}
    (hsteps : rt.NeverWaits (rt.actSteps a)) : (rt.act a).1.Claimable fun _ => False := by
  rw [← run_actSteps]
  cases a with
  | receive => exact hc.step h (s := .receive) fun _ => Step.noConfusion
  | call operation =>
      rw [actSteps] at hsteps ⊢
      rcases rt.callSteps_cases operation with ⟨text, user, script, follows, hcall, -⟩ |
        ⟨id, -, hcall⟩ | ⟨-, hothers⟩
      · rw [hcall]
        exact hc.step h (s := .submit text user script follows) fun _ => Step.noConfusion
      · rw [hcall] at hsteps ⊢
        exact hc.waitSteps h (hsteps.findsRoom id)
      · exact hc.run h fun s hs => (hothers s hs).1

theorem after_engine (h : rt.Sound) (hready : rt.AllReady) (hc : rt.Claimable fun _ => False)
    {history : List Act} (hsteps : rt.NeverWaits (rt.trace history)) :
    (rt.after history).engine = rt.engine.after (calls history) ∧
      rt.answers history = (rt.engine.answers (calls history)).map some := by
  induction history generalizing rt with
  | nil => exact ⟨rfl, rfl⟩
  | cons a rest ih =>
      rw [trace, neverWaits_append, run_actSteps] at hsteps
      obtain ⟨hnow, hlater⟩ := hsteps
      have hnext : (rt.act a).1.Sound := rt.run_actSteps a ▸ h.run _
      have hnextReady : (rt.act a).1.AllReady := rt.run_actSteps a ▸ hready.run hnow
      obtain ⟨hafter, hanswers⟩ := ih hnext hnextReady (h.claimable_act hc hnow) hlater
      cases a with
      | call operation =>
          obtain ⟨hengine, hreply⟩ := h.apply_engine hready hc hnow
          have hact : (rt.act (.call operation)).1 = (rt.apply operation).1 := rfl
          rw [hact, hengine] at hafter hanswers
          refine ⟨hafter, ?_⟩
          rw [answers, hreply, hanswers]
          rfl
      | receive =>
          have hact : (rt.act .receive).1 = rt.receive := rfl
          rw [hact, rt.engine_receive] at hafter hanswers
          exact ⟨hafter, hanswers⟩

end Sound

/-- As long as no task has to wait for room, a runtime does what an engine does, and every call is
answered. -/
theorem after_create_engine (step : Float) (sink : Sink) (usesLibrary : Bool)
    (history : List Act) :
    let start := create step sink usesLibrary
    let e := Engine.create step sink.publisher usesLibrary
    sink.queue = [] → start.NeverWaits (start.trace history) →
      (start.after history).engine = e.after (calls history) ∧
        start.answers history = (e.answers (calls history)).map some := by
  intro start e hqueue hsteps
  have hengine : start.engine = e := by
    simp only [start, e, engine, create, Engine.create, hqueue]
    rfl
  rw [← hengine]
  exact (Sound.of_create step sink usesLibrary).after_engine (fun t ht => by cases ht)
    (fun id hid => by cases hid) hsteps

end Runtime

end FlightScript
