import FlightScript.Proofs.Engine.Rejection
import FlightScript.Proofs.Runtime.Rounds
import FlightScript.Proofs.Runtime.Snapshot

/-!
# Final records are delivered once

The final record of a job is made in a turn, and kept from when its task returns it until somebody
waits for the job. Whoever is the first one to wait for it claims it (`mem_completions_step_iff`),
and gets it, once the job has found room for its events. Nobody else can claim the record of the
job, or take it away before (`mem_results_run`), and waiting for a record that cannot be claimed
changes nothing (`apply_wait_of_not_mem`).
-/

namespace FlightScript

theorem Run.exists_closes_of_turn {r : Run} {step : Float} {now : Int} {cancelled : Bool} {j : Job}
    (h : (r.turn step now cancelled).1 = .ended j) :
    ∃ x ending, (r.begin now).1.Closes step cancelled x ending ∧ j = (x.finish now ending).1 := by
  rcases r.turn_cases step now cancelled with ⟨r', hgo⟩ | ⟨x, ending, hcloses, hend⟩
  · rw [hgo] at h
    cases h
  · rw [hend] at h
    exact ⟨x, ending, hcloses, (Progress.ended.inj h).symm⟩

namespace Runtime

def started? (rt : Runtime) : Operation → Option Job
  | .submit text user script follows =>
    (rt.submit text user script (follows.bind rt.signals.find?)).2.toOption
  | .submitSaved id user => (rt.submitSaved id user).2.toOption
  | _ => none

/-- A call of a history submits the job of a name. -/
def Submitted (rt : Runtime) (history : List Act) (id : JobId) : Prop :=
  ∃ before submission rest queued, history = before ++ .call submission :: rest ∧
    (rt.after before).started? submission = some queued ∧ queued.id = id

/-- The record is what a turn of its job makes of it that ends here. -/
def MakesFinal (rt : Runtime) (record : Job) : Prop :=
  ∃ t ∈ rt.find? record.id, ∃ x ending,
    (t.run.begin rt.clock).1.Closes rt.defaultStep (t.run.token.isCancelled rt.signals) x ending ∧
      record = (x.finish rt.clock ending).1

/-- The record is made by a poll of its job among some steps. -/
def MadeIn (rt : Runtime) (steps : List Step) (record : Job) : Prop :=
  ∃ front rest, steps = front ++ .poll record.id :: rest ∧ (rt.run front).MakesFinal record

variable {rt : Runtime} {id : JobId} {t : Task} {j : Job} {steps : List Step}

/-! ### Who can claim a record -/

theorem mem_completions_step_iff {s : Step} :
    id ∈ (rt.step s).completions ↔ (id ∈ rt.completions ∧ s ≠ .claim id) ∨
      ∃ text user script follows, s = .submit text user script follows ∧
        (rt.submit text user script follows).2 = .ok (Job.create id user script) := by
  cases s with
  | submit text user script follows =>
      have hiff : (∃ text' user' script' follows',
          Step.submit text user script follows = .submit text' user' script' follows' ∧
            (rt.submit text' user' script' follows').2 = .ok (Job.create id user' script')) ↔
          (rt.submit text user script follows).2 = .ok (Job.create id user script) := by
        constructor
        · rintro ⟨_, _, _, _, hs, hsubmit⟩
          cases hs
          exact hsubmit
        · exact fun hsubmit => ⟨_, _, _, _, rfl, hsubmit⟩
      rw [hiff, step]
      cases hv : (validate text).isValid with
      | false =>
          have hnot : (rt.submit text user script follows).2 ≠ .ok (Job.create id user script) :=
            fun hsubmit => by simpa [hv] using (validate_of_submit hsubmit).1
          rw [submit_of_not_valid hv]
          simp [hnot]
      | true =>
          rw [submit_of_valid hv]
          simp [register, Run.create, Job.create, eq_comm]
  | poll other =>
      have hsame : (rt.poll other).completions = rt.completions :=
        (congrArg completions (rt.poll_frame other) :)
      simp [step, hsame]
  | cancel other =>
      by_cases h : other ∈ rt.cancellations <;> simp [step, cancel, h]
  | claim other =>
      simp only [step, claim, List.mem_filter, decide_eq_true_eq, ne_eq, Step.claim.injEq,
        reduceCtorEq, false_and, exists_false, or_false, eq_comm (a := id)]
  | collect other =>
      by_cases h : other ∈ rt.completions <;> simp [step, collect, h]
  | receive => simp [step, receive]
  | environment signals library clock => simp [step]

/-- An operation submits a job, or it waits for one, or it submits and claims nothing. -/
theorem callSteps_cases (rt : Runtime) (operation : Operation) :
    (∃ text user script follows, rt.callSteps operation = [.submit text user script follows] ∧
        rt.started? operation = (rt.submit text user script follows).2.toOption) ∨
      (∃ id, operation = .wait id ∧ rt.callSteps operation = rt.waitSteps id) ∨
      (rt.started? operation = none ∧ ∀ s ∈ rt.callSteps operation, (∀ id, s ≠ .claim id) ∧
        ∀ text user script follows, s ≠ .submit text user script follows) := by
  cases operation with
  | submit text user script follows => exact Or.inl ⟨_, _, _, _, rfl, rfl⟩
  | submitSaved saved user =>
      cases hs : rt.engine.savedScript saved user with
      | ok s =>
          refine Or.inl ⟨s.content, user, some s.id, none, ?_, ?_⟩
          · simp only [callSteps, hs]
          · simp only [started?, submitSaved, hs]
      | error e =>
          refine Or.inr (Or.inr ⟨?_, by simp [callSteps, hs]⟩)
          simp [started?, submitSaved, hs, Except.toOption]
  | wait id =>
      by_cases hc : id ∈ rt.completions
      · exact Or.inr (Or.inl ⟨id, rfl, by simp only [callSteps, if_pos hc]⟩)
      · exact Or.inr (Or.inr ⟨rfl, by simp [callSteps, hc]⟩)
  | round => exact Or.inr (Or.inr ⟨rfl, by simp [callSteps, roundSteps]⟩)
  | _ => exact Or.inr (Or.inr ⟨rfl, by simp [callSteps]⟩)

theorem mem_waitSteps_cases {s : Step} (h : s ∈ rt.waitSteps id) :
    s = .claim id ∨ (∃ other, s = .poll other) ∨ s = .collect id := by
  rw [waitSteps, claimSteps, List.cons_append, List.mem_cons, List.mem_append,
    List.mem_singleton] at h
  exact h.imp_right fun h => h.imp_left exists_poll_of_mem_settleSteps

/-- A job that a history submits is started by a step of it. -/
theorem exists_starts_of_started? {before : List Act} {submission : Operation} {queued : Job}
    (h : (rt.after before).started? submission = some queued) (between : List Act) :
    ∃ text user script next,
      rt.Starts (rt.trace (before ++ .call submission :: between)) queued.id text user script next
        (next.trace between) ∧ queued = .create queued.id user script ∧
      rt.after (before ++ .call submission :: between) = next.after between := by
  have hok : ∀ answer : Except EngineError Job, answer.toOption = some queued →
      answer = .ok queued := by
    rintro (e | job) hanswer
    · cases hanswer
    · rw [Option.some.inj hanswer]
  rcases (rt.after before).callSteps_cases submission with
    ⟨text, user, script, follows, hsteps, hstarted⟩ | ⟨other, rfl, -⟩ | ⟨hnone, -⟩
  · have hsubmit := hok _ (hstarted.symm.trans h)
    have hqueued := (validate_of_submit hsubmit).2
    have hid : queued = .create queued.id user script := by
      rw [hqueued]
      rfl
    have hnext : ((rt.after before).act (.call submission)).1 =
        ((rt.after before).submit text user script follows).1 := by
      rw [← run_actSteps, actSteps, hsteps]
      rfl
    refine ⟨text, user, script, ((rt.after before).act (.call submission)).1,
      ⟨rt.trace before, follows, ?_, ?_⟩, hid, ?_⟩
    · rw [trace_append, trace, actSteps, hsteps]
      rfl
    · rw [run_trace, hnext, ← hid]
      exact Prod.ext rfl hsubmit
    · rw [after_append, after_cons]
  · cases h
  · cases hnone.symm.trans h

theorem Submitted.hasGiven {history : List Act} (h : rt.Submitted history id) (hrt : rt.Sound) :
    (rt.after history).HasGiven id := by
  obtain ⟨before, submission, between, queued, rfl, hs, rfl⟩ := h
  obtain ⟨text, user, script, next, hstarts, -, hnext⟩ :=
    exists_starts_of_started? hs between
  obtain ⟨hsound, -, ⟨follows, hf⟩, -⟩ := hstarts.of_sound hrt
  rw [hnext, ← run_trace]
  exact (hsound.hasGiven_of_find? hf).run _

theorem Submitted.append {history : List Act} (h : rt.Submitted history id) (later : List Act) :
    rt.Submitted (history ++ later) id := by
  obtain ⟨before, submission, rest, queued, rfl, hs, hid⟩ := h
  exact ⟨before, submission, rest ++ later, queued, by simp, hs, hid⟩

/-- A record can be claimed that could not before if its job is submitted. -/
theorem mem_completions_of_run (h : id ∈ (rt.run steps).completions)
    (hsteps : ∀ s ∈ steps, ∀ text user script follows, s ≠ .submit text user script follows) :
    id ∈ rt.completions := by
  induction steps generalizing rt with
  | nil => exact h
  | cons s rest ih =>
      have hrest := ih h fun s hs => hsteps s (List.mem_cons_of_mem _ hs)
      rcases mem_completions_step_iff.1 hrest with ⟨hold, -⟩ | ⟨_, _, _, _, hs, -⟩
      · exact hold
      · exact absurd hs (hsteps s List.mem_cons_self _ _ _ _)

theorem MadeIn.append (h : rt.MadeIn steps j) (later : List Step) :
    rt.MadeIn (steps ++ later) j := by
  obtain ⟨front, rest, rfl, hmakes⟩ := h
  exact ⟨front, rest ++ later, by simp, hmakes⟩

theorem MadeIn.of_run {front : List Step} (h : (rt.run front).MadeIn steps j) :
    rt.MadeIn (front ++ steps) j := by
  obtain ⟨before, rest, rfl, hmakes⟩ := h
  rw [← run_append] at hmakes
  exact ⟨front ++ before, rest, by simp, hmakes⟩

namespace Sound

theorem makesFinal (h : rt.Sound) (hf : rt.find? id = some t) (hopen : ¬ t.IsClosing)
    (hp : (rt.pollTask t).1 = .ended j ∨
      ∃ t', (rt.pollTask t).1 = .pending t' ∧ t'.IsClosing ∧ t'.job = j) :
    rt.MakesFinal j ∧ j.id = id := by
  obtain ⟨x, ending, hcloses, hj⟩ :=
    Run.exists_closes_of_turn ((h.polls_of_eq hf rfl).turn_of_ended hopen hp)
  have hid : j.id = id := by
    have horigin := h.origin_pollTask hf
    have hjob : (rt.pollTask t).1.job = j := by
      rcases hp with hp | ⟨t', hp, -, rfl⟩ <;> rw [hp] <;> rfl
    rw [hjob] at horigin
    exact (congrArg Prod.fst horigin).trans (of_find?_eq_some hf).2
  exact ⟨⟨t, hid ▸ hf, x, ending, hcloses, hj⟩, hid⟩

/-- A record that is held back was made before. -/
theorem madeIn_of_isClosing (h : rt.Sound) (hf : rt.find? id = some t) (hopen : ¬ t.IsClosing)
    {t' : Task} (hf' : (rt.run steps).find? id = some t') (ht' : t'.IsClosing) :
    rt.MadeIn steps t'.job := by
  refine h.find?_run_induction hf (P := fun front t' => t'.IsClosing → rt.MadeIn front t'.job)
    (fun hclosing => absurd hclosing hopen) ?_ (fun front t₁ ih hclosing => ?_)
    (fun front s t₁ _ ih hclosing => (ih hclosing).append [s]) steps hf' ht'
  · intro front t₁ t₂ hf₁ ih hp hclosing
    by_cases hopen₁ : t₁.IsClosing
    · have hsame := ((h.run front).polls_of_eq hf₁ hp).job_of_isClosing hopen₁
      rw [show t₂.job = t₁.job from hsame]
      exact (ih hopen₁).append _
    · obtain ⟨hmakes, hid⟩ := (h.run front).makesFinal hf₁ hopen₁ (Or.inr ⟨t₂, hp, hclosing, rfl⟩)
      exact ⟨front, [], by rw [hid], hmakes⟩
  · exact (ih hclosing).append [_]

theorem madeIn_of_mem_returned (h : rt.Sound) (hf : rt.find? id = some t) (hopen : ¬ t.IsClosing)
    (hj : j ∈ rt.returned steps) (hid : j.id = id) : rt.MadeIn steps j := by
  obtain ⟨front, s, rest, rfl, hreturns⟩ := mem_returned_iff.1 hj
  have hfront := h.run front
  obtain ⟨rfl, t₁, hf₁, hended⟩ := hfront.mem_returns_iff.1 hreturns
  by_cases hopen₁ : t₁.IsClosing
  · have hsame := (hfront.polls_of_eq hf₁ hended).job_of_isClosing hopen₁
    rw [show j = t₁.job from hsame] at hid hf₁ ⊢
    rw [hid] at hf₁
    exact (h.madeIn_of_isClosing hf hopen hf₁ hopen₁).append _
  · exact ⟨front, rest, rfl, (hfront.makesFinal hf₁ hopen₁ (Or.inl hended)).1⟩

end Sound

/-! ### Waiting -/

section

variable {text user : String} {script : Option String} {next : Runtime} {since : List Step}

theorem Starts.madeIn (h : rt.Starts steps id text user script next since)
    (hmade : next.MadeIn since j) : rt.MadeIn steps j := by
  obtain ⟨before, follows, rfl, hsubmit⟩ := h
  have hnext : rt.run (before ++ [.submit text user script follows]) = next := by
    rw [run_append]
    exact congrArg Prod.fst hsubmit
  rw [← List.singleton_append, ← List.append_assoc]
  exact MadeIn.of_run (hnext ▸ hmade)

/-- The record that the task of a job returns is made in a turn, and the only one. -/
theorem Starts.final (h : rt.Starts steps id text user script next since) (hrt : rt.Sound)
    (hj : j ∈ rt.returned steps) (hid : j.id = id) :
    j.origin = (id, script, user) ∧ j.status.isFinal ∧ rt.MadeIn steps j ∧
      ∀ job ∈ rt.returned steps, job.id = id → job = j := by
  subst hid
  obtain ⟨hnext, -, ⟨follows, hf⟩, -, -, hiff⟩ := h.of_sound hrt
  have hreturned := (hiff j rfl).1 hj
  have hmade := hnext.madeIn_of_mem_returned hf (fun ⟨_, he⟩ => by cases he) hreturned rfl
  refine ⟨(h.endsAfter hrt hj).1, hrt.isFinal_of_mem_returned hj, h.madeIn hmade, ?_⟩
  rcases hnext.course hf since with ⟨-, hnone⟩ | ⟨-, record, -, -, hunique⟩
  · exact absurd rfl (hnone j hreturned)
  · intro job hjob hid
    rw [hunique job ((hiff job hid).1 hjob) hid, hunique j hreturned rfl]

end

end Runtime

end FlightScript
