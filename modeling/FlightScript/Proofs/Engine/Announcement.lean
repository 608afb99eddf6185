import FlightScript.Proofs.Engine.Rejection

/-!
# What is published of a job

A receiver gets the events of a job in the rounds that begin and end it. Nothing is
published of a job that is queued or was rejected; of a running job it is the start; of
a job that has ended it is the start and the event that `j.Announces` ties to the final
record, and a job that was cancelled has no such event. The events of the other jobs of
a round have other names (`published_round_of_mem`), so that nothing is added later.
-/

namespace FlightScript

/-- The events of a job, according to its final record. -/
inductive Job.Announces (j : Job) : List Event → Prop where
  | cancelled (hstatus : j.status = .cancelled) : Announces j [.started j.id j.script]
  | completed (hstatus : j.status = .completed) :
      Announces j [.started j.id j.script, .completed j.id true j.elapsed]
  | failed {d : Diagnostic} {front : List String} (hstatus : j.status = .failed)
      (herrors : j.errors = [d]) (hline : d.line = j.line)
      (hlog : j.log = front ++ ["Error: " ++ d.message]) :
      Announces j [.started j.id j.script, .failed j.id d.message j.line]

theorem Job.Announces.unique {j : Job} {events events' : List Event} (h : j.Announces events)
    (h' : j.Announces events') : events = events' := by
  cases h with
  | cancelled hs =>
      cases h' with
      | cancelled => rfl
      | completed hs' => cases hs.symm.trans hs'
      | failed hs' => cases hs.symm.trans hs'
  | completed hs =>
      cases h' with
      | cancelled hs' => cases hs.symm.trans hs'
      | completed => rfl
      | failed hs' => cases hs.symm.trans hs'
  | failed hs herrors =>
      cases h' with
      | cancelled hs' => cases hs.symm.trans hs'
      | completed hs' => cases hs.symm.trans hs'
      | failed hs' herrors' =>
          cases herrors.symm.trans herrors'
          rfl

namespace Run

variable {r : Run} {step : Float} {statements done : List Statement}

theorem begin_snd_of_queued (hr : r.job.status = .queued) (now : Int) :
    (r.begin now).2 = [.started r.job.id r.job.script] := by
  rw [begin, if_pos hr]

theorem begin_snd_of_running (hr : r.job.status = .running) (now : Int) :
    (r.begin now).2 = [] := by
  rw [begin, if_neg (by rw [hr]; decide)]

theorem Closes.origin_eq {x : Run} {cancelled : Bool} {ending : Ending}
    (h : r.Closes step cancelled x ending) : x.job.origin = r.job.origin := by
  cases h <;> rfl

/-- All events of a turn are about the job that had it. -/
theorem job_of_mem_turn {now : Int} {cancelled : Bool} {event : Event}
    (h : event ∈ (r.turn step now cancelled).2) : event.job = r.job.id := by
  have hbegin : ∀ event ∈ (r.begin now).2, event.job = r.job.id := by
    by_cases hq : r.job.status = .queued
    · rw [begin_snd_of_queued hq]
      simp [Event.job]
    · rw [begin, if_neg hq]
      simp
  rcases r.turn_cases step now cancelled with ⟨r', hgo⟩ | ⟨x, ending, hcloses, hend⟩
  · rw [hgo] at h
    exact hbegin event h
  · have hid : (x.finish now ending).1.id = r.job.id :=
      congrArg Prod.fst (((x.origin_finish now ending).trans hcloses.origin_eq).trans
        (r.origin_begin now))
    rw [hend] at h
    rcases List.mem_append.1 h with hstart | hevent
    · exact hbegin event hstart
    · rw [← hid]
      cases ending with
      | cancelled => exact absurd hevent List.not_mem_nil
      | completed =>
          rw [List.mem_singleton.1 hevent]
          rfl
      | failed e =>
          rw [List.mem_singleton.1 hevent]
          rfl

/-- The start of a job and the event of its end are what its final record says. -/
theorem Reaches.announces_finish (h : r.Reaches step statements done)
    (hr : r.job.status = .running) {x : Run} {cancelled : Bool} {ending : Ending}
    (hcloses : r.Closes step cancelled x ending) (now : Int) :
    (x.finish now ending).1.Announces
      (.started (x.finish now ending).1.id (x.finish now ending).1.script ::
        ending.events (x.finish now ending).1) := by
  have hstatus := status_finish (hcloses.status_eq.trans hr) now ending
  cases hcloses with
  | completed hp => exact .completed hstatus
  | cancelled hp => exact .cancelled hstatus
  | @failed s rest b e hp hs =>
      let faulty : Run := { (r.attend s).fault s e with bindings := b }
      have hrunning : faulty.job.status = .running := hr
      have hsum := summary_finish_failed hrunning now e
      have herrors : (faulty.finish now (.failed e)).1.errors =
          [(Finding.failedCommand e.message).diagnostic s.line s.text] := by
        have hfound : (faulty.finish now (.failed e)).1.errors =
            r.job.errors ++ [(Finding.failedCommand e.message).diagnostic s.line s.text] :=
          congrArg Summary.errors hsum
        rw [hfound, h.errors_eq, List.nil_append]
      have hline : (faulty.finish now (.failed e)).1.line = s.line :=
        congrArg Summary.line hsum
      have hlog := congrArg Summary.log hsum
      exact .failed hstatus herrors hline.symm hlog

end Run

namespace Engine

def published (e : Engine) (id : JobId) : List Event :=
  e.received.filter fun event => event.job = id

variable {e : Engine} {id : JobId}

theorem filter_flatMap_eq_nil {α β κ : Type} [DecidableEq κ] {key : α → κ} {tag : β → κ}
    {f : α → List β} {l : List α} (hf : ∀ a ∈ l, ∀ b ∈ f a, tag b = key a) {k : κ}
    (hk : k ∉ l.map key) : (l.flatMap f).filter (fun b => tag b = k) = [] := by
  rw [List.filter_eq_nil_iff]
  intro b hb hbk
  obtain ⟨a, ha, hba⟩ := List.mem_flatMap.1 hb
  refine hk (List.mem_map.2 ⟨a, ha, ?_⟩)
  rw [← hf a ha b hba]
  exact of_decide_eq_true hbk

/-- Where all keys differ, a key picks what one element contributes. -/
theorem filter_flatMap_eq {α β κ : Type} [DecidableEq κ] {key : α → κ} {tag : β → κ}
    {f : α → List β} {l : List α} (hf : ∀ a ∈ l, ∀ b ∈ f a, tag b = key a)
    (h : (l.map key).Nodup) {a : α} (ha : a ∈ l) :
    (l.flatMap f).filter (fun b => tag b = key a) = f a := by
  have hself : (f a).filter (fun b => tag b = key a) = f a :=
    List.filter_eq_self.2 fun b hb => decide_eq_true (hf a ha b hb)
  obtain ⟨front, rest, rfl⟩ := List.append_of_mem ha
  rw [List.map_append, List.map_cons, List.nodup_middle, List.nodup_cons, List.mem_append,
    not_or] at h
  have hfront := filter_flatMap_eq_nil
    (fun c hc => hf c (List.mem_append_left _ hc)) h.1.1
  have hrest := filter_flatMap_eq_nil
    (fun c hc => hf c (List.mem_append_right _ (List.mem_cons_of_mem a hc))) h.1.2
  rw [List.flatMap_append, List.flatMap_cons, List.filter_append, List.filter_append, hfront,
    hself, hrest, List.nil_append, List.append_nil]

theorem publisher_run (e : Engine) (moves : List Move) :
    (e.run moves).publisher = e.publisher := by
  induction moves generalizing e with
  | nil => rfl
  | cons m rest ih => exact (ih (e.move m)).trans (e.defaultStep_publisher_move m).2

theorem received_move (e : Engine) {m : Move} (hm : m ≠ .round) :
    (e.move m).received = e.received := by
  cases m with
  | round => exact absurd rfl hm
  | submit text user script follows =>
      cases hv : (validate text).isValid with
      | false => rw [move, submit_of_not_valid hv]
      | true => rw [move, submit_of_valid hv]
  | cancel id => rw [move, cancel_fst]
  | collect id => rw [move, collect_fst]
  | environment signals library clock => rfl

theorem published_move (e : Engine) {m : Move} (hm : m ≠ .round) (id : JobId) :
    (e.move m).published id = e.published id := by
  rw [published, received_move e hm, published]

theorem published_round (hp : e.publisher = .channel) (id : JobId) :
    e.round.published id = e.published id ++
      (e.active.flatMap fun r => (e.turn r).2).filter fun event => event.job = id := by
  rw [published, round, hp, Publisher.deliver_channel, List.filter_append, List.flatMap_map]
  rfl

theorem published_round_of_mem (h : e.Numbered) (hp : e.publisher = .channel) {r : Run}
    (hr : r ∈ e.active) :
    e.round.published r.job.id = e.published r.job.id ++ (e.turn r).2 := by
  rw [published_round hp]
  congr 1
  exact filter_flatMap_eq (fun _ _ _ hevent => Run.job_of_mem_turn hevent)
    (List.nodup_append'.1 h.nodup).1 hr

theorem published_round_of_not_mem (hp : e.publisher = .channel)
    (hid : id ∉ e.active.map fun r => r.job.id) :
    e.round.published id = e.published id := by
  rw [published_round hp]
  have hnone : (e.active.flatMap fun r => (e.turn r).2).filter (fun event => event.job = id) =
      [] := filter_flatMap_eq_nil (fun _ _ _ hevent => Run.job_of_mem_turn hevent) hid
  rw [hnone, List.append_nil]

/-- What was published of the jobs that some moves queue, of those that have ended and of
all others. -/
structure PublishedAfter (start : Engine) (moves : List Move) : Prop where
  of_active : ∀ r ∈ (start.run moves).active,
    (r.job.status = .queued ∧ (start.run moves).published r.job.id = []) ∨
      (r.job.status = .running ∧
        (start.run moves).published r.job.id = [.started r.job.id r.job.script])
  of_final : ∀ j ∈ along finals start moves, j.Announces ((start.run moves).published j.id)
  of_other : ∀ id ∉ along queues start moves, (start.run moves).published id = []

/-- Once the start of a job is published, its turn adds nothing, or the event of its
end. -/
theorem Consistent.published_turn (h : e.Consistent) {r : Run} (hr : r ∈ e.active)
    (hpublished : (r.job.status = .queued ∧ e.published r.job.id = []) ∨
      (r.job.status = .running ∧ e.published r.job.id = [.started r.job.id r.job.script])) :
    (∃ r', (e.turn r).1 = .running r' ∧ r'.job.id = r.job.id ∧
      e.published r.job.id ++ (e.turn r).2 = [.started r'.job.id r'.job.script]) ∨
    ∃ j, (e.turn r).1 = .ended j ∧ j.id = r.job.id ∧
      j.Announces (e.published r.job.id ++ (e.turn r).2) := by
  obtain ⟨statements, done, hreach⟩ := h.exists_reaches r hr
  obtain ⟨hbegun, hrunning⟩ := hreach.begin e.clock
  have hstarted : e.published r.job.id ++ (r.begin e.clock).2 =
      [.started r.job.id r.job.script] := by
    rcases hpublished with ⟨hqueued, hnone⟩ | ⟨hrun, hstart⟩
    · rw [hnone, Run.begin_snd_of_queued hqueued, List.nil_append]
    · rw [hstart, Run.begin_snd_of_running hrun, List.append_nil]
  have horigin := e.origin_turn r
  rcases r.turn_cases e.defaultStep e.clock (e.isCancelled r) with
    ⟨r', hgo⟩ | ⟨x, ending, hcloses, hend⟩
  · rw [turn, hgo] at horigin ⊢
    have hid : r'.job.id = r.job.id := congrArg Prod.fst horigin
    have hscript : r'.job.script = r.job.script := congrArg (fun o => o.2.1) horigin
    exact Or.inl ⟨r', rfl, hid, by rw [hstarted, hid, hscript]⟩
  · rw [turn, hend] at horigin ⊢
    have hid : (x.finish e.clock ending).1.id = r.job.id := congrArg Prod.fst horigin
    have hscript : (x.finish e.clock ending).1.script = r.job.script :=
      congrArg (fun o => o.2.1) horigin
    refine Or.inr ⟨_, rfl, hid, ?_⟩
    rw [← List.append_assoc, hstarted, ← hid, ← hscript]
    exact hbegun.announces_finish hrunning hcloses e.clock

namespace PublishedAfter

variable {start : Engine} {moves : List Move}

theorem nil (hnone : start.active = []) (hreceived : start.received = []) :
    start.PublishedAfter [] where
  of_active := by
    intro r hr
    rw [run_nil, hnone] at hr
    cases hr
  of_final := fun j hj => absurd hj List.not_mem_nil
  of_other := by
    intro id _
    rw [run_nil, published, hreceived, List.filter_nil]

theorem round (h : start.PublishedAfter moves) (hstart : start.Consistent)
    (hp : start.publisher = .channel) (hnone : start.active = []) :
    start.PublishedAfter (moves ++ [.round]) := by
  have he := hstart.run moves
  have hpublisher : (start.run moves).publisher = .channel := (start.publisher_run moves).trans hp
  have hrun : start.run (moves ++ [.round]) = (start.run moves).round := run_append _ _ _
  refine ⟨?_, ?_, ?_⟩
  · intro r' hr'
    rw [hrun] at hr' ⊢
    obtain ⟨r, hr, hturn⟩ := exists_of_mem_active_round hr'
    rcases he.published_turn hr (h.of_active r hr) with ⟨r'', hgo, hid, hevents⟩ | ⟨j, hend, -⟩
    · obtain rfl := Progress.running.inj (hturn.symm.trans hgo)
      refine Or.inr ⟨(he.status_of_turn hr hturn).1, ?_⟩
      have hround := published_round_of_mem he.numbered hpublisher hr
      exact (congrArg (start.run moves).round.published hid).trans (hround.trans hevents)
    · rw [hturn] at hend
      cases hend
  · intro j hj
    rw [hrun]
    rw [along_append, List.mem_append] at hj
    rcases hj with hold | hnew
    · have hout : j.id ∉ (start.run moves).active.map fun r => r.job.id := fun hid =>
        ((mem_active_run_iff hnone).1 hid).2 (List.mem_map_of_mem hold)
      rw [published_round_of_not_mem hpublisher hout]
      exact h.of_final j hold
    · rw [along, along, List.append_nil] at hnew
      obtain ⟨r, hr, hturn⟩ := mem_finals_round.1 hnew
      rcases he.published_turn hr (h.of_active r hr) with ⟨r', hgo, -⟩ | ⟨j', hend, hid, hevents⟩
      · rw [hturn] at hgo
        cases hgo
      · obtain rfl := Progress.ended.inj (hturn.symm.trans hend)
        rw [hid, published_round_of_mem he.numbered hpublisher hr]
        exact hevents
  · intro id hid
    rw [along_append, List.mem_append, not_or] at hid
    have hout : id ∉ (start.run moves).active.map fun r => r.job.id := fun hactive =>
      hid.1 ((mem_active_run_iff hnone).1 hactive).1
    rw [hrun, published_round_of_not_mem hpublisher hout]
    exact h.of_other id hid.1

theorem append_of_ne_round (h : start.PublishedAfter moves) {m : Move} (hm : m ≠ .round) :
    start.PublishedAfter (moves ++ [m]) := by
  have hrun : start.run (moves ++ [m]) = (start.run moves).move m := run_append _ _ _
  refine ⟨?_, ?_, ?_⟩
  · intro r' hr'
    rw [hrun] at hr' ⊢
    rw [published_move _ hm]
    rcases mem_active_move hr' with
      ⟨hround, -⟩ | ⟨text, user, script, follows, rfl, rfl⟩ | ⟨-, r, hr, t, rfl⟩
    · exact absurd hround hm
    · -- the new job has a name that was not given before
      have hnew : JobId.numbered (start.run moves).created ∉ along queues start moves :=
        fun hqueued => (start.run moves).not_hasGiven_numbered (hasGiven_of_mem_queues hqueued)
      exact Or.inl ⟨rfl, h.of_other _ hnew⟩
    · exact h.of_active r hr
  · intro j hj
    rw [along_append, along, along, List.append_nil, finals_of_ne_round _ hm,
      List.append_nil] at hj
    rw [hrun, published_move _ hm]
    exact h.of_final j hj
  · intro id hid
    rw [along_append, List.mem_append, not_or] at hid
    rw [hrun, published_move _ hm]
    exact h.of_other id hid.1

theorem of_moves (hstart : start.Consistent) (hp : start.publisher = .channel)
    (hnone : start.active = []) (hreceived : start.received = []) (moves : List Move) :
    start.PublishedAfter moves := by
  induction moves using List.reverseRecOn with
  | nil => exact nil hnone hreceived
  | append_singleton moves m ih =>
      by_cases hm : m = .round
      · subst hm
        exact ih.round hstart hp hnone
      · exact ih.append_of_ne_round hm

end PublishedAfter

theorem publishedAfter_trace (step : Float) (usesLibrary : Bool) (history : List Operation) :
    (create step .channel usesLibrary).PublishedAfter
      ((create step .channel usesLibrary).trace history) :=
  PublishedAfter.of_moves (Consistent.of_create step .channel usesLibrary) rfl rfl rfl _

/-- Nothing is published of a queued job or of the job of a rejected script, the start of
a running one, and the start and the end of one that has ended, with no event after
them. -/
theorem published_after (step : Float) (usesLibrary : Bool) (history : List Operation) :
    let start := create step .channel usesLibrary
    let e := start.after history
    (∀ job ∈ e.jobs,
      (job.status = .queued ∧ e.published job.id = []) ∨
      (job.status = .running ∧ e.published job.id = [.started job.id job.script])) ∧
    (∀ job ∈ start.finished history, job.Announces (e.published job.id) ∧
      ∀ later, (start.after (history ++ later)).published job.id = e.published job.id) ∧
    (∀ id job, (e.wait id).2 = .ok job →
      job.id = id ∧ job.Announces ((e.wait id).1.published id)) ∧
    (∀ before operation rest rejected, history = before ++ operation :: rest →
      ((start.after before).apply operation).2 = .failed (.validationFailed rejected) →
      e.published rejected.id = []) ∧
    ∀ id, ¬ start.HasStarted history id → e.published id = [] := by
  have hafter := publishedAfter_trace step usesLibrary
  have hother : ∀ id, ¬ (create step .channel usesLibrary).HasStarted history id →
      ((create step .channel usesLibrary).after history).published id = [] := by
    intro id hid
    rw [← run_trace]
    exact (hafter history).of_other id (fun hqueued => hid (mem_queues_trace_iff.1 hqueued))
  have hfinal : ∀ history, ∀ job ∈ (create step .channel usesLibrary).finished history,
      job.Announces (((create step .channel usesLibrary).after history).published job.id) := by
    intro history job hjob
    rw [← run_trace]
    exact (hafter history).of_final job hjob
  refine ⟨?_, fun job hjob => ⟨hfinal history job hjob, fun later => ?_⟩, ?_, ?_, hother⟩
  · intro job hjob
    obtain ⟨r, hr, rfl⟩ := List.mem_map.1 hjob
    rw [← run_trace] at hr ⊢
    exact (hafter history).of_active r hr
  · refine (hfinal (history ++ later) job ?_).unique (hfinal history job hjob)
    rw [finished, trace_append, along_append]
    exact List.mem_append_left _ hjob
  · intro id job hjob
    obtain ⟨rfl, hmem⟩ := mem_finished_of_wait rfl hjob
    refine ⟨rfl, ?_⟩
    have hend := hfinal (history ++ [.wait job.id]) job hmem
    rw [after_append] at hend
    exact hend
  · rintro before operation rest rejected rfl hrejected
    exact hother rejected.id (not_hasStarted_of_rejected hrejected)

/-- What is published of a job that fails, of the job of a rejected script and of one that
still waits. -/
theorem published_after_failure :
    let start := create 60 .channel false
    let history : List Operation := [.submit "Create Spacecraft Sat\nSat.X = far" "ann" none none,
      .submit "Sat.X = 1" "bob" none none, .round, .round, .submit "k = 3" "eve" none none]
    let e := start.after history
    (∃ job ∈ start.finished history, job.id = .numbered 0 ∧ job.status = .failed ∧
      job.Announces (e.published (.numbered 0))) ∧
    e.published (.numbered 1) = [] ∧ e.published (.numbered 2) = [] := by
  intro start history e
  obtain ⟨hactive, hfinal, -, hrejected, -⟩ := published_after 60 false history
  have hfinished : ∃ job ∈ start.finished history, job.id = .numbered 0 ∧ job.status = .failed := by
    decide +kernel
  have hwaiting : ∃ job ∈ e.jobs, job.id = .numbered 2 ∧ job.status = .queued := by
    decide +kernel
  refine ⟨?_, ?_, ?_⟩
  · obtain ⟨job, hjob, hid, hstatus⟩ := hfinished
    exact ⟨job, hjob, hid, hstatus, hid ▸ (hfinal job hjob).1⟩
  · let rejected : Job :=
      { Job.create (.numbered 1) "bob" none with
        status := .failed
        errors := [⟨1, 1, "Object or variable 'Sat' is not declared", "SE002", .error⟩]
        completedAt := some 0 }
    exact hrejected [.submit "Create Spacecraft Sat\nSat.X = far" "ann" none none]
      (.submit "Sat.X = 1" "bob" none none) [.round, .round, .submit "k = 3" "eve" none none]
      rejected rfl (by decide +kernel)
  · obtain ⟨job, hjob, hid, hstatus⟩ := hwaiting
    rcases hactive job hjob with ⟨-, hnone⟩ | ⟨hrunning, -⟩
    · exact hid ▸ hnone
    · cases hstatus.symm.trans hrunning

end Engine

end FlightScript
