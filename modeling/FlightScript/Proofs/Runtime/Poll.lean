import FlightScript.Runtime.Task
import FlightScript.Proofs.Engine.Surroundings
import FlightScript.Proofs.Run.Ending

/-!
# What a poll does

`t.Polls step now cancelled s (p, s')` lists what a poll can make of a task and of the sink
(`Task.polls`): the event of the start has to wait, or the run takes a turn, after which the
event of the end may have to wait, or the task that waited for that ends. If the task waits
neither before nor afterwards, a poll is a turn, and the sink takes the events of it
(`Task.Polls.eq_ofProgress`).
-/

namespace FlightScript

namespace Sink

/-- The sink after it took an event at most, without making anybody wait. -/
inductive Takes (s : Sink) : List Event → Sink → Prop where
  | nil : Takes s [] s
  | single {e : Event} {s' : Sink} {result : Except PublishError Unit}
      (h : s.publish e = (s', some result)) : Takes s [e] s'

variable {s s' : Sink} {e : Event} {es : List Event} {id : JobId}

theorem publisher_publish (s : Sink) (e : Event) : (s.publish e).1.publisher = s.publisher := by
  cases s with
  | channel c => by_cases h : c.hasRoom e.job <;> simp [publish, h, publisher]
  | closed => rfl
  | discard => rfl

@[simp] theorem publisher_receive (s : Sink) : s.receive.publisher = s.publisher := by
  cases s <;> rfl

@[simp] theorem queue_receive (s : Sink) : s.receive.queue = s.queue.tail := by
  cases s <;> rfl

@[simp] theorem waiting_receive (s : Sink) : s.receive.waiting = s.waiting := by
  cases s <;> rfl

/-- A job that has to wait stands in the line, and the others stay there. -/
theorem mem_waiting_publish (s : Sink) (e : Event) :
    ((s.publish e).2 = none → e.job ∈ (s.publish e).1.waiting) ∧
      ∀ id ≠ e.job, id ∈ s.waiting → id ∈ (s.publish e).1.waiting := by
  cases s with
  | channel c =>
      cases hroom : c.hasRoom e.job with
      | true =>
          refine ⟨fun h => by simp [publish, hroom] at h, fun id hid hmem => ?_⟩
          simpa [publish, hroom, waiting, Channel.send, List.mem_erase_of_ne hid] using hmem
      | false =>
          by_cases hmem : e.job ∈ c.waiting
          · simp [publish, hroom, waiting, Channel.await, hmem]
          · simp +contextual [publish, hroom, waiting, Channel.await, hmem]
  | closed => simp [publish, waiting]
  | discard => simp [publish, waiting]

theorem Takes.publisher_eq (h : s.Takes es s') : s'.publisher = s.publisher := by
  cases h with
  | nil => rfl
  | single h => rw [← s.publisher_publish, h]

theorem Takes.queue_eq (h : s.Takes es s') : s'.queue = s.queue ++ s.publisher.deliver es := by
  cases h with
  | nil => simp [Publisher.deliver]
  | @single e s' result h =>
      cases s with
      | channel c =>
          cases hroom : c.hasRoom e.job with
          | true =>
              obtain ⟨rfl, -⟩ : .channel (c.send e) = s' ∧ .ok () = result := by
                simpa [publish, hroom] using h
              simp [queue, Channel.send, publisher]
          | false => simp [publish, hroom] at h
      | closed =>
          obtain rfl : closed = s' := congrArg Prod.fst h
          rfl
      | discard =>
          obtain rfl : discard = s' := congrArg Prod.fst h
          rfl

theorem Takes.mem_waiting (h : s.Takes es s') (hes : ∀ e ∈ es, id ≠ e.job)
    (hid : id ∈ s.waiting) : id ∈ s'.waiting := by
  cases h with
  | nil => exact hid
  | @single e s' result h =>
      have hkept := (s.mem_waiting_publish e).2 id (hes e (List.mem_singleton_self e)) hid
      rwa [h] at hkept

end Sink

def Polled.job : Polled → Job
  | .pending t => t.job
  | .ended j => j

/-- What a poll makes of a task that need not wait. -/
def Polled.ofProgress : Progress → Polled
  | .running r => .pending ⟨r, .ready⟩
  | .ended j => .ended j

namespace Run

theorem begin_snd (r : Run) (now : Int) :
    ((r.begin now).2 = [] ∧ (r.begin now).1 = r) ∨
      (r.job.status = .queued ∧ (r.begin now).2 = [.started r.job.id r.job.script]) := by
  by_cases hq : r.job.status = .queued
  · exact Or.inr ⟨hq, by rw [begin, if_pos hq]⟩
  · exact Or.inl ⟨by rw [begin, if_neg hq], by rw [begin, if_neg hq]⟩

theorem executed_begin (r : Run) (now : Int) : (r.begin now).1.executed = r.executed := by
  by_cases hq : r.job.status = .queued
  · rw [begin, if_pos hq]
  · rw [begin, if_neg hq]

theorem begin_of_running {r : Run} (h : r.job.status = .running) (now : Int) :
    r.begin now = (r, []) := by
  rw [begin, if_neg (by rw [h]; decide)]

/-- The events of a run that is carried on: none as long as it goes on, and at its end at most
one, of its own job. -/
theorem proceed_snd (r : Run) (step : Float) (now : Int) (cancelled : Bool) :
    (∃ r', r.proceed step now cancelled = (.running r', [])) ∨
      ∃ j events, r.proceed step now cancelled = (.ended j, events) ∧
        (events = [] ∨ ∃ e, events = [e] ∧ e.job = r.job.id) := by
  rcases r.proceed_cases step now cancelled with hgo | ⟨x, ending, hcloses, hend⟩
  · exact Or.inl hgo
  · refine Or.inr ⟨(x.finish now ending).1, (x.finish now ending).2, hend, ?_⟩
    have hid : (x.finish now ending).1.id = r.job.id := by
      have horigin := congrArg Prod.fst (x.origin_finish now ending)
      cases hcloses <;> exact horigin
    rw [finish_snd]
    cases ending with
    | completed => exact Or.inr ⟨_, rfl, hid⟩
    | cancelled => exact Or.inl rfl
    | failed e => exact Or.inr ⟨_, rfl, hid⟩

end Run

namespace Task

/-- The record of the task is final, and the event of that waits. -/
def IsClosing (t : Task) : Prop :=
  ∃ e, t.phase = .closing e

/-- The event for which a task waits is one of its job: that of the start, if the job is
running, or that of the end. -/
def IsSound (t : Task) : Prop :=
  match t.phase with
  | .ready => True
  | .starting e => t.job.status = .running ∧ e = .started t.id t.job.script
  | .closing e => e.job = t.id

/-- What is published before a statement is executed. -/
def opening (t : Task) (now : Int) : List Event :=
  match t.phase with
  | .ready => (t.run.begin now).2
  | .starting e => [e]
  | .closing _ => []

inductive Polls (t : Task) (step : Float) (now : Int) (cancelled : Bool) (s : Sink) :
    Polled × Sink → Prop where
  /-- The event of the start has to wait. -/
  | starting (ht : ¬ t.IsClosing)
      (hwait : (s.publish (.started t.id t.job.script)).2 = none) :
      Polls t step now cancelled s
        (.pending ⟨(t.run.begin now).1, .starting (.started t.id t.job.script)⟩,
          (s.publish (.started t.id t.job.script)).1)
  | running {r : Run} {s' : Sink} (ht : ¬ t.IsClosing)
      (hturn : t.run.turn step now cancelled = (.running r, (t.run.begin now).2))
      (htakes : s.Takes (t.opening now) s') :
      Polls t step now cancelled s (.pending ⟨r, .ready⟩, s')
  /-- The job ends, and the event of that has to wait. -/
  | settled {j : Job} {e : Event} {s' : Sink} (ht : ¬ t.IsClosing)
      (hturn : t.run.turn step now cancelled = (.ended j, (t.run.begin now).2 ++ [e]))
      (he : e.job = t.id) (htakes : s.Takes (t.opening now) s')
      (hwait : (s'.publish e).2 = none) :
      Polls t step now cancelled s
        (.pending ⟨{ (t.run.begin now).1 with job := j }, .closing e⟩, (s'.publish e).1)
  | ended {j : Job} {events : List Event} {s' s'' : Sink} (ht : ¬ t.IsClosing)
      (hturn : t.run.turn step now cancelled = (.ended j, (t.run.begin now).2 ++ events))
      (hevents : ∀ e ∈ events, e.job = t.id) (htakes : s.Takes (t.opening now) s')
      (hclose : s'.Takes events s'') : Polls t step now cancelled s (.ended j, s'')
  /-- The event of the end still has to wait. -/
  | closing {e : Event} (hp : t.phase = .closing e) (hwait : (s.publish e).2 = none) :
      Polls t step now cancelled s (.pending t, (s.publish e).1)
  | returned {e : Event} {s' : Sink} (hp : t.phase = .closing e) (htakes : s.Takes [e] s') :
      Polls t step now cancelled s (.ended t.job, s')

variable {t : Task} {step : Float} {now : Int} {cancelled : Bool} {s : Sink}

/-- An event has to wait, or it is taken. -/
theorem publish_cases (s : Sink) (waiting : Event → Task) (next : Sink → Polled × Sink)
    {events : List Event} (hevents : events = [] ∨ ∃ e, events = [e]) :
    (∃ e, events = [e] ∧ (s.publish e).2 = none ∧
      publish s waiting next events = (.pending (waiting e), (s.publish e).1)) ∨
    ∃ s', s.Takes events s' ∧ publish s waiting next events = next s' := by
  rcases hevents with rfl | ⟨e, rfl⟩
  · exact Or.inr ⟨s, .nil, rfl⟩
  · rcases hp : s.publish e with ⟨s', _ | result⟩
    · exact Or.inl ⟨e, rfl, by rw [hp], by simp only [publish, hp]⟩
    · exact Or.inr ⟨s', .single hp, by simp only [publish, hp]⟩

/-- A run is carried on after the events of its start were taken. -/
theorem polls_proceed (ht : ¬ t.IsClosing) {s' : Sink} (htakes : s.Takes (t.opening now) s') :
    t.Polls step now cancelled s (proceed (t.run.begin now).1 step now cancelled s') := by
  have hid : (t.run.begin now).1.job.id = t.id := congrArg Prod.fst (t.run.origin_begin now)
  rcases (t.run.begin now).1.proceed_snd step now cancelled with
    ⟨r', hgo⟩ | ⟨j, events, hend, hevents⟩
  · have hproceed : proceed (t.run.begin now).1 step now cancelled s' =
        (.pending ⟨r', .ready⟩, s') := by
      simp only [proceed, hgo]
    rw [hproceed]
    refine .running ht ?_ htakes
    rw [Run.turn_eq, hgo, List.append_nil]
  · have hturn : t.run.turn step now cancelled = (.ended j, (t.run.begin now).2 ++ events) := by
      rw [Run.turn_eq, hend]
    have hclose : proceed (t.run.begin now).1 step now cancelled s' =
        close { (t.run.begin now).1 with job := j } events s' := by
      simp only [proceed, hend]
    rw [hclose, close]
    rw [hid] at hevents
    rcases publish_cases s' (fun e => ⟨{ (t.run.begin now).1 with job := j }, .closing e⟩)
        (fun s => (.ended j, s)) (hevents.imp_right fun ⟨e, he, _⟩ => ⟨e, he⟩) with
      ⟨e, rfl, hnone, hpublish⟩ | ⟨s'', hclosed, hpublish⟩
    · have he : e.job = t.id := by simpa using hevents
      rw [hpublish]
      exact .settled ht hturn he htakes hnone
    · have hjob : ∀ e ∈ events, e.job = t.id := by
        rcases hevents with rfl | ⟨e, rfl, he⟩
        · exact fun e he => absurd he List.not_mem_nil
        · exact fun e' he' => List.mem_singleton.1 he' ▸ he
      rw [hpublish]
      exact .ended ht hturn hjob htakes hclosed

theorem polls (h : t.IsSound) (step : Float) (now : Int) (cancelled : Bool) (s : Sink) :
    t.Polls step now cancelled s (t.poll step now cancelled s) := by
  cases hp : t.phase with
  | ready =>
      have ht : ¬ t.IsClosing := fun ⟨e, he⟩ => by rw [hp] at he; cases he
      have hopening : t.opening now = (t.run.begin now).2 := by rw [opening, hp]
      have hpoll : t.poll step now cancelled s =
          start (t.run.begin now).1 (t.run.begin now).2 step now cancelled s := by
        rw [poll, hp]
      have hevents : (t.run.begin now).2 = [] ∨ ∃ e, (t.run.begin now).2 = [e] :=
        (t.run.begin_snd now).imp And.left fun h => ⟨_, h.2⟩
      rw [hpoll, start]
      rcases publish_cases s (fun e => ⟨(t.run.begin now).1, .starting e⟩)
          (proceed (t.run.begin now).1 step now cancelled) hevents with
        ⟨e, he, hnone, hpublish⟩ | ⟨s', htakes, hpublish⟩
      · obtain rfl : e = .started t.id t.job.script := by
          rcases t.run.begin_snd now with ⟨hnil, -⟩ | ⟨-, hstarted⟩
          · rw [hnil] at he
            cases he
          · rw [hstarted] at he
            exact (List.cons_eq_cons.1 he).1.symm
        rw [hpublish]
        exact .starting ht hnone
      · rw [hpublish]
        exact polls_proceed ht (hopening ▸ htakes)
  | starting e =>
      obtain ⟨hrunning, rfl⟩ : t.job.status = .running ∧ e = .started t.id t.job.script := by
        simpa only [IsSound, hp] using h
      have ht : ¬ t.IsClosing := fun ⟨e, he⟩ => by rw [hp] at he; cases he
      have hbegin : (t.run.begin now).1 = t.run := by rw [Run.begin_of_running hrunning]
      have hopening : t.opening now = [.started t.id t.job.script] := by rw [opening, hp]
      have hpoll : t.poll step now cancelled s =
          start (t.run.begin now).1 [.started t.id t.job.script] step now cancelled s := by
        rw [poll, hp, hbegin]
      rw [hpoll, start]
      rcases publish_cases s (fun e => ⟨(t.run.begin now).1, .starting e⟩)
          (proceed (t.run.begin now).1 step now cancelled) (Or.inr ⟨_, rfl⟩) with
        ⟨e, he, hnone, hpublish⟩ | ⟨s', htakes, hpublish⟩
      · obtain rfl := (List.cons_eq_cons.1 he).1
        rw [hpublish]
        exact .starting ht hnone
      · rw [hpublish]
        exact polls_proceed ht (hopening ▸ htakes)
  | closing e =>
      have hpoll : t.poll step now cancelled s = close t.run [e] s := by rw [poll, hp]
      rw [hpoll, close]
      rcases publish_cases s (fun e => ⟨t.run, .closing e⟩) (fun s => (.ended t.run.job, s))
          (Or.inr ⟨e, rfl⟩) with ⟨e', he, hnone, hpublish⟩ | ⟨s', htakes, hpublish⟩
      · obtain rfl := (List.cons_eq_cons.1 he).1
        have ht : (⟨t.run, .closing e⟩ : Task) = t := by rw [← hp]
        rw [hpublish, ht]
        exact .closing hp hnone
      · rw [hpublish]
        exact .returned hp htakes

/-! ### What a poll leaves -/

section

variable {p : Polled} {s' : Sink} {t' : Task} {j : Job}

theorem Polls.publisher_eq (h : t.Polls step now cancelled s (p, s')) :
    s'.publisher = s.publisher := by
  cases h with
  | starting => exact s.publisher_publish _
  | running _ _ htakes => exact htakes.publisher_eq
  | settled _ _ _ htakes => exact (Sink.publisher_publish _ _).trans htakes.publisher_eq
  | ended _ _ _ htakes hclose => exact hclose.publisher_eq.trans htakes.publisher_eq
  | closing => exact s.publisher_publish _
  | returned _ htakes => exact htakes.publisher_eq

theorem IsSound.job_opening (h : t.IsSound) (now : Int) : ∀ e ∈ t.opening now, e.job = t.id := by
  intro e he
  cases hp : t.phase with
  | ready =>
      rw [opening, hp] at he
      rcases t.run.begin_snd now with ⟨hnil, -⟩ | ⟨-, hstarted⟩
      · rw [hnil] at he
        cases he
      · rw [hstarted, List.mem_singleton] at he
        exact he ▸ rfl
  | starting e' =>
      rw [opening, hp, List.mem_singleton] at he
      obtain ⟨-, rfl⟩ : t.job.status = .running ∧ e' = .started t.id t.job.script := by
        simpa only [IsSound, hp] using h
      exact he ▸ rfl
  | closing e' =>
      rw [opening, hp] at he
      cases he

/-- Only the job that is polled may leave the line, and it stands there if it has to wait. -/
theorem Polls.mem_waiting (h : t.Polls step now cancelled s (p, s')) (ht : t.IsSound) :
    (∀ id ≠ t.id, id ∈ s.waiting → id ∈ s'.waiting) ∧
      ∀ t', p = .pending t' → t'.phase ≠ .ready → t.id ∈ s'.waiting := by
  have hopening := ht.job_opening now
  cases h with
  | starting _ hwait =>
      obtain ⟨hself, hothers⟩ := s.mem_waiting_publish (.started t.id t.job.script)
      exact ⟨hothers, fun _ _ _ => hself hwait⟩
  | running _ _ htakes =>
      refine ⟨fun id hid => htakes.mem_waiting fun e he => hopening e he ▸ hid, ?_⟩
      rintro t' hp hne
      cases hp
      exact absurd rfl hne
  | @settled j e s₁ _ _ he htakes hwait =>
      obtain ⟨hself, hothers⟩ := s₁.mem_waiting_publish e
      refine ⟨fun id hid hmem => hothers id (he ▸ hid) ?_, fun _ _ _ => he ▸ hself hwait⟩
      exact htakes.mem_waiting (fun e he => hopening e he ▸ hid) hmem
  | ended _ _ hevents htakes hclose =>
      refine ⟨fun id hid hmem => hclose.mem_waiting (fun e he => hevents e he ▸ hid) ?_, ?_⟩
      · exact htakes.mem_waiting (fun e he => hopening e he ▸ hid) hmem
      · rintro t' hp
        cases hp
  | @closing e hp hwait =>
      have he : e.job = t.id := by simpa only [IsSound, hp] using ht
      obtain ⟨hself, hothers⟩ := s.mem_waiting_publish e
      exact ⟨fun id hid => hothers id (he ▸ hid), fun _ _ _ => he ▸ hself hwait⟩
  | @returned e s' hp htakes =>
      have he : e.job = t.id := by simpa only [IsSound, hp] using ht
      refine ⟨fun id hid => htakes.mem_waiting fun e' he' => ?_, ?_⟩
      · rw [List.mem_singleton.1 he', he]
        exact hid
      · rintro t' hp'
        cases hp'

theorem Polls.origin_eq (h : t.Polls step now cancelled s (p, s')) :
    p.job.origin = t.job.origin := by
  have hturned := t.run.origin_turn step now cancelled
  cases h with
  | starting => exact t.run.origin_begin now
  | running _ hturn =>
      rw [hturn] at hturned
      exact hturned
  | settled _ hturn =>
      rw [hturn] at hturned
      exact hturned
  | ended _ hturn =>
      rw [hturn] at hturned
      exact hturned
  | closing => rfl
  | returned => rfl

/-- A task that goes on after a poll, and need not wait, has executed a statement. -/
theorem Polls.turn_of_ready (h : t.Polls step now cancelled s (.pending t', s'))
    (ht' : t'.phase = .ready) :
    ¬ t.IsClosing ∧ (t.run.turn step now cancelled).1 = .running t'.run := by
  cases h with
  | starting => cases ht'
  | running ht hturn => exact ⟨ht, congrArg Prod.fst hturn⟩
  | settled => cases ht'
  | closing hclosing => cases ht'.symm.trans hclosing

/-- A record that is final stays as it is. -/
theorem Polls.job_of_isClosing (h : t.Polls step now cancelled s (p, s')) (ht : t.IsClosing) :
    p.job = t.job := by
  cases h with
  | closing => rfl
  | returned => rfl
  | starting hopen => exact absurd ht hopen
  | running hopen => exact absurd ht hopen
  | settled hopen => exact absurd ht hopen
  | ended hopen => exact absurd ht hopen

/-- The record of a task becomes final in a turn, whether that is published at once or has to
wait. -/
theorem Polls.turn_of_ended (h : t.Polls step now cancelled s (p, s')) (ht : ¬ t.IsClosing)
    (hp : p = .ended j ∨ ∃ t', p = .pending t' ∧ t'.IsClosing ∧ t'.job = j) :
    (t.run.turn step now cancelled).1 = .ended j := by
  cases h with
  | starting =>
      rcases hp with hp | ⟨t', hp, ⟨e, he⟩, -⟩
      · cases hp
      · cases hp
        cases he
  | running =>
      rcases hp with hp | ⟨t', hp, ⟨e, he⟩, -⟩
      · cases hp
      · cases hp
        cases he
  | settled _ hturn =>
      rcases hp with hp | ⟨t', hp, -, rfl⟩
      · cases hp
      · cases hp
        exact congrArg Prod.fst hturn
  | ended _ hturn =>
      rcases hp with hp | ⟨t', hp, -⟩
      · cases hp
        exact congrArg Prod.fst hturn
      · cases hp
  | closing hclosing => exact absurd ⟨_, hclosing⟩ ht
  | returned hclosing => exact absurd ⟨_, hclosing⟩ ht

/-- A poll of a task that does not wait is a turn, and the sink takes its events, if the task
does not wait afterwards either. -/
theorem Polls.eq_ofProgress (h : t.Polls step now cancelled s (p, s')) (ht : t.phase = .ready)
    (hp : ∀ t', p = .pending t' → t'.phase = .ready) :
    p = .ofProgress (t.run.turn step now cancelled).1 ∧
      s'.queue = s.queue ++ s.publisher.deliver (t.run.turn step now cancelled).2 := by
  have hopening : t.opening now = (t.run.begin now).2 := by rw [opening, ht]
  cases h with
  | starting => cases hp _ rfl
  | running _ hturn htakes =>
      rw [hturn, htakes.queue_eq, hopening]
      exact ⟨rfl, rfl⟩
  | settled => cases hp _ rfl
  | ended _ hturn _ htakes hclose =>
      rw [hturn, hclose.queue_eq, htakes.queue_eq, htakes.publisher_eq, hopening,
        Publisher.deliver_append, List.append_assoc]
      exact ⟨rfl, rfl⟩
  | closing hclosing => cases ht.symm.trans hclosing
  | returned hclosing => cases ht.symm.trans hclosing

end

end Task

end FlightScript
