import FlightScript.Proofs.Engine.Announcement
import FlightScript.Proofs.Engine.Snapshot
import FlightScript.Proofs.Engine.Surroundings
import FlightScript.Proofs.Run.Outcome

/-!
# Sessions

In a session a script is submitted to an engine, other things happen, and its job is waited
for. The job of a valid script has its turns in some of the rounds of the session, and ends
in one of them (`exists_endsIn`): where it is found to be told to stop
(`endsIn_of_isStoppedAt`), or else where its statements end or fail
(`endsIn_of_not_isStoppedAt`). The times and the events of the job go by its turns
(`EndsIn.exists_times`, `published_of_reply`).
-/

namespace FlightScript

/-- The number of statements of a sequence that are executed without a failure. -/
def Bindings.executedCount (step : Float) (statements : List Statement) : Nat :=
  match Bindings.empty.executeAll step statements with
  | .ok _ => statements.length
  | .error f => f.before.length

/-- A script is submitted on behalf of a user, other operations follow, and its job is
waited for. -/
structure Session (text user : String) (script : Option String) where
  engine : Engine
  reachable : engine.Reachable
  submission : Operation
  submits : engine.Submits submission text user script
  between : List Operation
  wait_not_mem : Operation.wait (.numbered engine.created) ∉ between

namespace Session

variable {text user : String} {script : Option String}

def id (s : Session text user script) : JobId :=
  .numbered s.engine.created

def submitted (s : Session text user script) : Engine :=
  (s.engine.apply s.submission).1

def rounds (s : Session text user script) : List Engine :=
  s.submitted.roundsUntil s.between s.id

def reply (s : Session text user script) : Reply :=
  ((s.submitted.after s.between).apply (.wait s.id)).2

def final (s : Session text user script) : Engine :=
  ((s.submitted.after s.between).apply (.wait s.id)).1

/-- After `k` statements and before the next one, the job is found to be told to stop. -/
def IsStoppedAt (s : Session text user script) (k : Nat) : Prop :=
  ∃ x ∈ s.rounds, ∃ r ∈ x.active, r.job.id = s.id ∧ r.executed = k ∧ r.pending ≠ [] ∧
    x.isCancelled r

instance (s : Session text user script) (k : Nat) : Decidable (s.IsStoppedAt k) :=
  inferInstanceAs (Decidable (∃ x ∈ s.rounds, ∃ r ∈ x.active, r.job.id = s.id ∧
    r.executed = k ∧ r.pending ≠ [] ∧ x.isCancelled r))

/-- After `k` statements the job has a turn at some time. -/
def HasTurn (s : Session text user script) (k : Nat) (now : Int) : Prop :=
  ∃ x ∈ s.rounds, ∃ r ∈ x.active, r.job.id = s.id ∧ r.executed = k ∧ x.clock = now

/-- The job ends in a round, with a record, and this is its run before that. -/
structure EndsIn (s : Session text user script) (record : Job) (x : Engine) (r : Run) : Prop where
  mem_rounds : x ∈ s.rounds
  id_eq : r.job.id = s.id
  endsAs : x.EndsAs r (Script.read text).executable
    ((Script.read text).executable.take r.executed) record

end Session

namespace Engine

variable {e : Engine} {statements done : List Statement} {r : Run} {j : Job}

theorem EndsAs.turn_eq (h : e.EndsAs r statements done j) (he : e.Numbered) :
    (e.turn r).1 = .ended j := by
  have hround : e.round.Numbered := he.round
  have horigin := e.origin_turn r
  have hid : j.id = r.job.id := congrArg Prod.fst h.origin_eq
  cases hturn : (e.turn r).1 with
  | running r' =>
      rw [hturn] at horigin
      have hid' : r'.job.id = r.job.id := congrArg Prod.fst horigin
      exact absurd (hid'.trans hid.symm)
        (hround.id_ne_of_ended (mem_active_round h.mem_active hturn) h.mem_ended)
  | ended j' =>
      rw [hturn] at horigin
      have hid' : j'.id = r.job.id := congrArg Prod.fst horigin
      have hnodup := (List.nodup_append'.1 hround.nodup).2.1
      rw [List.inj_on_of_nodup_map hnodup (mem_ended_round h.mem_active hturn) h.mem_ended
        (hid'.trans hid.symm)]

/-- A job that is not stopped ends after the statements that can be executed. -/
theorem EndsAs.executed_eq (h : e.EndsAs r statements done j) (he : e.Numbered)
    (hgo : ¬ (r.pending ≠ [] ∧ e.isCancelled r)) :
    r.executed = Bindings.executedCount e.defaultStep statements := by
  have hdone := h.reaches.executeAll_eq
  rw [Bindings.executedCount, h.reaches.split, h.reaches.executed_eq]
  cases hp : r.pending with
  | nil => rw [List.append_nil, hdone]
  | cons s rest =>
      have hc : e.isCancelled r = false := by simpa [hp] using hgo
      rcases hs : r.bindings.execute e.defaultStep s.command with ⟨b, _ | error⟩
      · obtain ⟨r', hr', -⟩ := h.reaches.turn_of_ok hp hs e.clock
        have hturn := h.turn_eq he
        rw [turn, hc, hr'] at hturn
        cases hturn
      · rw [Bindings.executeAll_append_cons_of_error hdone hs]

end Engine

namespace Session

open Engine

variable {text user : String} {script : Option String} {s : Session text user script}
  {record : Job} {x : Engine} {r : Run} {k : Nat}

theorem consistent_engine (s : Session text user script) : s.engine.Consistent := by
  obtain ⟨step, publisher, usesLibrary, history, hengine⟩ := s.reachable
  rw [← hengine]
  exact (Consistent.of_create step publisher usesLibrary).after history

theorem consistent (s : Session text user script) : s.submitted.Consistent := by
  rw [submitted, ← run_moves]
  exact s.consistent_engine.run _

theorem isQueued (s : Session text user script) (hv : (validate text).isValid) :
    s.submitted.IsQueued (Job.create s.id user script) (Script.read text).executable
      (s.engine.followed? s.submission) :=
  (s.submits.isQueued s.consistent_engine.numbered hv).2

theorem mem_rounds_iff : x ∈ s.rounds ↔ ∃ front rest,
    s.submitted.movesUntil s.between s.id = front ++ .round :: rest ∧
      x = s.submitted.run front := by
  rw [rounds, roundsUntil_eq, mem_roundStates_iff]

theorem numbered_of_mem_rounds (hx : x ∈ s.rounds) : x.Numbered := by
  obtain ⟨front, -, -, rfl⟩ := mem_rounds_iff.1 hx
  exact (s.consistent.run front).numbered

theorem defaultStep_of_mem_rounds (hx : x ∈ s.rounds) : x.defaultStep = s.engine.defaultStep := by
  rw [defaultStep_of_mem_roundsUntil hx, submitted, defaultStep_apply]

theorem reaches_take (hv : (validate text).isValid) (hx : x ∈ s.rounds) (hr : r ∈ x.active)
    (hid : r.job.id = s.id) :
    r.Reaches x.defaultStep (Script.read text).executable
      ((Script.read text).executable.take r.executed) := by
  obtain ⟨front, -, -, rfl⟩ := mem_rounds_iff.1 hx
  rw [defaultStep_run]
  exact ((s.isQueued hv).reaches_take hr hid).2

theorem EndsIn.origin_eq (h : s.EndsIn record x r) (hv : (validate text).isValid) :
    record.origin = (s.id, script, user) := by
  obtain ⟨front, -, -, rfl⟩ := mem_rounds_iff.1 h.mem_rounds
  exact h.endsAs.origin_eq.trans ((s.isQueued hv).reaches_take h.endsAs.mem_active h.id_eq).1

theorem exists_endsIn (s : Session text user script) (hv : (validate text).isValid) :
    ∃ record x r, s.reply = .job record ∧ s.EndsIn record x r := by
  obtain ⟨x, hx, r, done, record, horigin, hends, hreply⟩ :=
    exists_endsAs (s.isQueued hv).numbered (s.isQueued hv).isUnderWay s.wait_not_mem
  exact ⟨record, x, r, hreply, hx, congrArg Prod.fst horigin, hends.reaches.eq_take ▸ hends⟩

theorem isStoppedAt_iff_eq (h : s.IsStoppedAt k)
    (hk : ∀ x ∈ s.rounds, ∀ r ∈ x.active, r.job.id = s.id → r.pending ≠ [] → x.isCancelled r →
      r.executed = k) (k' : Nat) : s.IsStoppedAt k' ↔ k' = k := by
  constructor
  · rintro ⟨x, hx, r, hr, hid, rfl, hp, hc⟩
    exact hk x hx r hr hid hp hc
  · rintro rfl
    exact h

theorem endsIn_of_isStoppedAt (hv : (validate text).isValid) (h : s.IsStoppedAt k) :
    ∃ record x r, s.reply = .job record ∧ s.EndsIn record x r ∧ r.executed = k ∧
      record.summary = .cancelled (Script.read text).executable.length
        ((Script.read text).executable.take k) r.bindings := by
  obtain ⟨x, hx, r, hr, hid, rfl, hp, hc⟩ := h
  obtain ⟨record, hends⟩ :=
    exists_endsAs_of_isCancelled hr (reaches_take hv hx hr hid) hp hc
  have hsummary := hends.summary_eq
  rw [if_pos ⟨hp, hc⟩] at hsummary
  refine ⟨record, x, r, ?_, ⟨hx, hid, hends⟩, rfl, hsummary⟩
  obtain ⟨front, rest, hsplit, rfl⟩ := mem_rounds_iff.1 hx
  have hrid : record.id = s.id := (congrArg Prod.fst hends.origin_eq).trans hid
  have hwait := s.wait_not_mem
  rw [← hrid] at hsplit
  rw [reply, ← hrid]
  exact hends.apply_wait_snd s.consistent.numbered (hrid ▸ hwait) hsplit

theorem endsIn_of_not_isStoppedAt (hv : (validate text).isValid) (h : ∀ k, ¬ s.IsStoppedAt k) :
    ∃ record x r, s.reply = .job record ∧ s.EndsIn record x r ∧
      r.executed = Bindings.executedCount s.engine.defaultStep (Script.read text).executable ∧
      record.summary = .ofSequence s.engine.defaultStep (Script.read text).executable := by
  obtain ⟨record, x, r, hreply, hends⟩ := s.exists_endsIn hv
  have hgo : ¬ (r.pending ≠ [] ∧ x.isCancelled r) := fun hstop => h r.executed
    ⟨x, hends.mem_rounds, r, hends.endsAs.mem_active, hends.id_eq, rfl, hstop⟩
  have hexecuted := hends.endsAs.executed_eq (numbered_of_mem_rounds hends.mem_rounds) hgo
  have hsummary := hends.endsAs.summary_eq
  rw [if_neg hgo] at hsummary
  rw [defaultStep_of_mem_rounds hends.mem_rounds] at hexecuted hsummary
  exact ⟨record, x, r, hreply, hends, hexecuted, hsummary⟩

/-! ### Times -/

theorem mem_active_submitted (s : Session text user script) (hv : (validate text).isValid) :
    Run.create (Job.create s.id user script) (Script.read text).executable
      (.create (s.engine.followed? s.submission)) ∈ s.submitted.active :=
  s.submits.mem_active hv

/-- As long as the job is queued it has had no turn. Then its record tells the time of its
first turn. -/
theorem startedAt_cases (s : Session text user script) (hv : (validate text).isValid)
    (moves : List Move) :
    ∀ r ∈ (s.submitted.run moves).active, r.job.id = s.id →
      (r.job.status = .queued ∧ r.executed = 0) ∨
        (r.job.status = .running ∧ ∃ x ∈ s.submitted.roundStates moves, ∃ r₀ ∈ x.active,
          r₀.job.id = s.id ∧ r₀.executed = 0 ∧ r.job.startedAt = some x.clock) := by
  have hnew := s.mem_active_submitted hv
  have hgiven : s.submitted.HasGiven s.id := (s.isQueued hv).hasToken.exists_number
  -- the first turn starts the job, and no turn after it tells the time again
  refine hgiven.of_mem_active_run
    (P := fun moves r => (r.job.status = .queued ∧ r.executed = 0) ∨
      (r.job.status = .running ∧ ∃ x ∈ s.submitted.roundStates moves, ∃ r₀ ∈ x.active,
        r₀.job.id = s.id ∧ r₀.executed = 0 ∧ r.job.startedAt = some x.clock))
    (fun r hr hid => ?_) (fun moves r hr hid hp r' hturn => ?_)
    (fun moves m hm r t hp => ?_) moves
  · rw [s.consistent.numbered.eq_of_id_eq hr hnew hid]
    exact Or.inl ⟨rfl, rfl⟩
  · have hstarted := Run.startedAt_turn hturn
    refine Or.inr ⟨((s.consistent.run moves).status_of_turn hr hturn).1, ?_⟩
    rw [roundStates_append]
    rcases hp with ⟨hqueued, hzero⟩ | ⟨hrunning, x, hx, r₀, hr₀, hid₀, hzero, htime⟩
    · rw [Run.startedAt_begin_of_queued hqueued] at hstarted
      exact ⟨_, List.mem_append_right _ (List.mem_singleton_self _), r, hr, hid, hzero, hstarted⟩
    · rw [Run.startedAt_begin_of_running hrunning, htime] at hstarted
      exact ⟨x, List.mem_append_left _ hx, r₀, hr₀, hid₀, hzero, hstarted⟩
  · rw [roundStates_append]
    refine hp.imp_right fun ⟨hrunning, x, hx, hr₀⟩ => ?_
    exact ⟨hrunning, x, List.mem_append_left _ hx, hr₀⟩

theorem EndsIn.exists_times (h : s.EndsIn record x r) (hv : (validate text).isValid) :
    ∃ started, s.HasTurn 0 started ∧ s.HasTurn r.executed x.clock ∧
      record.times = (some started, some x.clock, x.clock - started) := by
  have hr := h.endsAs.mem_active
  have hlast : s.HasTurn r.executed x.clock := ⟨x, h.mem_rounds, r, hr, h.id_eq, rfl, rfl⟩
  have htimes : record.times = ((r.begin x.clock).1.job.startedAt, some x.clock,
      ((r.begin x.clock).1.job.startedAt.map fun started => x.clock - started).getD 0) := by
    have hturn := h.endsAs.turn_eq (numbered_of_mem_rounds h.mem_rounds)
    rcases r.turn_cases x.defaultStep x.clock (x.isCancelled r) with
      ⟨r', hgo⟩ | ⟨y, ending, hcloses, hend⟩
    · rw [turn, hgo] at hturn
      cases hturn
    · rw [turn, hend] at hturn
      obtain rfl := Progress.ended.inj hturn
      rw [y.times_finish, hcloses.startedAt_eq]
  obtain ⟨front, rest, hsplit, rfl⟩ := mem_rounds_iff.1 h.mem_rounds
  rcases s.startedAt_cases hv front r hr h.id_eq with
    ⟨hqueued, hzero⟩ | ⟨hrunning, x, hx, r₀, hr₀, hid, hzero, htime⟩
  · -- the last turn is the first one too
    rw [Run.startedAt_begin_of_queued hqueued] at htimes
    exact ⟨_, hzero ▸ hlast, hlast, htimes⟩
  · rw [Run.startedAt_begin_of_running hrunning, htime] at htimes
    obtain ⟨front', rest', rfl, rfl⟩ := mem_roundStates_iff.1 hx
    have hmem : s.submitted.run front' ∈ s.rounds := by
      rw [List.append_assoc] at hsplit
      exact mem_rounds_iff.2 ⟨front', _, hsplit, rfl⟩
    exact ⟨_, ⟨_, hmem, r₀, hr₀, hid, hzero, rfl⟩, hlast, htimes⟩

/-! ### Events -/

theorem received_run_of_ne_channel {e : Engine} (hp : e.publisher ≠ .channel)
    (moves : List Move) : (e.run moves).received = e.received := by
  induction moves using List.reverseRecOn with
  | nil => rfl
  | append_singleton moves m ih =>
      rw [run_append]
      by_cases hm : m = .round
      · have hpublisher : (e.run moves).publisher ≠ .channel := by rwa [publisher_run]
        subst hm
        have hround : ((e.run moves).run [.round]).received = (e.run moves).received ++
            (e.run moves).publisher.deliver (((e.run moves).active.map
              (e.run moves).turn).flatMap Prod.snd) := rfl
        rw [hround, Publisher.deliver_of_ne_channel hpublisher, List.append_nil, ih]
      · exact ((e.run moves).received_move hm).trans ih

theorem published_of_reply (h : s.reply = .job record) :
    (s.engine.publisher = .channel → record.Announces (s.final.published s.id)) ∧
      (s.engine.publisher ≠ .channel → s.final.published s.id = []) := by
  obtain ⟨step, publisher, usesLibrary, history, hengine⟩ := s.reachable
  have hbetween : s.submitted.after s.between =
      (create step publisher usesLibrary).after (history ++ s.submission :: s.between) := by
    rw [after_append, hengine, after_cons]
    rfl
  have hfinal : s.final = (create step publisher usesLibrary).run
      ((create step publisher usesLibrary).trace
        (history ++ s.submission :: s.between ++ [.wait s.id])) := by
    rw [run_trace, after_append, ← hbetween]
    rfl
  have hpublisher : s.engine.publisher = publisher := by
    rw [← hengine, ← run_trace, publisher_run]
    rfl
  have hwait : ((s.submitted.after s.between).wait s.id).2 = .ok record := wait_eq_ok_of_reply h
  rw [hpublisher, hfinal]
  constructor
  · rintro rfl
    rw [hbetween] at hwait
    obtain ⟨hid, hrecord⟩ := mem_finished_of_wait rfl hwait
    rw [← hid] at hrecord ⊢
    exact (publishedAfter_trace step usesLibrary _).of_final record hrecord
  · intro hp
    rw [published, received_run_of_ne_channel hp]
    rfl

end Session

end FlightScript
