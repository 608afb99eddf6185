import FlightScript.Proofs.Engine.Identity
import FlightScript.Proofs.Run.Ending

/-!
# The course of a job

A job is under way while it has not ended and its run reaches some of its statements
in sequence (`IsUnderWay`). Every move leaves it under way, but for the round in
which it ends; the record of that round is described by `EndsAs`, and it is kept
until it is collected. So a job that is under way either still is after any moves, or
ended in exactly one of their rounds (`underWay_or_ended`), and waiting for it gives
the record of that round (`exists_endsAs`).
-/

namespace FlightScript

namespace Engine

/-- A job has not ended, and its run reaches some of its statements. -/
def IsUnderWay (e : Engine) (origin : JobId × Option String × String)
    (statements : List Statement) : Prop :=
  ∃ r ∈ e.active, r.job.origin = origin ∧ ∃ done, r.Reaches e.defaultStep statements done

/-- The round that begins here finds that a job with a statement to execute was told
to stop. -/
def SeesCancelled (e : Engine) (id : JobId) : Prop :=
  ∃ r ∈ e.active, r.job.id = id ∧ r.pending ≠ [] ∧ e.isCancelled r

/-- In the round that begins here a run ends, after the statements `done`, with a
record. -/
structure EndsAs (e : Engine) (r : Run) (statements done : List Statement) (j : Job) :
    Prop where
  mem_active : r ∈ e.active
  reaches : r.Reaches e.defaultStep statements done
  mem_ended : j ∈ e.round.ended
  origin_eq : j.origin = r.job.origin
  summary_eq : j.summary =
    if r.pending ≠ [] ∧ e.isCancelled r then .cancelled statements.length done r.bindings
    else .ofSequence e.defaultStep statements

variable {e : Engine} {origin : JobId × Option String × String} {statements : List Statement}

theorem defaultStep_publisher_move (e : Engine) (m : Move) :
    (e.move m).defaultStep = e.defaultStep ∧ (e.move m).publisher = e.publisher := by
  cases m with
  | submit text user script follows =>
      cases hv : (validate text).isValid with
      | false =>
          rw [move, submit_of_not_valid hv]
          exact ⟨rfl, rfl⟩
      | true =>
          rw [move, submit_of_valid hv]
          exact ⟨rfl, rfl⟩
  | cancel id =>
      rw [move, cancel_fst]
      exact ⟨rfl, rfl⟩
  | collect id =>
      rw [move, collect_fst]
      exact ⟨rfl, rfl⟩
  | _ => exact ⟨rfl, rfl⟩

theorem defaultStep_move (e : Engine) (m : Move) : (e.move m).defaultStep = e.defaultStep :=
  (e.defaultStep_publisher_move m).1

theorem defaultStep_run (e : Engine) (moves : List Move) :
    (e.run moves).defaultStep = e.defaultStep := by
  induction moves generalizing e with
  | nil => rfl
  | cons m rest ih => exact (ih (e.move m)).trans (e.defaultStep_move m)

namespace EndsAs

variable {r : Run} {done : List Statement} {j : Job}

theorem isCancelled_of_status (h : e.EndsAs r statements done j) (hj : j.status = .cancelled) :
    r.pending ≠ [] ∧ e.isCancelled r := by
  by_contra hstop
  have hsummary := h.summary_eq
  rw [if_neg hstop] at hsummary
  have hfinal := Summary.status_ofSequence e.defaultStep statements
  rw [← hsummary] at hfinal
  rcases hfinal with hcompleted | hfailed
  · exact absurd (hj.symm.trans hcompleted) (by decide)
  · exact absurd (hj.symm.trans hfailed) (by decide)

theorem exists_failure_of_status (h : e.EndsAs r statements done j) (hj : j.status = .failed) :
    ∃ f, Bindings.empty.executeAll e.defaultStep statements = .error f ∧
      j.summary = .failed statements.length f := by
  have hsummary := h.summary_eq
  by_cases hstop : r.pending ≠ [] ∧ e.isCancelled r
  · rw [if_pos hstop] at hsummary
    have hstatus : Status.failed = .cancelled := hj.symm.trans (congrArg Summary.status hsummary)
    cases hstatus
  · rw [if_neg hstop] at hsummary
    cases hall : Bindings.empty.executeAll e.defaultStep statements with
    | ok b =>
        rw [Summary.ofSequence_of_ok hall] at hsummary
        have hstatus : Status.failed = .completed :=
          hj.symm.trans (congrArg Summary.status hsummary)
        cases hstatus
    | error f =>
        rw [Summary.ofSequence_of_error hall] at hsummary
        exact ⟨f, rfl, hsummary⟩

theorem summary_of_no_statements (h : e.EndsAs r [] done j) :
    j.summary = .completed [] .empty := by
  have hpending : r.pending = [] := (List.append_eq_nil_iff.1 h.reaches.split.symm).2
  have hsummary := h.summary_eq
  rw [if_neg fun hstop => hstop.1 hpending] at hsummary
  exact hsummary

end EndsAs

/-- The turn that ends a run is its last one in the round that begins here. -/
theorem endsAs_of_turn {r : Run} {done : List Statement} {j : Job} (hr : r ∈ e.active)
    (h : r.Reaches e.defaultStep statements done) (hturn : (e.turn r).1 = .ended j) :
    e.EndsAs r statements done j := by
  have horigin := e.origin_turn r
  rw [hturn] at horigin
  refine ⟨hr, h, mem_ended_round hr hturn, horigin, ?_⟩
  by_cases hstop : r.pending ≠ [] ∧ e.isCancelled r
  · obtain ⟨j', hj', hsum⟩ := h.turn_of_cancelled hstop.1 e.clock
    rw [turn, hstop.2, hj'] at hturn
    obtain rfl := Progress.ended.inj hturn
    rw [if_pos hstop, hsum]
  · have hc : r.pending = [] ∨ e.isCancelled r = false := by
      by_cases hp : r.pending = []
      · exact Or.inl hp
      · exact Or.inr (by simpa using fun hcancelled => hstop ⟨hp, hcancelled⟩)
    rw [if_neg hstop]
    rcases h.turn_of_not_stopped e.clock hc with ⟨r', -, hgo, -⟩ | ⟨j', hj', hsum⟩
    · rw [turn, hgo] at hturn
      cases hturn
    · rw [turn, hj'] at hturn
      obtain rfl := Progress.ended.inj hturn
      exact hsum

theorem exists_endsAs_of_isCancelled {r : Run} {done : List Statement} (hr : r ∈ e.active)
    (h : r.Reaches e.defaultStep statements done) (hp : r.pending ≠ [])
    (hc : e.isCancelled r) : ∃ j, e.EndsAs r statements done j := by
  obtain ⟨j, hj, -⟩ := h.turn_of_cancelled hp e.clock
  exact ⟨j, endsAs_of_turn hr h (by rw [turn, hc, hj])⟩

theorem exists_endsAs_of_nil {r : Run} {done : List Statement} (hr : r ∈ e.active)
    (h : r.Reaches e.defaultStep statements done) (hp : r.pending = []) :
    ∃ j, e.EndsAs r statements done j := by
  obtain ⟨j, hturn, -⟩ := h.turn_of_nil hp e.clock (e.isCancelled r)
  exact ⟨j, endsAs_of_turn hr h hturn⟩

/-- A run that reaches some of its statements goes on in a round, or it ends. -/
theorem reaches_round {r : Run} {done : List Statement} (hr : r ∈ e.active)
    (h : r.Reaches e.defaultStep statements done) :
    e.round.IsUnderWay r.job.origin statements ∨ ∃ j, e.EndsAs r statements done j := by
  cases hturn : (e.turn r).1 with
  | running r' =>
      have horigin := e.origin_turn r
      rw [hturn] at horigin
      obtain ⟨s, hreach⟩ := h.of_turn hturn
      exact Or.inl ⟨r', mem_active_round hr hturn, horigin, done ++ [s], hreach⟩
  | ended j => exact Or.inr ⟨j, endsAs_of_turn hr h hturn⟩

/-- Nothing but a round changes how far a job is. -/
theorem IsUnderWay.move (h : e.IsUnderWay origin statements) {m : Move} (hm : m ≠ .round) :
    (e.move m).IsUnderWay origin statements := by
  obtain ⟨r, hr, horigin, done, hreach⟩ := h
  rw [← e.defaultStep_move m] at hreach
  cases m with
  | round => exact absurd rfl hm
  | submit text user script follows =>
      cases hv : (validate text).isValid with
      | false =>
          rw [Engine.move, submit_of_not_valid hv] at hreach ⊢
          exact ⟨r, hr, horigin, done, hreach⟩
      | true =>
          rw [Engine.move, submit_of_valid hv] at hreach ⊢
          exact ⟨r, List.mem_append_left _ hr, horigin, done, hreach⟩
  | cancel id =>
      rw [Engine.move, cancel_fst] at hreach ⊢
      refine ⟨_, List.mem_map_of_mem hr, ?_⟩
      by_cases hid : r.job.id = id
      · rw [if_pos hid]
        exact ⟨horigin, done, hreach.withToken _⟩
      · rw [if_neg hid]
        exact ⟨horigin, done, hreach⟩
  | collect id =>
      rw [Engine.move, collect_fst] at hreach ⊢
      exact ⟨r, hr, horigin, done, hreach⟩
  | environment signals library clock => exact ⟨r, hr, horigin, done, hreach⟩

theorem mem_ended_move {j : Job} (h : j ∈ e.ended) {m : Move} (hm : m ≠ .collect j.id) :
    j ∈ (e.move m).ended := by
  cases m with
  | round => exact mem_ended_round_of_mem h
  | submit text user script follows =>
      cases hv : (validate text).isValid with
      | false =>
          rw [move, submit_of_not_valid hv]
          exact h
      | true =>
          rw [move, submit_of_valid hv]
          exact h
  | cancel id =>
      rw [move, cancel_fst]
      exact h
  | collect id =>
      have hid : j.id ≠ id := fun heq => hm (heq ▸ rfl)
      rw [move, collect_fst]
      exact List.mem_filter.2 ⟨h, decide_eq_true hid⟩
  | environment signals library clock => exact h

theorem mem_ended_run {j : Job} (h : j ∈ e.ended) {moves : List Move}
    (hm : Move.collect j.id ∉ moves) : j ∈ (e.run moves).ended := by
  induction moves generalizing e with
  | nil => exact h
  | cons m rest ih =>
      rw [List.mem_cons, not_or] at hm
      exact ih (mem_ended_move h (Ne.symm hm.1)) hm.2

/-- A job that is under way still is after some moves, or it ended in one of their
rounds. -/
theorem underWay_or_ended (h : e.IsUnderWay origin statements) {moves : List Move}
    (hm : Move.collect origin.1 ∉ moves) :
    (e.run moves).IsUnderWay origin statements ∨
      ∃ front rest r done j, moves = front ++ .round :: rest ∧ r.job.origin = origin ∧
        (e.run front).EndsAs r statements done j ∧ j ∈ (e.run moves).ended := by
  induction moves generalizing e with
  | nil => exact Or.inl h
  | cons m moves ih =>
      rw [List.mem_cons, not_or] at hm
      have hrest : (e.move m).IsUnderWay origin statements →
          (e.run (m :: moves)).IsUnderWay origin statements ∨
            ∃ front rest r done j, m :: moves = front ++ .round :: rest ∧
              r.job.origin = origin ∧ (e.run front).EndsAs r statements done j ∧
                j ∈ (e.run (m :: moves)).ended := by
        intro hmove
        rcases ih hmove hm.2 with hleft | ⟨front, rest, r, done, j, rfl, hends⟩
        · exact Or.inl hleft
        · exact Or.inr ⟨m :: front, rest, r, done, j, rfl, hends⟩
      by_cases hround : m = .round
      · subst hround
        obtain ⟨r, hr, horigin, done, hreach⟩ := h
        rcases reaches_round hr hreach with hgo | ⟨j, hends⟩
        · exact hrest (horigin ▸ hgo)
        · have hid : j.id = origin.1 :=
            congrArg Prod.fst (hends.origin_eq.trans horigin)
          have hkept : j ∈ (e.round.run moves).ended :=
            mem_ended_run hends.mem_ended (by rw [hid]; exact hm.2)
          exact Or.inr ⟨[], moves, r, done, j, rfl, horigin, hends, hkept⟩
      · exact hrest (h.move hround)

/-- A job with fewer statements left than there are rounds has ended after them. -/
theorem find?_roundsFor {id : JobId} {n : Nat}
    (h : ∀ r ∈ e.active, r.job.id = id → r.pending.length < n) :
    (roundsFor id n e).find? id = none := by
  induction n generalizing e with
  | zero =>
      rw [roundsFor, find?_eq_none_iff]
      intro r hr hid
      exact absurd (h r hr hid) (Nat.not_lt_zero _)
  | succ n ih =>
      cases hf : e.find? id with
      | none => rw [roundsFor, hf]; exact hf
      | some r =>
          rw [roundsFor, hf]
          apply ih
          intro r' hr' hid
          obtain ⟨r₀, hr₀, hturn⟩ := exists_of_mem_active_round hr'
          have horigin := e.origin_turn r₀
          rw [hturn] at horigin
          obtain ⟨⟨s, hs⟩, -⟩ := Run.rest_of_turn hturn
          have hlt := h r₀ hr₀ ((congrArg Prod.fst horigin).symm.trans hid)
          rw [hs, List.length_cons] at hlt
          exact Nat.lt_of_succ_lt_succ hlt

theorem Numbered.find?_settle (h : e.Numbered) (id : JobId) : (e.settle id).find? id = none := by
  cases hf : e.find? id with
  | none => rw [settle, hf]; exact hf
  | some r₀ =>
      obtain ⟨hr₀, hid₀⟩ := of_find?_eq_some hf
      simp only [settle, hf]
      apply find?_roundsFor
      intro r hr hid
      rw [h.eq_of_id_eq hr hr₀ (hid.trans hid₀.symm)]
      exact Nat.lt_succ_self _

theorem Numbered.not_underWay_settle (h : e.Numbered) :
    ¬ (e.settle origin.1).IsUnderWay origin statements := by
  rintro ⟨r, hr, horigin, -⟩
  exact find?_eq_none_iff.1 (h.find?_settle origin.1) r hr (congrArg Prod.fst horigin)

/-- The states in which rounds begin up to the end of waiting for a job. -/
def roundsUntil (e : Engine) (between : List Operation) (id : JobId) : List Engine :=
  e.roundStates (e.trace (between ++ [.wait id]))

/-- The moves up to the end of waiting for a job, without the collection of its
record. -/
def movesUntil (e : Engine) (between : List Operation) (id : JobId) : List Move :=
  e.trace between ++ List.replicate ((e.after between).roundsToSettle id) .round

theorem run_movesUntil (e : Engine) (between : List Operation) (id : JobId) :
    e.run (e.movesUntil between id) = (e.after between).settle id := by
  rw [movesUntil, run_append, run_trace, settle_eq_run]

theorem roundsUntil_eq (e : Engine) (between : List Operation) (id : JobId) :
    e.roundsUntil between id = e.roundStates (e.movesUntil between id) := by
  have htrace : e.trace (between ++ [.wait id]) = e.movesUntil between id ++ [.collect id] := by
    rw [trace_append, trace, trace, List.append_nil, moves, ← List.append_assoc, movesUntil]
  rw [roundsUntil, htrace, roundStates_append]
  exact List.append_nil _

theorem defaultStep_of_mem_roundsUntil {between : List Operation} {id : JobId} {x : Engine}
    (h : x ∈ e.roundsUntil between id) : x.defaultStep = e.defaultStep := by
  obtain ⟨front, rest, -, rfl⟩ := mem_roundStates_iff.1 h
  exact e.defaultStep_run front

theorem collect_not_mem_movesUntil {between : List Operation} {id : JobId}
    (h : Operation.wait id ∉ between) : Move.collect id ∉ e.movesUntil between id := by
  rw [movesUntil, List.mem_append, not_or]
  exact ⟨collect_not_mem_trace h, fun hm => by cases (List.mem_replicate.1 hm).2⟩

/-- Waiting for a job gives its record if that is there at the end. -/
theorem Numbered.apply_wait_snd (h : e.Numbered) {between : List Operation} {j : Job}
    (hj : j ∈ (e.run (e.movesUntil between j.id)).ended) :
    ((e.after between).apply (.wait j.id)).2 = .job j := by
  have hnumbered := h.run (e.movesUntil between j.id)
  rw [run_movesUntil] at hj hnumbered
  exact congrArg (Reply.ofExcept Reply.job) (hnumbered.collect_snd hj)

theorem EndsAs.apply_wait_snd {r : Run} {done : List Statement} {j : Job}
    {between : List Operation} {front rest : List Move}
    (hends : (e.run front).EndsAs r statements done j) (h : e.Numbered)
    (hw : Operation.wait j.id ∉ between)
    (hsplit : e.movesUntil between j.id = front ++ .round :: rest) :
    ((e.after between).apply (.wait j.id)).2 = .job j := by
  apply h.apply_wait_snd
  have hcollect := collect_not_mem_movesUntil (e := e) hw
  rw [hsplit, List.mem_append, not_or, List.mem_cons, not_or] at hcollect
  rw [hsplit, run_append]
  exact mem_ended_run hends.mem_ended hcollect.2.2

/-- Waiting for a job that was under way gives a record, that of one of the rounds. -/
theorem exists_endsAs (he : e.Numbered) (h : e.IsUnderWay origin statements)
    {between : List Operation} (hw : Operation.wait origin.1 ∉ between) :
    ∃ x ∈ e.roundsUntil between origin.1, ∃ r done j, r.job.origin = origin ∧
      x.EndsAs r statements done j ∧
        ((e.after between).apply (.wait origin.1)).2 = .job j := by
  rcases underWay_or_ended h (collect_not_mem_movesUntil hw) with
    hunder | ⟨front, rest, r, done, j, hsplit, horigin, hends, -⟩
  · rw [run_movesUntil] at hunder
    exact absurd hunder (he.after between).not_underWay_settle
  · obtain rfl : j.origin = origin := hends.origin_eq.trans horigin
    refine ⟨e.run front, ?_, r, done, j, horigin, hends, hends.apply_wait_snd he hw hsplit⟩
    rw [roundsUntil_eq, mem_roundStates_iff]
    exact ⟨front, rest, hsplit, rfl⟩

theorem exists_reaches (he : e.Numbered) (h : e.IsUnderWay origin statements)
    {moves : List Move} (hm : Move.collect origin.1 ∉ moves) {r : Run}
    (hr : r ∈ (e.run moves).active) (hid : r.job.id = origin.1) :
    r.job.origin = origin ∧ ∃ done, r.Reaches (e.run moves).defaultStep statements done := by
  rcases underWay_or_ended h hm with
    ⟨r', hr', horigin, hreach⟩ | ⟨front, rest, r', done, j, -, horigin, hends, hended⟩
  · have hid' : r.job.id = r'.job.id := hid.trans (congrArg Prod.fst horigin).symm
    rw [(he.run moves).eq_of_id_eq hr hr' hid']
    exact ⟨horigin, hreach⟩
  · have hid' : j.id = origin.1 := congrArg Prod.fst (hends.origin_eq.trans horigin)
    exact absurd (hid.trans hid'.symm) ((he.run moves).id_ne_of_ended hr hended)

end Engine

end FlightScript
