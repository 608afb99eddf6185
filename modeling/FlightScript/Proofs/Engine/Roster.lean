import FlightScript.Proofs.Engine.Submission
import Mathlib.Data.List.Induction

/-!
# The jobs of a history

A history starts a job with every submission of a valid script (`e.Starts`), and every
job that has ended did so in one of its rounds: `e.finished history` are the final
records that the rounds make. The names of the jobs that have not ended, together with
those of the final records, are the names that were given to started jobs
(`perm_ids_run`), which all differ (`queues_nodup`).

What is known of all engines that come out of a history is collected in
`Consistent`; `mem_active_move` says where a run comes from that is there after a move.
-/

open scoped List

namespace FlightScript

def Reply.job? : Reply → Option Job
  | .job j => some j
  | .done | .failed _ | .jobs _ | .raised _ | .saved _ | .script _ | .validation _ => none

namespace Engine

/-- What some moves yield one after the other, each in the state in which it begins. -/
def along {α : Type} (f : Engine → Move → List α) : Engine → List Move → List α
  | _, [] => []
  | e, m :: rest => f e m ++ along f (e.move m) rest

theorem along_append {α : Type} (f : Engine → Move → List α) (e : Engine)
    (front rest : List Move) :
    along f e (front ++ rest) = along f e front ++ along f (e.run front) rest := by
  induction front generalizing e with
  | nil => rfl
  | cons m front ih =>
      rw [List.cons_append, along, along, ih, List.append_assoc]
      rfl

theorem along_eq_nil {α : Type} {f : Engine → Move → List α} {moves : List Move}
    (h : ∀ e, ∀ m ∈ moves, f e m = []) (e : Engine) : along f e moves = [] := by
  induction moves generalizing e with
  | nil => rfl
  | cons m rest ih =>
      rw [along, h e m List.mem_cons_self, List.nil_append]
      exact ih (fun e' m' hm' => h e' m' (List.mem_cons_of_mem m hm')) (e.move m)

def finals (e : Engine) : Move → List Job
  | .round => justEnded ((e.active.map e.turn).map Prod.fst)
  | _ => []

def queues (e : Engine) : Move → List JobId
  | .submit text _ _ _ => if (validate text).isValid then [.numbered e.created] else []
  | _ => []

def finished (e : Engine) (history : List Operation) : List Job :=
  along finals e (e.trace history)

/-- The record with which a submission is answered, if it starts a job. -/
def started? (e : Engine) (operation : Operation) : Option Job :=
  (e.submitted? operation).bind fun _ => (e.apply operation).2.job?

/-- A history starts a job with one of its operations. The engine is `next` after that,
and the rest of the history makes `moves`. -/
def Starts (e : Engine) (history : List Operation) (queued : Job) (next : Engine)
    (moves : List Move) : Prop :=
  ∃ before operation rest, history = before ++ operation :: rest ∧
    (e.after before).started? operation = some queued ∧
      next = ((e.after before).apply operation).1 ∧ moves = next.trace rest

def HasStarted (e : Engine) (history : List Operation) (id : JobId) : Prop :=
  ∃ queued next moves, e.Starts history queued next moves ∧ queued.id = id

/-! ### Where runs and records come from -/

/-- A run goes on in a round, is queued, or is there before, perhaps with another
token. -/
theorem mem_active_move {e : Engine} {m : Move} {r' : Run} (h : r' ∈ (e.move m).active) :
    (m = .round ∧ ∃ r ∈ e.active, (e.turn r).1 = .running r') ∨
    (∃ text user script follows, m = .submit text user script follows ∧
      r' = Run.create (Job.create (.numbered e.created) user script)
        (Script.read text).executable (.create follows)) ∨
    (m ≠ .round ∧ ∃ r ∈ e.active, ∃ t, r' = { r with token := t }) := by
  cases m with
  | round => exact Or.inl ⟨rfl, exists_of_mem_active_round h⟩
  | submit text user script follows =>
      right
      cases hv : (validate text).isValid with
      | false =>
          rw [move, submit_of_not_valid hv] at h
          exact Or.inr ⟨Move.noConfusion, r', h, r'.token, rfl⟩
      | true =>
          rw [move, submit_of_valid hv] at h
          rcases List.mem_append.1 h with hold | hnew
          · exact Or.inr ⟨Move.noConfusion, r', hold, r'.token, rfl⟩
          · exact Or.inl ⟨text, user, script, follows, rfl, List.mem_singleton.1 hnew⟩
  | cancel id =>
      rw [move, cancel_fst] at h
      obtain ⟨r, hr, rfl⟩ := List.mem_map.1 h
      refine Or.inr (Or.inr ⟨Move.noConfusion, r, hr, ?_⟩)
      by_cases hid : r.job.id = id
      · exact ⟨r.token.cancel, if_pos hid⟩
      · exact ⟨r.token, if_neg hid⟩
  | collect id =>
      rw [move, collect_fst] at h
      exact Or.inr (Or.inr ⟨Move.noConfusion, r', h, r'.token, rfl⟩)
  | environment signals library clock =>
      exact Or.inr (Or.inr ⟨Move.noConfusion, r', h, r'.token, rfl⟩)

theorem mem_finals_round {e : Engine} {j : Job} :
    j ∈ e.finals .round ↔ ∃ r ∈ e.active, (e.turn r).1 = .ended j := by
  rw [finals, justEnded, List.mem_filterMap]
  constructor
  · rintro ⟨p, hp, hended⟩
    obtain ⟨t, ht, rfl⟩ := List.mem_map.1 hp
    obtain ⟨r, hr, rfl⟩ := List.mem_map.1 ht
    refine ⟨r, hr, ?_⟩
    cases hturn : (e.turn r).1 with
    | running r' => simp [hturn] at hended
    | ended j' => simpa [hturn] using hended
  · rintro ⟨r, hr, hturn⟩
    exact ⟨.ended j, List.mem_map.2 ⟨e.turn r, List.mem_map_of_mem hr, hturn⟩, rfl⟩

/-- A final record is kept from before, or a round makes it. -/
theorem mem_ended_move_cases {e : Engine} {m : Move} {j : Job} (h : j ∈ (e.move m).ended) :
    (j ∈ e.ended ∧ m ≠ .collect j.id) ∨ j ∈ e.finals m := by
  cases m with
  | round =>
      rw [move, round] at h
      exact (List.mem_append.1 h).imp (fun hj => ⟨hj, Move.noConfusion⟩) id
  | submit text user script follows =>
      left
      cases hv : (validate text).isValid with
      | false =>
          rw [move, submit_of_not_valid hv] at h
          exact ⟨h, Move.noConfusion⟩
      | true =>
          rw [move, submit_of_valid hv] at h
          exact ⟨h, Move.noConfusion⟩
  | cancel id =>
      rw [move, cancel_fst] at h
      exact Or.inl ⟨h, Move.noConfusion⟩
  | collect id =>
      rw [move, collect_fst] at h
      obtain ⟨hj, hid⟩ := List.mem_filter.1 h
      refine Or.inl ⟨hj, ?_⟩
      rintro ⟨⟩
      exact of_decide_eq_true hid rfl
  | environment signals library clock => exact Or.inl ⟨h, Move.noConfusion⟩

/-! ### What holds after every history -/

/-- The jobs have names of their own, and every job that has not ended is somewhere in
its statements. -/
structure Consistent (e : Engine) : Prop where
  numbered : e.Numbered
  exists_reaches : ∀ r ∈ e.active, ∃ statements done, r.Reaches e.defaultStep statements done

namespace Consistent

variable {e : Engine}

theorem of_create (step : Float) (publisher : Publisher) (usesLibrary : Bool) :
    (create step publisher usesLibrary).Consistent where
  numbered := Numbered.of_create step publisher usesLibrary
  exists_reaches := fun _ hr => by cases hr

theorem move (h : e.Consistent) (m : Move) : (e.move m).Consistent := by
  refine ⟨h.numbered.move m, ?_⟩
  intro r' hr'
  rw [defaultStep_move]
  rcases mem_active_move hr' with
    ⟨-, r, hr, hturn⟩ | ⟨text, user, script, follows, -, rfl⟩ | ⟨-, r, hr, t, rfl⟩
  · obtain ⟨statements, done, hreach⟩ := h.exists_reaches r hr
    obtain ⟨s, hreach'⟩ := hreach.of_turn hturn
    exact ⟨statements, done ++ [s], hreach'⟩
  · exact ⟨_, [], Run.reaches_create _ user script _ _ _⟩
  · obtain ⟨statements, done, hreach⟩ := h.exists_reaches r hr
    exact ⟨statements, done, hreach.withToken t⟩

theorem run (h : e.Consistent) (moves : List Move) : (e.run moves).Consistent := by
  induction moves generalizing e with
  | nil => exact h
  | cons m rest ih => exact ih (h.move m)

theorem after (h : e.Consistent) (history : List Operation) :
    (e.after history).Consistent := by
  rw [← run_trace]
  exact h.run _

theorem status_of_turn (h : e.Consistent) {r r' : Run} (hr : r ∈ e.active)
    (hturn : (e.turn r).1 = .running r') :
    r'.job.status = .running ∧ r'.job.startedAt.isSome := by
  obtain ⟨statements, done, hreach⟩ := h.exists_reaches r hr
  obtain ⟨s, hreach'⟩ := hreach.of_turn hturn
  exact hreach'.running_of_ne_nil (by simp)

end Consistent

/-! ### The balance of started and ended jobs -/

theorem created_submit (e : Engine) (text user : String) (script : Option String)
    (follows : Option Nat) :
    (e.submit text user script follows).1.created = e.created + 1 := by
  cases hv : (validate text).isValid with
  | false => rw [submit_of_not_valid hv]
  | true => rw [submit_of_valid hv]

theorem created_move (e : Engine) (m : Move) : e.created ≤ (e.move m).created := by
  cases m with
  | submit text user script follows =>
      rw [move, created_submit]
      exact Nat.le_succ e.created
  | cancel id => exact Nat.le_of_eq (by rw [move, cancel_fst])
  | collect id => exact Nat.le_of_eq (by rw [move, collect_fst])
  | _ => exact Nat.le_refl e.created

def HasGiven (e : Engine) (id : JobId) : Prop :=
  ∃ n < e.created, id = .numbered n

theorem HasGiven.move {e : Engine} {id : JobId} (h : e.HasGiven id) (m : Move) :
    (e.move m).HasGiven id := by
  obtain ⟨n, hn, rfl⟩ := h
  exact ⟨n, Nat.lt_of_lt_of_le hn (e.created_move m), rfl⟩

theorem HasGiven.run {e : Engine} {id : JobId} (h : e.HasGiven id) (moves : List Move) :
    (e.run moves).HasGiven id := by
  induction moves generalizing e with
  | nil => exact h
  | cons m rest ih => exact ih (h.move m)

theorem not_hasGiven_numbered (e : Engine) : ¬ e.HasGiven (.numbered e.created) := by
  rintro ⟨n, hn, hid⟩
  cases hid
  exact Nat.lt_irrefl _ hn

/-- A run of a job whose name was given stems from a run before the move. -/
theorem HasGiven.mem_active_move {e : Engine} {m : Move} {r' : Run} (h : e.HasGiven r'.job.id)
    (hr' : r' ∈ (e.move m).active) :
    (m = .round ∧ ∃ r ∈ e.active, (e.turn r).1 = .running r') ∨
      (m ≠ .round ∧ ∃ r ∈ e.active, ∃ t, r' = { r with token := t }) := by
  rcases Engine.mem_active_move hr' with
    hround | ⟨text, user, script, follows, -, rfl⟩ | hkept
  · exact Or.inl hround
  · exact absurd h e.not_hasGiven_numbered
  · exact Or.inr hkept

/-- What every turn of a job keeps, and does not depend on its token, is true of the job
after some moves if it was true before. -/
theorem HasGiven.of_mem_active_run {e : Engine} {id : JobId} (h : e.HasGiven id)
    {P : List Move → Run → Prop} (hstart : ∀ r ∈ e.active, r.job.id = id → P [] r)
    (hround : ∀ moves, ∀ r ∈ (e.run moves).active, r.job.id = id → P moves r →
      ∀ r', ((e.run moves).turn r).1 = .running r' → P (moves ++ [.round]) r')
    (hkept : ∀ moves m, m ≠ .round → ∀ r t, P moves r → P (moves ++ [m]) { r with token := t })
    (moves : List Move) : ∀ r ∈ (e.run moves).active, r.job.id = id → P moves r := by
  induction moves using List.reverseRecOn with
  | nil => exact hstart
  | append_singleton moves m ih =>
      intro r' hr' hid
      rw [run_append] at hr'
      have hgiven : (e.run moves).HasGiven r'.job.id := hid ▸ h.run moves
      rcases hgiven.mem_active_move hr' with ⟨rfl, r, hr, hturn⟩ | ⟨hm, r, hr, t, rfl⟩
      · have horigin := (e.run moves).origin_turn r
        rw [hturn] at horigin
        have hrid : r.job.id = id := (congrArg Prod.fst horigin).symm.trans hid
        exact hround moves r hr hrid (ih r hr hrid) r' hturn
      · exact hkept moves m hm r t (ih r hr hid)

theorem HasGiven.exists_mem_active {e : Engine} {id : JobId} (h : e.HasGiven id)
    {moves : List Move} {r : Run} (hr : r ∈ (e.run moves).active) (hid : r.job.id = id) :
    ∃ r₀ ∈ e.active, r₀.job.id = id :=
  h.of_mem_active_run (P := fun _ _ => ∃ r₀ ∈ e.active, r₀.job.id = id)
    (fun r hr hid => ⟨r, hr, hid⟩) (fun _ _ _ _ hp _ _ => hp) (fun _ _ _ _ _ hp => hp)
    moves r hr hid

theorem hasGiven_of_mem_queues {e : Engine} {moves : List Move} {id : JobId}
    (h : id ∈ along queues e moves) : (e.run moves).HasGiven id := by
  induction moves generalizing e with
  | nil => exact absurd h List.not_mem_nil
  | cons m rest ih =>
      rcases List.mem_append.1 h with hm | hrest
      · refine HasGiven.run (e := e.move m) ?_ rest
        cases m with
        | submit text user script follows =>
            by_cases hv : (validate text).isValid
            · rw [queues, if_pos hv] at hm
              refine ⟨e.created, ?_, List.mem_singleton.1 hm⟩
              rw [move, created_submit]
              exact Nat.lt_succ_self _
            · rw [queues, if_neg hv] at hm
              exact absurd hm List.not_mem_nil
        | _ => exact absurd hm List.not_mem_nil
      · exact ih hrest

theorem finals_of_ne_round (e : Engine) {m : Move} (hm : m ≠ .round) : e.finals m = [] := by
  cases m with
  | round => exact absurd rfl hm
  | _ => rfl

/-- The names of queued jobs were not given before and differ. -/
theorem queues_nodup (e : Engine) (moves : List Move) :
    (∀ id ∈ along queues e moves, ∃ n, e.created ≤ n ∧ id = .numbered n) ∧
      (along queues e moves).Nodup := by
  induction moves generalizing e with
  | nil => exact ⟨fun _ h => absurd h List.not_mem_nil, List.nodup_nil⟩
  | cons m rest ih =>
      obtain ⟨hrange, hnodup⟩ := ih (e.move m)
      have hlater : ∀ id ∈ along queues (e.move m) rest,
          ∃ n, e.created ≤ n ∧ id = .numbered n := by
        intro id hid
        obtain ⟨n, hn, rfl⟩ := hrange id hid
        exact ⟨n, Nat.le_trans (e.created_move m) hn, rfl⟩
      rw [along]
      cases m with
      | submit text user script follows =>
          by_cases hv : (validate text).isValid
          · rw [queues, if_pos hv, List.singleton_append]
            refine ⟨List.forall_mem_cons.2 ⟨⟨_, Nat.le_refl _, rfl⟩, hlater⟩, ?_⟩
            refine List.nodup_cons.2 ⟨fun hmem => ?_, hnodup⟩
            obtain ⟨n, hn, hid⟩ := hrange _ hmem
            cases hid
            rw [move, created_submit] at hn
            exact Nat.not_succ_le_self _ hn
          · rw [queues, if_neg hv]
            exact ⟨hlater, hnodup⟩
      | _ => exact ⟨hlater, hnodup⟩

theorem perm_ids_move (e : Engine) (m : Move) :
    (e.move m).active.map (fun r => r.job.id) ++ (e.finals m).map Job.id ~
      e.active.map (fun r => r.job.id) ++ e.queues m := by
  cases m with
  | round =>
      simp only [queues, List.append_nil]
      exact e.perm_ids_turns
  | submit text user script follows =>
      rw [finals_of_ne_round e Move.noConfusion, List.map_nil, List.append_nil, queues]
      cases hv : (validate text).isValid with
      | false =>
          rw [move, submit_of_not_valid hv, if_neg Bool.false_ne_true, List.append_nil]
      | true =>
          rw [move, submit_of_valid hv, if_pos rfl, List.map_append]
          rfl
  | cancel id =>
      rw [move, cancel_fst, List.map_map]
      refine List.Perm.append_right _ (List.Perm.of_eq (List.map_congr_left fun r _ => ?_))
      by_cases hid : r.job.id = id <;> simp [hid]
  | collect id =>
      rw [move, collect_fst]
      exact List.Perm.refl _
  | environment signals library clock => exact List.Perm.refl _

/-- The jobs that have not ended and those that have are the jobs there were and the
jobs that were queued. -/
theorem perm_ids_run (e : Engine) (moves : List Move) :
    (e.run moves).active.map (fun r => r.job.id) ++ (along finals e moves).map Job.id ~
      e.active.map (fun r => r.job.id) ++ along queues e moves := by
  induction moves generalizing e with
  | nil => exact List.Perm.refl _
  | cons m rest ih =>
      have hrest := ih (e.move m)
      have hmove := e.perm_ids_move m
      rw [along, along, List.map_append]
      calc (e.run (m :: rest)).active.map (fun r => r.job.id) ++
            ((e.finals m).map Job.id ++ (along finals (e.move m) rest).map Job.id)
          ~ (e.run (m :: rest)).active.map (fun r => r.job.id) ++
            (along finals (e.move m) rest).map Job.id ++ (e.finals m).map Job.id := by
            rw [List.append_assoc]
            exact List.Perm.append_left _ List.perm_append_comm
        _ ~ (e.move m).active.map (fun r => r.job.id) ++ along queues (e.move m) rest ++
            (e.finals m).map Job.id := List.Perm.append_right _ hrest
        _ ~ (e.move m).active.map (fun r => r.job.id) ++ (e.finals m).map Job.id ++
            along queues (e.move m) rest := by
            rw [List.append_assoc, List.append_assoc]
            exact List.Perm.append_left _ List.perm_append_comm
        _ ~ e.active.map (fun r => r.job.id) ++ (e.queues m ++ along queues (e.move m) rest) := by
            rw [← List.append_assoc]
            exact List.Perm.append_right _ hmove

theorem job?_submit (e : Engine) (text user : String) (script : Option String)
    (follows : Option Nat) :
    (Reply.ofExcept .job (e.submit text user script follows).2).job? =
      if (validate text).isValid then some (Job.create (.numbered e.created) user script)
      else none := by
  cases hv : (validate text).isValid with
  | true =>
      rw [submit_of_valid hv]
      rfl
  | false =>
      rw [submit_snd_of_not_valid hv]
      rfl

theorem queues_libraryMoves (e : Engine) (r : Except LibraryError Library) :
    along queues e (e.libraryMoves r) = [] := by
  cases r <;> rfl

theorem Submits.started?_eq {e : Engine} {operation : Operation} {text user : String}
    {script : Option String} (h : e.Submits operation text user script) :
    e.started? operation =
      if (validate text).isValid then some (Job.create (.numbered e.created) user script)
      else none := by
  have hs : e.submitted? operation = some text := by
    cases h with
    | submit => rfl
    | submitSaved user hs => rw [submitted?, hs]
  rw [started?, hs, h.apply_eq]
  exact e.job?_submit text user script _

/-- An operation submits a script, or it starts no job and queues none. -/
theorem started?_cases (e : Engine) (operation : Operation) :
    (∃ text user script, e.Submits operation text user script) ∨
    (e.started? operation = none ∧ along queues e (e.moves operation) = []) := by
  cases operation with
  | submit text user script follows => exact Or.inl ⟨_, _, _, .submit text user script follows⟩
  | submitSaved id user =>
      cases hs : e.savedScript id user with
      | error err => exact Or.inr (by simp [started?, submitted?, moves, hs, along])
      | ok s => exact Or.inl ⟨_, _, _, .submitSaved user hs⟩
  | wait id =>
      refine Or.inr ⟨rfl, along_eq_nil (fun x m hm => ?_) e⟩
      rcases List.mem_append.1 hm with hround | hcollect
      · rw [(List.mem_replicate.1 hround).2]
        rfl
      · rw [List.mem_singleton.1 hcollect]
        rfl
  | save s => exact Or.inr ⟨rfl, e.queues_libraryMoves _⟩
  | resave s => exact Or.inr ⟨rfl, e.queues_libraryMoves _⟩
  | unsave id => exact Or.inr ⟨rfl, e.queues_libraryMoves _⟩
  | _ => exact Or.inr ⟨rfl, rfl⟩

theorem mem_queues_moves_iff {e : Engine} {operation : Operation} {id : JobId} :
    id ∈ along queues e (e.moves operation) ↔
      ∃ queued, e.started? operation = some queued ∧ queued.id = id := by
  rcases e.started?_cases operation with ⟨text, user, script, hsubmits⟩ | ⟨hstarted, hqueues⟩
  · rw [hsubmits.moves_eq, hsubmits.started?_eq, along, along, List.append_nil, queues]
    by_cases hv : (validate text).isValid
    · simp [hv, Job.create, eq_comm]
    · simp [hv]
  · simp [hstarted, hqueues]

theorem hasStarted_iff {e : Engine} {history : List Operation} {id : JobId} :
    e.HasStarted history id ↔ ∃ before operation rest, history = before ++ operation :: rest ∧
      ∃ queued, (e.after before).started? operation = some queued ∧ queued.id = id := by
  constructor
  · rintro ⟨queued, -, -, ⟨before, operation, rest, hsplit, hs, -⟩, hid⟩
    exact ⟨before, operation, rest, hsplit, queued, hs, hid⟩
  · rintro ⟨before, operation, rest, hsplit, queued, hs, hid⟩
    exact ⟨queued, _, _, ⟨before, operation, rest, hsplit, hs, rfl, rfl⟩, hid⟩

theorem mem_queues_trace_iff {e : Engine} {history : List Operation} {id : JobId} :
    id ∈ along queues e (e.trace history) ↔ e.HasStarted history id := by
  rw [hasStarted_iff]
  induction history generalizing e with
  | nil => simp [trace, along]
  | cons operation history ih =>
      rw [trace, along_append, run_moves, List.mem_append, mem_queues_moves_iff, ih,
        exists_split_cons_iff]
      rfl

/-- In an engine that began without jobs, the jobs that have not ended are the queued
ones without a final record. -/
theorem mem_active_run_iff {e : Engine} (he : e.active = []) {moves : List Move} {id : JobId} :
    id ∈ (e.run moves).active.map (fun r => r.job.id) ↔
      id ∈ along queues e moves ∧ id ∉ (along finals e moves).map Job.id := by
  have hperm := e.perm_ids_run moves
  rw [he, List.map_nil, List.nil_append] at hperm
  have hdisjoint := (List.nodup_append'.1 (hperm.nodup_iff.2 (e.queues_nodup _).2)).2.2
  rw [← hperm.mem_iff, List.mem_append]
  constructor
  · intro hid
    exact ⟨Or.inl hid, fun hfinal => hdisjoint hid hfinal⟩
  · rintro ⟨hid | hid, hnot⟩
    · exact hid
    · exact absurd hid hnot

theorem mem_along_of_mem_ended {e : Engine} (he : e.ended = []) {moves : List Move} {j : Job}
    (h : j ∈ (e.run moves).ended) : j ∈ along finals e moves := by
  induction moves using List.reverseRecOn with
  | nil =>
      rw [run_nil, he] at h
      exact absurd h List.not_mem_nil
  | append_singleton moves m ih =>
      rw [run_append] at h
      rw [along_append, List.mem_append, along, along, List.append_nil]
      exact (mem_ended_move_cases h).imp (fun hkept => ih hkept.1) id

theorem wait_eq_ok_of_reply {e : Engine} {id : JobId} {j : Job}
    (h : (e.apply (.wait id)).2 = .job j) : (e.wait id).2 = .ok j := by
  cases hw : (e.wait id).2 with
  | ok j' => simpa [apply, hw, Reply.ofExcept] using h
  | error err => simp [apply, hw, Reply.ofExcept] at h

theorem mem_finished_of_wait {e : Engine} (he : e.ended = []) {history : List Operation}
    {id : JobId} {j : Job} (h : ((e.after history).wait id).2 = .ok j) :
    j.id = id ∧ j ∈ e.finished (history ++ [.wait id]) := by
  rw [wait, collect] at h
  cases hfind : ((e.after history).settle id).ended.find? fun job => job.id = id with
  | none =>
      rw [hfind] at h
      cases h
  | some job =>
      rw [hfind] at h
      obtain rfl := Except.ok.inj h
      refine ⟨by simpa using List.find?_some hfind, ?_⟩
      have hended := List.mem_of_find?_eq_some hfind
      rw [settle_eq_run, ← run_trace, ← run_append] at hended
      rw [finished, trace_append, trace, trace, List.append_nil, moves, ← List.append_assoc,
        along_append, ← run_trace]
      exact List.mem_append_left _ (mem_along_of_mem_ended he hended)

/-- A job that is started is queued under the next number, for a valid script. -/
theorem exists_submits_of_started? {e : Engine} {operation : Operation} {queued : Job}
    (h : e.started? operation = some queued) :
    ∃ text user script, e.Submits operation text user script ∧ (validate text).isValid ∧
      queued = Job.create (.numbered e.created) user script := by
  rcases e.started?_cases operation with ⟨text, user, script, hsubmits⟩ | ⟨hstarted, -⟩
  · rw [hsubmits.started?_eq] at h
    by_cases hv : (validate text).isValid
    · rw [if_pos hv] at h
      exact ⟨text, user, script, hsubmits, hv, (Option.some.inj h).symm⟩
    · rw [if_neg hv] at h
      cases h
  · rw [h] at hstarted
    cases hstarted

/-- A job that is started is queued, to follow the signal of its submission. -/
theorem isQueued_of_started? {e : Engine} {queued : Job} (he : e.Numbered) {operation : Operation}
    (h : e.started? operation = some queued) :
    ∃ statements, (e.apply operation).1.IsQueued queued statements (e.followed? operation) := by
  obtain ⟨text, user, script, hsubmits, hv, rfl⟩ := exists_submits_of_started? h
  exact ⟨_, (hsubmits.isQueued he hv).2⟩

end Engine

end FlightScript
