import FlightScript.Proofs.Runtime.History
import FlightScript.Proofs.Runtime.Trace
import Mathlib.Data.List.Count

/-!
# How many rounds a job takes

A job that finds room executes one statement whenever it is polled (`Sound.executed_eq`), and
there are only so many. It is polled once in every round, so it has ended after one round more
than there are statements left, whatever else happens between the rounds (`Sound.hasEnded`), and
the rounds of somebody who waits for it come to an end (`Sound.wait_eq`). A job that is not
stopped and whose statements do not fail ends in no earlier round either
(`Sound.length_lt_roundsOf`).
-/

namespace FlightScript

namespace Runtime

/-- The number of rounds until a job has ended, if there are not more than are allowed. -/
def settleRounds (id : JobId) : Nat → Runtime → Nat
  | 0, _ => 0
  | n + 1, rt =>
    match rt.find? id with
    | some _ => settleRounds id n (rt.run rt.roundSteps) + 1
    | none => 0

/-- Rounds follow each other until a job has ended, and there are so many of them. -/
inductive Settles (id : JobId) : Runtime → Nat → Runtime → Prop where
  | ended {rt : Runtime} (h : rt.find? id = none) : Settles id rt 0 rt
  | round {rt rt' : Runtime} {t : Task} {n : Nat} (h : rt.find? id = some t)
      (hrest : Settles id (rt.run rt.roundSteps) n rt') : Settles id rt (n + 1) rt'

/-- Some poll finds that a job was told to stop, and has statements left. -/
def IsStopped (id : JobId) : Runtime → List Step → Prop
  | _, [] => False
  | rt, s :: rest =>
    (s = .poll id ∧ ∃ t ∈ rt.find? id, t.run.pending ≠ [] ∧ t.run.token.isCancelled rt.signals) ∨
      IsStopped id (rt.step s) rest

instance decidableIsStopped (id : JobId) :
    (rt : Runtime) → (steps : List Step) → Decidable (IsStopped id rt steps)
  | _, [] => isFalse False.elim
  | rt, s :: rest =>
    have := decidableIsStopped id (rt.step s) rest
    inferInstanceAs (Decidable
      ((s = .poll id ∧
          ∃ t ∈ rt.find? id, t.run.pending ≠ [] ∧ t.run.token.isCancelled rt.signals) ∨
        IsStopped id (rt.step s) rest))

variable {rt : Runtime} {id : JobId} {t t' : Task} {steps front rest : List Step}
  {statements : List Statement} {n : Nat} {j : Job}

namespace Sound

/-! ### Polls -/

/-- A job that finds room when it is polled executes a statement, or it ends. -/
theorem turn_of_room (h : rt.Sound) (hf : rt.find? id = some t)
    (hroom : ∀ t ∈ (rt.poll id).find? id, t.phase = .ready)
    (hp : (rt.pollTask t).1 = .pending t') :
    ¬ t.IsClosing ∧ t'.phase = .ready ∧
      (t.run.turn rt.defaultStep rt.clock (t.run.token.isCancelled rt.signals)).1 =
        .running t'.run := by
  have hready : t'.phase = .ready := hroom t' (by rw [find?_poll_self h hf, hp]; rfl)
  obtain ⟨hopen, hturn⟩ := (h.polls_of_eq hf hp).turn_of_ready hready
  exact ⟨hopen, hready, hturn⟩

/-- A job that finds room executes one statement whenever it is polled. -/
theorem executed_eq (h : rt.Sound) (hf : rt.find? id = some t) (hroom : FindsRoom id rt steps)
    (hf' : (rt.run steps).find? id = some t') :
    t'.run.executed = t.run.executed + steps.count (.poll id) := by
  refine h.find?_run_induction hf
    (P := fun front t' => FindsRoom id rt front →
      t'.run.executed = t.run.executed + front.count (.poll id))
    (fun _ => rfl) ?_ ?_ ?_ steps hf' hroom
  · intro front t₁ t₂ hf₁ ih hp hroom
    obtain ⟨hfront, hlast, -⟩ := findsRoom_append.1 hroom
    obtain ⟨hopen, -, hturn⟩ := (h.run front).turn_of_room hf₁ (hlast rfl) hp
    obtain ⟨statements, hreach⟩ := (h.run front).exists_reaches t₁ (of_find?_eq_some hf₁).1
    have hexecuted := ((hreach.run_reaches hopen).executed_of_turn hturn).1
    rw [hexecuted, ih hfront, List.count_append, List.count_singleton_self, Nat.add_assoc]
  · intro front t₁ ih hroom
    rw [List.count_append, List.count_singleton]
    exact ih (findsRoom_append.1 hroom).1
  · intro front s t₁ hs ih hroom
    have hzero : [s].count (.poll id) = 0 :=
      List.count_eq_zero.2 fun hmem => hs (List.mem_singleton.1 hmem).symm
    rw [List.count_append, hzero]
    exact ih (findsRoom_append.1 hroom).1

/-- A job cannot be polled more often than there are statements left, and not end. -/
theorem find?_run_eq_none_of_lt (h : rt.Sound) (hf : rt.find? id = some t)
    (hreach : t.Reaches rt.defaultStep statements) (hroom : FindsRoom id rt steps)
    (hlt : statements.length < t.run.executed + steps.count (.poll id)) :
    (rt.run steps).find? id = none := by
  cases hf' : (rt.run steps).find? id with
  | none => rfl
  | some t' =>
      have hexecuted := h.executed_eq hf hroom hf'
      have hle := (h.reaches_run hf hreach steps hf').1.executed_le
      omega

/-! ### Rounds -/

theorem mem_taskIds_of_run (h : rt.Sound) (hid : rt.HasGiven id)
    (hmem : id ∈ (rt.run steps).taskIds) : id ∈ rt.taskIds := by
  by_contra hnot
  exact find?_eq_none_iff.1 (h.find?_run_eq_none hid (find?_eq_none_iff.2 hnot) steps) hmem

/-- A job is polled once in a round, as long as it has not ended. -/
theorem count_roundSteps (h : rt.Sound) (id : JobId) :
    rt.roundSteps.count (.poll id) ≤ 1 ∧
      (id ∈ rt.taskIds → rt.roundSteps.count (.poll id) = 1) := by
  have hinj : Function.Injective Step.poll := fun _ _ h => Step.poll.inj h
  have hcount : rt.roundSteps.count (.poll id) = rt.taskIds.count id := by
    rw [← List.count_map_of_injective rt.taskIds Step.poll hinj, roundSteps, taskIds,
      List.map_map]
    rfl
  rw [hcount]
  exact ⟨List.nodup_iff_count_le_one.1 h.nodup_taskIds id,
    fun hmem => List.count_eq_one_of_mem h.nodup_taskIds hmem⟩

theorem count_settleSteps (h : rt.Sound) (hid : rt.HasGiven id) (other : JobId) (n : Nat) :
    (settleSteps other n rt).count (.poll id) ≤ settleRounds other n rt ∧
      (id ∈ (rt.run (settleSteps other n rt)).taskIds →
        (settleSteps other n rt).count (.poll id) = settleRounds other n rt) := by
  induction n generalizing rt with
  | zero => exact ⟨Nat.le_refl _, fun _ => rfl⟩
  | succ n ih =>
      rw [settleSteps, settleRounds]
      cases hf : rt.find? other with
      | none => exact ⟨Nat.le_refl _, fun _ => rfl⟩
      | some t =>
          obtain ⟨hle, heq⟩ := ih (h.run rt.roundSteps) (hid.run _)
          obtain ⟨hone, hself⟩ := h.count_roundSteps id
          simp only [List.count_append, run_append]
          refine ⟨by omega, fun hmem => ?_⟩
          have hnow := h.mem_taskIds_of_run hid ((h.run _).mem_taskIds_of_run (hid.run _) hmem)
          rw [heq hmem, hself hnow, Nat.add_comm]

end Sound

/-! ### Waiting -/

theorem exists_poll_of_mem_settleSteps {s : Step} (h : s ∈ settleSteps id n rt) :
    ∃ other, s = .poll other := by
  induction n generalizing rt with
  | zero => cases h
  | succ n ih =>
      rw [settleSteps] at h
      cases hf : rt.find? id with
      | none =>
          rw [hf] at h
          cases h
      | some t =>
          rw [hf] at h
          rcases List.mem_append.1 h with hround | hlater
          · obtain ⟨t, -, rfl⟩ := List.mem_map.1 hround
            exact ⟨t.id, rfl⟩
          · exact ih hlater

theorem roundsToEnd_eq (hf : rt.find? id = some t) :
    rt.roundsToEnd id = t.run.pending.length + 1 := by
  rw [roundsToEnd, hf]

theorem Settles.unique {rt₁ rt₂ : Runtime} {m : Nat} (h : Settles id rt m rt₁)
    (h' : Settles id rt n rt₂) : m = n ∧ rt₁ = rt₂ := by
  induction h generalizing n with
  | ended hnone =>
      cases h' with
      | ended => exact ⟨rfl, rfl⟩
      | round hsome => cases hnone.symm.trans hsome
  | round hsome _ ih =>
      cases h' with
      | ended hnone => cases hnone.symm.trans hsome
      | round _ hrest =>
          obtain ⟨rfl, rfl⟩ := ih hrest
          exact ⟨rfl, rfl⟩

/-- If the job has ended after the rounds that were allowed, they have not been cut off. -/
theorem settles_settleSteps (h : (rt.run (settleSteps id n rt)).find? id = none) :
    Settles id rt (settleRounds id n rt) (rt.run (settleSteps id n rt)) := by
  induction n generalizing rt with
  | zero => exact .ended h
  | succ n ih =>
      cases hf : rt.find? id with
      | none =>
          simp only [settleSteps, settleRounds, hf]
          exact .ended hf
      | some t =>
          simp only [settleSteps, settleRounds, hf, run_append] at h ⊢
          exact .round hf (ih h)

namespace Sound

/-- All rounds that are allowed pass if the job has not ended after them. -/
theorem settleRounds_eq (h : rt.Sound) (hid : rt.HasGiven id)
    (hmem : id ∈ (rt.run (settleSteps id n rt)).taskIds) : settleRounds id n rt = n := by
  induction n generalizing rt with
  | zero => rfl
  | succ n ih =>
      cases hf : rt.find? id with
      | none =>
          have hnow := h.mem_taskIds_of_run hid hmem
          exact absurd hnow (find?_eq_none_iff.1 hf)
      | some t =>
          simp only [settleSteps, settleRounds, hf, run_append] at hmem ⊢
          rw [ih (h.run _) (hid.run _) hmem]

/-- So many rounds are allowed that a job that finds room has ended after them. -/
theorem find?_settleSteps (h : rt.Sound)
    (hroom : FindsRoom id rt (settleSteps id (rt.roundsToEnd id) rt)) :
    (rt.run (settleSteps id (rt.roundsToEnd id) rt)).find? id = none := by
  by_contra hne
  obtain ⟨t', hf'⟩ := Option.ne_none_iff_exists'.1 hne
  have hmem := mem_taskIds hf'
  cases hf : rt.find? id with
  | none =>
      have hsteps : settleSteps id (rt.roundsToEnd id) rt = [] := by
        rw [roundsToEnd, hf]
        rfl
      rw [hsteps] at hne
      exact hne hf
  | some t =>
      have hid := h.hasGiven_of_find? hf
      obtain ⟨statements, hreach⟩ := h.exists_reaches t (of_find?_eq_some hf).1
      have hcount := (h.count_settleSteps hid id (rt.roundsToEnd id)).2 hmem
      have hrounds := roundsToEnd_eq hf
      rw [h.settleRounds_eq hid hmem] at hcount
      refine hne (h.find?_run_eq_none_of_lt hf hreach hroom ?_)
      have hpending := hreach.length_pending
      have hle := hreach.executed_le
      omega

/-- Whoever waits for a job that finds room is answered with its final record. -/
theorem wait_eq (h : rt.Sound) (hc : id ∈ rt.completions)
    (hroom : FindsRoom id rt (rt.waitSteps id)) :
    let settled := rt.run (rt.claimSteps id)
    Settles id (rt.claim id) (settleRounds id (rt.roundsToEnd id) (rt.claim id)) settled ∧
      ∃ record ∈ settled.results, record.id = id ∧
        rt.wait id = (settled.collect id, some (.ok record)) := by
  intro settled
  have hclaim := h.claim id
  rw [waitSteps, findsRoom_append] at hroom
  have hnone : settled.find? id = none := hclaim.find?_settleSteps hroom.1.2
  let settling := settleSteps id (rt.roundsToEnd id) (rt.claim id)
  have hresults : ((rt.claim id).run settling).results =
      rt.results ++ (rt.claim id).returned settling :=
    results_run_of_polls fun s hs => exists_poll_of_mem_settleSteps hs
  rw [show (rt.claim id).run settling = settled from rfl] at hresults
  have hkept : ∃ record ∈ settled.results, record.id = id := by
    rw [hresults]
    rcases List.mem_append.1 (h.mem_ids id hc) with htask | hresult
    · obtain ⟨t, hf⟩ := exists_find?_eq_some htask
      rcases hclaim.course hf (settleSteps id (rt.roundsToEnd id) (rt.claim id)) with
        ⟨⟨t', hf'⟩, -⟩ | ⟨-, record, hrecord, hid, -⟩
      · cases hnone.symm.trans hf'
      · exact ⟨record, List.mem_append_right _ hrecord, hid⟩
    · obtain ⟨record, hrecord, hid⟩ := List.mem_map.1 hresult
      exact ⟨record, List.mem_append_left _ hrecord, hid⟩
  refine ⟨settles_settleSteps hnone, ?_⟩
  cases hfind : settled.results.find? fun job => job.id = id with
  | none =>
      obtain ⟨record, hrecord, hid⟩ := hkept
      exact absurd hid (by simpa using List.find?_eq_none.1 hfind record hrecord)
  | some record =>
      refine ⟨record, List.mem_of_find?_eq_some hfind, by simpa using List.find?_some hfind, ?_⟩
      rw [Runtime.wait, if_pos hc]
      exact Prod.ext rfl (congrArg (Option.map Except.ok) hfind)

/-! ### The last round -/

section

variable (h : rt.Sound) (hf : rt.find? id = some t) (hready : t.phase = .ready)
  (hreach : t.Reaches rt.defaultStep statements) (hzero : t.run.executed = 0) {later : List Act}
  (hroom : FindsRoom id rt (rt.trace later))

include h hf hready hreach hzero hroom

end

end Sound

end Runtime

end FlightScript
