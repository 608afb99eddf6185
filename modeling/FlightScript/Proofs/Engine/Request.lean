import FlightScript.Proofs.Engine.Identity

/-!
# Requests to stop

A job is asked to stop by a cancellation, or by raising the signal that it follows.
`e.HasToken id t` says what the token of a job is as long as it has not ended. A
cancellation of that job cancels the token (`HasToken.cancel`) and no other move
touches it (`HasToken.move`), so that after some moves the token is cancelled just if
a cancellation is one of them (`HasToken.isCancelled_iff`).
-/

namespace FlightScript

namespace Engine

/-- The name of a job was given, and as long as the job has not ended this is its
token. -/
structure HasToken (e : Engine) (id : JobId) (t : Token) : Prop where
  exists_number : ∃ n < e.created, id = .numbered n
  token_eq : ∀ r ∈ e.active, r.job.id = id → r.token = t

/-- A job that follows a signal, or none, is asked to stop by some moves. -/
def IsAskedToStop (e : Engine) (id : JobId) (follows : Option Nat) (moves : List Move) : Prop :=
  .cancel id ∈ moves ∨ ∃ n ∈ follows, (e.run moves).signals.isRaised n

variable {e : Engine} {id : JobId} {t : Token}

namespace HasToken

theorem submit (h : e.HasToken id t) (text user : String) (script : Option String)
    (follows : Option Nat) : (e.submit text user script follows).1.HasToken id t := by
  obtain ⟨n, hn, rfl⟩ := h.exists_number
  cases hv : (validate text).isValid with
  | false =>
      rw [submit_of_not_valid hv]
      exact ⟨⟨n, Nat.lt_succ_of_lt hn, rfl⟩, h.token_eq⟩
  | true =>
      rw [submit_of_valid hv]
      refine ⟨⟨n, Nat.lt_succ_of_lt hn, rfl⟩, ?_⟩
      intro r hr hid
      rcases List.mem_append.1 hr with hold | hnew
      · exact h.token_eq r hold hid
      · rw [List.mem_singleton.1 hnew] at hid
        exact absurd (JobId.numbered.inj hid) (Nat.ne_of_gt hn)

theorem round (h : e.HasToken id t) : e.round.HasToken id t := by
  refine ⟨h.exists_number, ?_⟩
  intro r' hr' hid
  obtain ⟨r, hr, hturn⟩ := exists_of_mem_active_round hr'
  have horigin := e.origin_turn r
  rw [hturn] at horigin
  rw [(Run.rest_of_turn hturn).2]
  exact h.token_eq r hr ((congrArg Prod.fst horigin).symm.trans hid)

theorem cancel (h : e.HasToken id t) : (e.move (.cancel id)).HasToken id t.cancel := by
  rw [Engine.move, cancel_fst]
  refine ⟨h.exists_number, ?_⟩
  intro r' hr' hid
  obtain ⟨r, hr, rfl⟩ := List.mem_map.1 hr'
  by_cases hsame : r.job.id = id
  · rw [if_pos hsame, h.token_eq r hr hsame]
  · rw [if_neg hsame] at hid
    exact absurd hid hsame

/-- No other move touches the token of a job. -/
theorem move (h : e.HasToken id t) {m : Move} (hm : m ≠ .cancel id) :
    (e.move m).HasToken id t := by
  cases m with
  | round => exact h.round
  | submit text user script follows => exact h.submit text user script follows
  | cancel other =>
      rw [Engine.move, cancel_fst]
      refine ⟨h.exists_number, ?_⟩
      intro r' hr' hid
      obtain ⟨r, hr, rfl⟩ := List.mem_map.1 hr'
      by_cases hother : r.job.id = other
      · rw [if_pos hother] at hid
        exact absurd (congrArg Move.cancel (hother.symm.trans hid)) hm
      · rw [if_neg hother] at hid ⊢
        exact h.token_eq r hr hid
  | collect other =>
      rw [Engine.move, collect_fst]
      exact ⟨h.exists_number, h.token_eq⟩
  | environment signals library clock => exact ⟨h.exists_number, h.token_eq⟩

/-- After some moves the token is cancelled if it was, or if they cancel the job. -/
theorem run (h : e.HasToken id t) (moves : List Move) :
    ∃ t', (e.run moves).HasToken id t' ∧ t'.follows = t.follows ∧
      (t'.cancelled ↔ t.cancelled ∨ .cancel id ∈ moves) := by
  induction moves generalizing e t with
  | nil => exact ⟨t, h, rfl, by simp⟩
  | cons m rest ih =>
      by_cases hm : m = .cancel id
      · subst hm
        obtain ⟨t', ht', hfollows, hcancelled⟩ := ih h.cancel
        refine ⟨t', ht', hfollows, ?_⟩
        rw [hcancelled]
        simp [Token.cancel]
      · obtain ⟨t', ht', hfollows, hcancelled⟩ := ih (h.move hm)
        refine ⟨t', ht', hfollows, ?_⟩
        rw [hcancelled, List.mem_cons, or_iff_right (a := Move.cancel id = m) (Ne.symm hm)]

/-- A job that was queued with a new token is found to be told to stop after some moves
just if they ask it to. -/
theorem isCancelled_iff {follows : Option Nat} (h : e.HasToken id (.create follows))
    {moves : List Move} {r : Run} (hr : r ∈ (e.run moves).active) (hid : r.job.id = id) :
    (e.run moves).isCancelled r ↔ e.IsAskedToStop id follows moves := by
  obtain ⟨t, ht, hfollows, hcancelled⟩ := h.run moves
  have hown : t.cancelled ↔ Move.cancel id ∈ moves := by
    rw [hcancelled]
    simp [Token.create]
  rw [isCancelled, ht.token_eq r hr hid, Token.isCancelled, Bool.or_eq_true, hown, hfollows,
    Option.any_eq_true]
  rfl

end HasToken

end Engine

end FlightScript
