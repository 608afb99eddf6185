import FlightScript.Proofs.Engine.Move
import FlightScript.Proofs.Run.Turn
import Mathlib.Data.List.Nodup

/-!
# The names of jobs

The jobs of an engine, those that have not ended and those whose final record is
kept, have different names, and all of the names were given by the engine itself
(`Numbered`). Every move keeps that, so that a name finds at most one run and at most
one record, and not both (`find?_eq_some`, `collect_snd`, `id_ne_of_ended`).
-/

open scoped List

namespace FlightScript

namespace Engine

theorem find?_eq_some_of_nodup_map {α β : Type} [DecidableEq β] {f : α → β} {l : List α}
    (h : (l.map f).Nodup) {a : α} (ha : a ∈ l) : l.find? (fun b => f b = f a) = some a := by
  cases hf : l.find? fun b => f b = f a with
  | none =>
      have hne := List.find?_eq_none.1 hf a ha
      simp at hne
  | some b =>
      have hkey : f b = f a := by simpa using List.find?_some hf
      rw [List.inj_on_of_nodup_map h (List.mem_of_find?_eq_some hf) ha hkey]

theorem find?_eq_none_iff {e : Engine} {id : JobId} :
    e.find? id = none ↔ ∀ r ∈ e.active, r.job.id ≠ id := by
  rw [find?, List.find?_eq_none]
  simp

theorem of_find?_eq_some {e : Engine} {id : JobId} {r : Run} (h : e.find? id = some r) :
    r ∈ e.active ∧ r.job.id = id :=
  ⟨List.mem_of_find?_eq_some h, by simpa using List.find?_some h⟩

/-- The names of the jobs that have not ended and of those whose record is kept. -/
def ids (e : Engine) : List JobId :=
  e.active.map (fun r => r.job.id) ++ e.ended.map Job.id

/-- The jobs of an engine have different names, which it gave itself. -/
structure Numbered (e : Engine) : Prop where
  nodup : e.ids.Nodup
  exists_number : ∀ id ∈ e.ids, ∃ n < e.created, id = .numbered n

theorem perm_ids_of_progress (ps : List Progress) :
    ((stillRunning ps).map (fun r => r.job.id) ++ (justEnded ps).map Job.id).Perm
      (ps.map fun p => p.origin.1) := by
  induction ps with
  | nil => exact List.Perm.nil
  | cons p ps ih =>
      cases p with
      | running r => exact List.Perm.cons _ ih
      | ended j => exact List.perm_middle.trans (List.Perm.cons _ ih)

theorem origin_turn (e : Engine) (r : Run) : (e.turn r).1.origin = r.job.origin :=
  r.origin_turn e.defaultStep e.clock (e.isCancelled r)

theorem perm_ids_turns (e : Engine) :
    ((stillRunning ((e.active.map e.turn).map Prod.fst)).map (fun r => r.job.id) ++
      (justEnded ((e.active.map e.turn).map Prod.fst)).map Job.id).Perm
        (e.active.map fun r => r.job.id) := by
  have hturns : ((e.active.map e.turn).map Prod.fst).map (fun p => p.origin.1) =
      e.active.map (fun r => r.job.id) := by
    simp only [List.map_map]
    apply List.map_congr_left
    intro r _
    exact congrArg Prod.fst (e.origin_turn r)
  rw [← hturns]
  exact perm_ids_of_progress _

/-- A round gives no names and loses none. -/
theorem perm_ids_round (e : Engine) : e.round.ids.Perm e.ids := by
  let ps := (e.active.map e.turn).map Prod.fst
  calc e.round.ids
      = (stillRunning ps).map (fun r => r.job.id) ++
          (e.ended.map Job.id ++ (justEnded ps).map Job.id) := by
        rw [ids, round, List.map_append]
    _ ~ (stillRunning ps).map (fun r => r.job.id) ++
          ((justEnded ps).map Job.id ++ e.ended.map Job.id) :=
        List.Perm.append_left _ List.perm_append_comm
    _ ~ e.ids := by
        rw [← List.append_assoc]
        exact List.Perm.append_right _ e.perm_ids_turns

theorem mem_active_round {e : Engine} {r r' : Run} (hr : r ∈ e.active)
    (h : (e.turn r).1 = .running r') : r' ∈ e.round.active := by
  rw [round]
  exact List.mem_filterMap.2
    ⟨.running r', List.mem_map.2 ⟨e.turn r, List.mem_map_of_mem hr, h⟩, rfl⟩

theorem mem_ended_round {e : Engine} {r : Run} {j : Job} (hr : r ∈ e.active)
    (h : (e.turn r).1 = .ended j) : j ∈ e.round.ended := by
  rw [round]
  refine List.mem_append_right _ (List.mem_filterMap.2 ⟨.ended j, ?_, rfl⟩)
  exact List.mem_map.2 ⟨e.turn r, List.mem_map_of_mem hr, h⟩

theorem exists_of_mem_active_round {e : Engine} {r' : Run} (h : r' ∈ e.round.active) :
    ∃ r ∈ e.active, (e.turn r).1 = .running r' := by
  rw [round] at h
  obtain ⟨p, hp, hrun⟩ := List.mem_filterMap.1 h
  obtain ⟨t, ht, rfl⟩ := List.mem_map.1 hp
  obtain ⟨r, hr, rfl⟩ := List.mem_map.1 ht
  refine ⟨r, hr, ?_⟩
  cases hturn : (e.turn r).1 with
  | running r'' => simpa [hturn] using hrun
  | ended j => simp [hturn] at hrun

theorem mem_ended_round_of_mem {e : Engine} {j : Job} (h : j ∈ e.ended) :
    j ∈ e.round.ended := by
  rw [round]
  exact List.mem_append_left _ h

theorem submit_of_valid {e : Engine} {text : String} (h : (validate text).isValid)
    (user : String) (script : Option String) (follows : Option Nat) :
    e.submit text user script follows =
      ({ e with
          created := e.created + 1
          active := e.active ++
            [Run.create (Job.create (.numbered e.created) user script)
              (Script.read text).executable (.create follows)] },
        .ok (Job.create (.numbered e.created) user script)) := by
  have hvalid : (Validation.ofScript (Script.read text)).isValid := h
  simp only [submit, hvalid, if_true]

theorem submit_of_not_valid {e : Engine} {text : String} (h : (validate text).isValid = false)
    (user : String) (script : Option String) (follows : Option Nat) :
    (e.submit text user script follows).1 = { e with created := e.created + 1 } := by
  have hvalid : (Validation.ofScript (Script.read text)).isValid = false := h
  simp only [submit, hvalid, Bool.false_eq_true, if_false]

theorem submit_snd_of_not_valid {text : String} (h : (validate text).isValid = false)
    (e : Engine) (user : String) (script : Option String) (follows : Option Nat) :
    (e.submit text user script follows).2 =
      .error (.validationFailed { Job.create (.numbered e.created) user script with
        status := .failed
        errors := (validate text).errors
        completedAt := some e.clock }) := by
  have hinvalid : (Validation.ofScript (Script.read text)).isValid = false := h
  simp only [submit, hinvalid, Bool.false_eq_true, if_false]
  rw [Job.settle_of_canBecome _ rfl]
  rfl

/-- Cancelling a job changes at most the token of its run. -/
theorem cancel_fst (e : Engine) (id : JobId) :
    (e.cancel id).1 =
      { e with
        active := e.active.map fun r =>
          if r.job.id = id then { r with token := r.token.cancel } else r } := by
  cases h : e.find? id with
  | some r => rw [cancel, h]
  | none =>
      have hsame : ∀ r ∈ e.active,
          (if r.job.id = id then { r with token := r.token.cancel } else r) = r := by
        intro r hr
        exact if_neg (find?_eq_none_iff.1 h r hr)
      rw [cancel, h, List.map_congr_left hsame, List.map_id']

/-- Collecting removes at most the record of a job. -/
theorem collect_fst (e : Engine) (id : JobId) :
    (e.collect id).1 = { e with ended := e.ended.filter fun job => job.id ≠ id } := by
  cases h : e.ended.find? fun job => job.id = id with
  | some job => rw [collect, h]
  | none =>
      have hall : ∀ job ∈ e.ended, decide (job.id ≠ id) = true := by
        intro job hjob
        rw [List.find?_eq_none] at h
        simpa using h job hjob
      rw [collect, h, List.filter_eq_self.2 hall]

namespace Numbered

variable {e : Engine}

theorem of_create (step : Float) (publisher : Publisher) (usesLibrary : Bool) :
    (create step publisher usesLibrary).Numbered where
  nodup := List.nodup_nil
  exists_number := fun _ h => by cases h

theorem round (h : e.Numbered) : e.round.Numbered := by
  have hperm := e.perm_ids_round
  refine ⟨hperm.nodup_iff.2 h.nodup, ?_⟩
  intro id hid
  exact h.exists_number id (hperm.mem_iff.1 hid)

theorem numbered_not_mem_ids (h : e.Numbered) : JobId.numbered e.created ∉ e.ids := by
  intro hmem
  obtain ⟨n, hn, heq⟩ := h.exists_number _ hmem
  cases heq
  exact Nat.lt_irrefl _ hn

theorem submit (h : e.Numbered) (text user : String) (script : Option String)
    (follows : Option Nat) : (e.submit text user script follows).1.Numbered := by
  have hold : ∀ id ∈ e.ids, ∃ n < e.created + 1, id = .numbered n := by
    intro id hid
    obtain ⟨n, hn, rfl⟩ := h.exists_number id hid
    exact ⟨n, Nat.lt_succ_of_lt hn, rfl⟩
  cases hv : (validate text).isValid with
  | false =>
      rw [submit_of_not_valid hv]
      exact ⟨h.nodup, hold⟩
  | true =>
      have hperm : (e.submit text user script follows).1.ids.Perm
          (.numbered e.created :: e.ids) := by
        rw [submit_of_valid hv, ids, List.map_append, List.append_assoc]
        exact List.perm_middle
      have hcreated : (e.submit text user script follows).1.created = e.created + 1 := by
        rw [submit_of_valid hv]
      refine ⟨hperm.nodup_iff.2 (List.nodup_cons.2 ⟨h.numbered_not_mem_ids, h.nodup⟩), ?_⟩
      intro id hid
      rw [hcreated]
      rcases List.mem_cons.1 (hperm.mem_iff.1 hid) with rfl | hid
      · exact ⟨e.created, Nat.lt_succ_self _, rfl⟩
      · exact hold id hid

theorem cancel (h : e.Numbered) (id : JobId) : (e.cancel id).1.Numbered := by
  have hids : (e.cancel id).1.ids = e.ids := by
    rw [cancel_fst, ids, ids, List.map_map]
    congr 1
    apply List.map_congr_left
    intro r _
    by_cases hr : r.job.id = id
    · simp [hr]
    · simp [hr]
  have hcreated : (e.cancel id).1.created = e.created := by
    rw [cancel_fst]
  refine ⟨hids ▸ h.nodup, ?_⟩
  rw [hids, hcreated]
  exact h.exists_number

theorem collect (h : e.Numbered) (id : JobId) : (e.collect id).1.Numbered := by
  have hsub : (e.collect id).1.ids.Sublist e.ids := by
    rw [collect_fst]
    exact List.Sublist.append_left (List.filter_sublist.map Job.id) _
  have hcreated : (e.collect id).1.created = e.created := by
    rw [collect_fst]
  refine ⟨h.nodup.sublist hsub, ?_⟩
  intro other hother
  rw [hcreated]
  exact h.exists_number other (hsub.subset hother)

/-- Every move keeps the names apart. -/
theorem move (h : e.Numbered) (m : Move) : (e.move m).Numbered := by
  cases m with
  | round => exact h.round
  | submit text user script follows => exact h.submit text user script follows
  | cancel id => exact h.cancel id
  | collect id => exact h.collect id
  | environment signals library clock => exact ⟨h.nodup, h.exists_number⟩

theorem run (h : e.Numbered) (moves : List Move) : (e.run moves).Numbered := by
  induction moves generalizing e with
  | nil => exact h
  | cons m rest ih => exact ih (h.move m)

theorem after (h : e.Numbered) (history : List Operation) :
    (e.after history).Numbered := by
  rw [← run_trace]
  exact h.run _

theorem eq_of_id_eq (h : e.Numbered) {r r' : Run} (hr : r ∈ e.active)
    (hr' : r' ∈ e.active) (hid : r.job.id = r'.job.id) : r = r' :=
  List.inj_on_of_nodup_map (List.nodup_append'.1 h.nodup).1 hr hr' hid

theorem id_ne_of_ended (h : e.Numbered) {r : Run} {j : Job} (hr : r ∈ e.active)
    (hj : j ∈ e.ended) : r.job.id ≠ j.id := by
  intro hid
  have hdisjoint := (List.nodup_append'.1 h.nodup).2.2
  exact hdisjoint (List.mem_map_of_mem hr) (hid ▸ List.mem_map_of_mem hj)

theorem find?_eq_some (h : e.Numbered) {r : Run} (hr : r ∈ e.active) :
    e.find? r.job.id = some r :=
  find?_eq_some_of_nodup_map (List.nodup_append'.1 h.nodup).1 hr

theorem collect_snd (h : e.Numbered) {j : Job} (hj : j ∈ e.ended) :
    (e.collect j.id).2 = .ok j := by
  have hfind := find?_eq_some_of_nodup_map (List.nodup_append'.1 h.nodup).2.1 hj
  rw [Engine.collect, hfind]

end Numbered

end Engine

end FlightScript
