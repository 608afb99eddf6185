import FlightScript.Engine.Operation

/-!
# The surroundings of jobs

`e.within p l rs` is an engine with another publisher, another library and other events
received. An operation that has nothing to do with the library is answered there in the same
way, leads to the same jobs and announces the same events (`exists_apply_within`). Four
operations have to do with the library. One submits what it has saved
(`apply_submitSaved_within`), and the others change it and nothing else
(`exists_apply_of_changesLibrary`).
-/

namespace FlightScript

namespace Publisher

@[simp] theorem deliver_nil (p : Publisher) : p.deliver [] = [] := rfl

theorem deliver_append (p : Publisher) (es es' : List Event) :
    p.deliver (es ++ es') = p.deliver es ++ p.deliver es' :=
  List.flatMap_append

theorem deliver_of_ne_channel {p : Publisher} (hp : p ≠ .channel) (es : List Event) :
    p.deliver es = [] := by
  cases p with
  | channel => exact absurd rfl hp
  | closed => simp [deliver, publish]
  | discard => simp [deliver, publish]

end Publisher

namespace Operation

def changesLibrary : Operation → Bool
  | .save _ | .resave _ | .unsave _ => true
  | _ => false

def runsSaved : Operation → Bool
  | .submitSaved _ _ => true
  | _ => false

end Operation

def Library.changed (l : Library) (success : Reply) :
    Except LibraryError Library → Library × Reply
  | .ok l' => (l', success)
  | .error error => (l, .failed (.library error))

namespace Engine

/-- The engine with another publisher, another library and other events received. -/
def within (e : Engine) (p : Publisher) (l : Library) (rs : List Event) : Engine :=
  { e with publisher := p, library := l, received := rs }

def withLibrary (e : Engine) (l : Library) : Engine :=
  { e with library := l }

def announced (e : Engine) : List Event :=
  (e.active.map e.turn).flatMap Prod.snd

variable {e : Engine} {p : Publisher} {l : Library} {rs : List Event} {operation : Operation}

theorem round_within (e : Engine) (p : Publisher) (l : Library) (rs : List Event) :
    (e.within p l rs).round = e.round.within p l (rs ++ p.deliver e.announced) := rfl

theorem exists_roundsFor_within (id : JobId) (n : Nat) (e : Engine) :
    ∃ es, ∀ p l rs, roundsFor id n (e.within p l rs) =
      (roundsFor id n e).within p l (rs ++ p.deliver es) := by
  induction n generalizing e with
  | zero =>
      refine ⟨[], fun p l rs => ?_⟩
      rw [roundsFor, roundsFor, Publisher.deliver_nil, List.append_nil]
  | succ n ih =>
      cases hfind : e.find? id with
      | none =>
          refine ⟨[], fun p l rs => ?_⟩
          have hfind' : (e.within p l rs).find? id = none := hfind
          rw [roundsFor, roundsFor, hfind, hfind', Publisher.deliver_nil,
            List.append_nil]
      | some r =>
          obtain ⟨es, hes⟩ := ih e.round
          refine ⟨e.announced ++ es, fun p l rs => ?_⟩
          have hfind' : (e.within p l rs).find? id = some r := hfind
          rw [roundsFor, roundsFor, hfind, hfind', round_within, hes, Publisher.deliver_append,
            List.append_assoc]

theorem exists_settle_within (e : Engine) (id : JobId) :
    ∃ es, ∀ p l rs, (e.within p l rs).settle id =
      (e.settle id).within p l (rs ++ p.deliver es) := by
  cases hfind : e.find? id with
  | none =>
      refine ⟨[], fun p l rs => ?_⟩
      have hfind' : (e.within p l rs).find? id = none := hfind
      rw [settle, settle, hfind, hfind', Publisher.deliver_nil, List.append_nil]
  | some r =>
      obtain ⟨es, hes⟩ := exists_roundsFor_within id (r.pending.length + 1) e
      refine ⟨es, fun p l rs => ?_⟩
      have hfind' : (e.within p l rs).find? id = some r := hfind
      rw [settle, settle, hfind, hfind']
      exact hes p l rs

theorem submit_within (e : Engine) (p : Publisher) (l : Library) (rs : List Event)
    (text user : String) (script : Option String) (follows : Option Nat) :
    (e.within p l rs).submit text user script follows =
      ((e.submit text user script follows).1.within p l rs,
        (e.submit text user script follows).2) := by
  simp only [submit]
  split <;> rfl

theorem cancel_within (e : Engine) (p : Publisher) (l : Library) (rs : List Event) (id : JobId) :
    (e.within p l rs).cancel id = ((e.cancel id).1.within p l rs, (e.cancel id).2) := by
  have hfind : (e.within p l rs).find? id = e.find? id := rfl
  rw [cancel, cancel, hfind]
  cases e.find? id <;> rfl

theorem collect_within (e : Engine) (p : Publisher) (l : Library) (rs : List Event)
    (id : JobId) :
    (e.within p l rs).collect id = ((e.collect id).1.within p l rs, (e.collect id).2) := by
  have hended : (e.within p l rs).ended = e.ended := rfl
  rw [collect, collect, hended]
  cases e.ended.find? fun job => job.id = id <;> rfl

/-- An operation that has nothing to do with the library is answered alike in all
surroundings, and has the same effects and events. -/
theorem exists_apply_within (e : Engine) (hchanges : operation.changesLibrary = false)
    (hruns : operation.runsSaved = false) :
    ∃ es, ∀ p l rs, (e.within p l rs).apply operation =
      ((e.apply operation).1.within p l (rs ++ p.deliver es), (e.apply operation).2) := by
  cases operation with
  | wait id =>
      obtain ⟨es, hes⟩ := e.exists_settle_within id
      refine ⟨es, fun p l rs => ?_⟩
      simp only [apply, wait, hes, collect_within]
  | submit text user script follows =>
      refine ⟨[], fun p l rs => ?_⟩
      have hsignals : (e.within p l rs).signals = e.signals := rfl
      simp only [apply, hsignals, submit_within, Publisher.deliver_nil, List.append_nil]
  | cancel id =>
      refine ⟨[], fun p l rs => ?_⟩
      simp only [apply, cancel_within, Publisher.deliver_nil, List.append_nil]
  | round => exact ⟨e.announced, fun p l rs => rfl⟩
  | submitSaved id user => cases hruns
  | save s => cases hchanges
  | resave s => cases hchanges
  | unsave id => cases hchanges
  | _ =>
      refine ⟨[], fun p l rs => ?_⟩
      rw [Publisher.deliver_nil, List.append_nil]
      rfl

theorem apply_submitSaved_within (e : Engine) (p : Publisher) (rs : List Event)
    (id user : String) :
    (e.within p e.library rs).apply (.submitSaved id user) =
      ((e.apply (.submitSaved id user)).1.within p e.library rs,
        (e.apply (.submitSaved id user)).2) := by
  have hsaved : (e.within p e.library rs).savedScript id user = e.savedScript id user := rfl
  simp only [apply, submitSaved, hsaved]
  cases e.savedScript id user with
  | ok s => simp only [submit_within]
  | error error => rfl

/-- An operation that changes the library does so, and answers, by the library and the clock
alone. -/
theorem exists_apply_of_changesLibrary (h : operation.changesLibrary = true) :
    ∃ f : Int → Library → Library × Reply, ∀ e : Engine,
      e.apply operation =
        (e.withLibrary (f e.clock e.library).1, (f e.clock e.library).2) := by
  cases operation with
  | save s =>
      refine ⟨fun _ l => l.changed (.saved s) (l.add s), fun e => ?_⟩
      simp only [apply]
      cases e.library.add s <;> rfl
  | resave s =>
      refine ⟨fun now l => l.changed (.saved { s with updatedAt := now }) (l.update s now),
        fun e => ?_⟩
      simp only [apply]
      cases e.library.update s e.clock <;> rfl
  | unsave id =>
      refine ⟨fun _ l => l.changed .done (l.delete id), fun e => ?_⟩
      simp only [apply]
      cases e.library.delete id <;> rfl
  | _ => cases h

/-- An operation that has nothing to do with the library does not notice which one it is. -/
theorem apply_withLibrary (e : Engine) (l : Library) (hchanges : operation.changesLibrary = false)
    (hruns : operation.runsSaved = false) :
    (e.withLibrary l).apply operation =
      ((e.apply operation).1.withLibrary l, (e.apply operation).2) := by
  obtain ⟨es, hes⟩ := e.exists_apply_within hchanges hruns
  have hown : e.apply operation = _ := hes e.publisher e.library e.received
  have hother : (e.withLibrary l).apply operation = _ := hes e.publisher l e.received
  rw [hother, hown]
  rfl

theorem library_apply (e : Engine) (hchanges : operation.changesLibrary = false) :
    (e.apply operation).1.library = e.library := by
  cases hruns : operation.runsSaved with
  | false =>
      have hown : e.apply operation = _ := e.apply_withLibrary e.library hchanges hruns
      rw [hown]
      rfl
  | true =>
      cases operation with
      | submitSaved id user =>
          have hown : e.apply (.submitSaved id user) = _ :=
            e.apply_submitSaved_within e.publisher e.received id user
          rw [hown]
          rfl
      | _ => cases hruns

end Engine

end FlightScript
