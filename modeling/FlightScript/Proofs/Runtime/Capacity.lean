import FlightScript.Proofs.Runtime.Abstraction

/-!
# Channels that are large enough

A job publishes two events at most, that of its start and that of its end. So a channel that
holds two events for each script that is submitted never makes a task wait, whatever its receiver
does (`neverWaits_of_capacity`), and a runtime with such a channel is an engine
(`after_create_engine_of_capacity`).

What is kept by every step is that the channel has room for the events that the tasks may still
publish, and for those of the scripts that are still to be submitted (`HasRoomFor`).
-/

namespace FlightScript

/-- Nobody stands in the line of a channel, and it takes a number of events. -/
def Sink.HasRoom (n : Nat) : Sink → Prop
  | .channel c => c.waiting = [] ∧ c.queue.length + n ≤ c.capacity
  | .closed | .discard => True

/-- The number of events that a task may still publish. -/
def Task.unpublished (t : Task) : Nat :=
  if t.job.status = .queued then 2 else 1

def allUnpublished : List Task → Nat
  | [] => 0
  | t :: rest => t.unpublished + allUnpublished rest

theorem allUnpublished_append (front rest : List Task) :
    allUnpublished (front ++ rest) = allUnpublished front + allUnpublished rest := by
  induction front with
  | nil => exact (Nat.zero_add _).symm
  | cons t front ih =>
      rw [List.cons_append, allUnpublished, allUnpublished, ih, Nat.add_assoc]

theorem allUnpublished_map {f : Task → Task} (h : ∀ t, (f t).unpublished = t.unpublished)
    (tasks : List Task) : allUnpublished (tasks.map f) = allUnpublished tasks := by
  induction tasks with
  | nil => rfl
  | cons t rest ih => rw [List.map_cons, allUnpublished, allUnpublished, h, ih]

namespace Sink.HasRoom

variable {s s' : Sink} {es : List Event} {n m : Nat}

theorem mono (h : s.HasRoom n) (hle : m ≤ n) : s.HasRoom m := by
  cases s with
  | channel c => exact ⟨h.1, Nat.le_trans (Nat.add_le_add_left hle _) h.2⟩
  | closed => trivial
  | discard => trivial

theorem publish (h : s.HasRoom (n + 1)) (e : Event) :
    (s.publish e).2 ≠ none ∧ (s.publish e).1.HasRoom n := by
  cases s with
  | channel c =>
      obtain ⟨hwaiting, hlength⟩ := h
      have hroom : c.hasRoom e.job := by
        rw [Channel.hasRoom, hwaiting, decide_eq_true_eq]
        exact Nat.lt_of_lt_of_le (Nat.lt_add_of_pos_right (Nat.succ_pos n)) hlength
      simp only [Sink.publish, hroom, if_true]
      refine ⟨Option.some_ne_none _, by simp [Channel.send, hwaiting], ?_⟩
      rw [Channel.send, List.length_append, Nat.add_assoc, Nat.add_comm _ n]
      exact hlength
  | closed => exact ⟨Option.some_ne_none _, trivial⟩
  | discard => exact ⟨Option.some_ne_none _, trivial⟩

theorem takes (h : s.HasRoom (n + es.length)) (htakes : s.Takes es s') : s'.HasRoom n := by
  cases htakes with
  | nil => exact h
  | @single e s' result hpublish =>
      have hroom := (publish h e).2
      rwa [hpublish] at hroom

theorem receive (h : s.HasRoom n) : s.receive.HasRoom n := by
  cases s with
  | channel c =>
      refine ⟨h.1, Nat.le_trans (Nat.add_le_add_right ?_ n) h.2⟩
      rw [Channel.receive, List.length_tail]
      exact Nat.sub_le _ 1
  | closed => trivial
  | discard => trivial

end Sink.HasRoom

namespace Task

variable {t : Task} {step : Float} {now : Int} {cancelled : Bool} {s s' : Sink} {p : Polled}
  {n : Nat}

theorem unpublished_pos (t : Task) : 1 ≤ t.unpublished := by
  rw [unpublished]
  split <;> decide

theorem length_opening (ht : t.phase = .ready) (now : Int) :
    (t.opening now).length + 1 = t.unpublished := by
  have hopening : t.opening now = (t.run.begin now).2 := by rw [opening, ht]
  have hjob : t.job = t.run.job := rfl
  rw [hopening, Run.begin, unpublished, hjob]
  split <;> rfl

/-- A task need not wait if there is room for its events, and there is still room for the events
that are left to it. -/
theorem Polls.hasRoom (h : t.Polls step now cancelled s (p, s')) (ht : t.phase = .ready)
    {statements : List Statement} (hreach : t.Reaches step statements)
    (hroom : s.HasRoom (n + t.unpublished)) :
    (∀ t' ∈ p.task?, t'.phase = .ready) ∧ s'.HasRoom (n + allUnpublished p.task?.toList) := by
  have hopening : s.HasRoom (n + 1 + (t.opening now).length) := by
    rw [← length_opening ht now] at hroom
    exact hroom.mono (by omega)
  cases h with
  | starting hopen hwait =>
      have hone : s.HasRoom (n + 1) := hroom.mono (Nat.add_le_add_left t.unpublished_pos n)
      exact absurd hwait (hone.publish _).1
  | @running r s' hopen hturn htakes =>
      have hrunning : r.job.status = .running :=
        ((hreach.run_reaches hopen).executed_of_turn (congrArg Prod.fst hturn)).2.2
      have hone : (⟨r, .ready⟩ : Task).unpublished = 1 :=
        if_neg fun hq => by cases hrunning.symm.trans hq
      refine ⟨fun t' ht' => Option.some.inj ht' ▸ rfl, ?_⟩
      have hleft : allUnpublished (Polled.pending ⟨r, .ready⟩).task?.toList = 1 := hone
      rw [hleft]
      exact hopening.takes htakes
  | settled hopen hturn he htakes hwait =>
      exact absurd hwait ((hopening.takes htakes).publish _).1
  | @ended j events s' s'' hopen hturn hevents htakes hclose =>
      have hlength : events.length ≤ 1 := by
        cases hclose with
        | nil => exact Nat.zero_le 1
        | single => exact Nat.le_refl 1
      refine ⟨fun t' ht' => (by cases ht'), ?_⟩
      exact ((hopening.takes htakes).mono (Nat.add_le_add_left hlength n)).takes hclose
  | closing hclosing => cases ht.symm.trans hclosing
  | returned hclosing => cases ht.symm.trans hclosing

end Task

namespace Runtime

def Step.submissions : Step → Nat
  | .submit .. => 1
  | _ => 0

def submissions : List Step → Nat
  | [] => 0
  | s :: rest => s.submissions + submissions rest

def submissionsOf : List Act → Nat
  | [] => 0
  | .call (.submit ..) :: rest | .call (.submitSaved ..) :: rest => submissionsOf rest + 1
  | _ :: rest => submissionsOf rest

/-- No task waits, and there is room for the events of the tasks, and for those of a number of
further jobs. -/
structure HasRoomFor (rt : Runtime) (n : Nat) : Prop where
  allReady : rt.AllReady
  hasRoom : rt.sink.HasRoom (2 * n + allUnpublished rt.tasks)

variable {rt : Runtime} {id : JobId} {n : Nat} {s : Step} {steps : List Step}

namespace HasRoomFor

theorem mono (h : rt.HasRoomFor n) {m : Nat} (hle : m ≤ n) : rt.HasRoomFor m :=
  ⟨h.allReady, h.hasRoom.mono (by omega)⟩

theorem submit (h : rt.HasRoomFor (n + 1)) (text user : String) (script : Option String)
    (follows : Option Nat) : (rt.submit text user script follows).1.HasRoomFor n := by
  cases hv : (validate text).isValid with
  | false =>
      rw [submit_of_not_valid hv]
      exact ⟨h.allReady, (h.mono (Nat.le_succ n)).hasRoom⟩
  | true =>
      rw [submit_of_valid hv]
      refine ⟨fun t ht => ?_, ?_⟩
      · rcases List.mem_append.1 ht with hold | hnew
        · exact h.allReady t hold
        · exact List.mem_singleton.1 hnew ▸ rfl
      · have htwo : ∀ r : Run, r.job.status = .queued → (Task.create r).unpublished = 2 :=
          fun r hr => if_pos hr
        have hroom := h.hasRoom
        rw [register, allUnpublished_append, allUnpublished, allUnpublished, htwo _ rfl]
        dsimp only
        exact hroom.mono (by omega)

theorem poll (h : rt.HasRoomFor n) (hrt : rt.Sound) (id : JobId) : (rt.poll id).HasRoomFor n := by
  cases hf : rt.find? id with
  | none => rwa [poll_eq_self hf]
  | some t =>
      obtain ⟨ht, rfl⟩ := of_find?_eq_some hf
      obtain ⟨front, rest, htasks⟩ := List.append_of_mem ht
      obtain ⟨statements, hreach⟩ := hrt.exists_reaches t ht
      have hroom : rt.sink.HasRoom
          (2 * n + allUnpublished front + allUnpublished rest + t.unpublished) := by
        have hall := h.hasRoom
        rw [htasks, allUnpublished_append, allUnpublished] at hall
        exact hall.mono (by omega)
      obtain ⟨hready, hleft⟩ :=
        (hrt.polls_of_eq hf rfl).hasRoom (h.allReady t ht) hreach hroom
      have hid : (rt.pollTask t).1.job.id = t.id := congrArg Prod.fst (hrt.origin_pollTask hf)
      have hput := ({ rt with sink := (rt.pollTask t).2 }.put_middle hrt.nodup_taskIds htasks hid).1
      have hsink : (rt.poll t.id).sink = (rt.pollTask t).2 := by
        rw [poll_eq hf]
        cases (rt.pollTask t).1 <;> rfl
      rw [← poll_eq hf] at hput
      refine ⟨fun u hu => ?_, ?_⟩
      · rw [hput, List.append_assoc, List.mem_append, List.mem_append] at hu
        rcases hu with hfront | hnew | hrest
        · exact h.allReady u (htasks ▸ List.mem_append_left _ hfront)
        · exact hready u (Option.mem_toList.1 hnew)
        · exact h.allReady u (htasks ▸ List.mem_append_right _ (List.mem_cons_of_mem _ hrest))
      · rw [hput, hsink, allUnpublished_append, allUnpublished_append]
        exact hleft.mono (by omega)

theorem cancel (h : rt.HasRoomFor n) (id : JobId) : (rt.cancel id).1.HasRoomFor n := by
  by_cases hmem : id ∈ rt.cancellations
  · have hsame : ∀ t : Task, (if t.id = id then t.cancel else t).phase = t.phase ∧
        (if t.id = id then t.cancel else t).unpublished = t.unpublished := by
      intro t
      split
      · exact ⟨rfl, rfl⟩
      · exact ⟨rfl, rfl⟩
    rw [Runtime.cancel, if_pos hmem]
    refine ⟨fun u hu => ?_, ?_⟩
    · obtain ⟨t, ht, rfl⟩ := List.mem_map.1 hu
      exact (hsame t).1.trans (h.allReady t ht)
    · rw [allUnpublished_map fun t => (hsame t).2]
      exact h.hasRoom
  · rwa [Runtime.cancel, if_neg hmem]

/-- A step leaves room for the jobs that are still to come. -/
theorem step (h : rt.HasRoomFor (s.submissions + n)) (hrt : rt.Sound) :
    (rt.step s).HasRoomFor n := by
  have hn : rt.HasRoomFor n := h.mono (Nat.le_add_left n _)
  cases s with
  | submit text user script follows =>
      exact submit (Nat.add_comm 1 n ▸ h) text user script follows
  | poll id => exact hn.poll hrt id
  | receive => exact ⟨hn.allReady, hn.hasRoom.receive⟩
  | cancel id => exact hn.cancel id
  | claim id => exact ⟨hn.allReady, hn.hasRoom⟩
  | collect id =>
      rw [Runtime.step, collect]
      split
      · exact hn
      · exact ⟨hn.allReady, hn.hasRoom⟩
  | environment signals library clock => exact ⟨hn.allReady, hn.hasRoom⟩

theorem neverWaits (h : rt.HasRoomFor (submissions steps)) (hrt : rt.Sound) :
    rt.NeverWaits steps := by
  induction steps generalizing rt with
  | nil => trivial
  | cons s rest ih =>
      have hstep : (rt.step s).HasRoomFor (submissions rest) := step h hrt
      exact ⟨hstep.allReady, ih hstep (hrt.step s)⟩

end HasRoomFor

/-! ### Histories -/

theorem submissions_append (front rest : List Step) :
    submissions (front ++ rest) = submissions front + submissions rest := by
  induction front with
  | nil => exact (Nat.zero_add _).symm
  | cons s front ih => rw [List.cons_append, submissions, submissions, ih, Nat.add_assoc]

theorem submissions_eq_zero (h : ∀ s ∈ steps, s.submissions = 0) : submissions steps = 0 := by
  induction steps with
  | nil => rfl
  | cons s rest ih =>
      rw [List.forall_mem_cons] at h
      rw [submissions, h.1, Nat.zero_add]
      exact ih h.2

theorem submissions_actSteps (rt : Runtime) (a : Act) (rest : List Act) :
    submissions (rt.actSteps a) + submissionsOf rest ≤ submissionsOf (a :: rest) := by
  cases a with
  | receive => exact Nat.le_of_eq (Nat.zero_add _)
  | call operation =>
      rw [actSteps]
      cases operation with
      | submit text user script follows => exact Nat.le_of_eq (Nat.add_comm 1 _)
      | submitSaved saved user =>
          rw [callSteps]
          cases rt.engine.savedScript saved user with
          | ok script => exact Nat.le_of_eq (Nat.add_comm 1 _)
          | error e => exact Nat.le_trans (Nat.le_of_eq (Nat.zero_add _)) (Nat.le_succ _)
      | wait id =>
          have hzero : submissions (rt.callSteps (.wait id)) = 0 := by
            rw [callSteps]
            split
            · refine submissions_eq_zero fun s hs => ?_
              rcases mem_waitSteps_cases hs with rfl | ⟨other, rfl⟩ | rfl <;> rfl
            · rfl
          exact Nat.le_of_eq (hzero ▸ Nat.zero_add _)
      | round =>
          have hzero : submissions rt.roundSteps = 0 := submissions_eq_zero fun s hs => by
            obtain ⟨t, -, rfl⟩ := List.mem_map.1 hs
            rfl
          exact Nat.le_of_eq (hzero ▸ Nat.zero_add _)
      | _ => exact Nat.le_of_eq (Nat.zero_add _)

theorem submissions_trace (rt : Runtime) (history : List Act) :
    submissions (rt.trace history) ≤ submissionsOf history := by
  induction history generalizing rt with
  | nil => exact Nat.le_refl 0
  | cons a rest ih =>
      rw [trace, submissions_append]
      exact Nat.le_trans (Nat.add_le_add_left (ih _) _) (rt.submissions_actSteps a rest)

/-- No task has to wait while the channel holds two events for each script that is submitted, even
if none is received. -/
theorem neverWaits_of_capacity (step : Float) (usesLibrary : Bool) {capacity : Nat}
    {history : List Act} (h : 2 * submissionsOf history ≤ capacity) :
    let start := create step (.channel (.create capacity)) usesLibrary
    start.NeverWaits (start.trace history) := by
  intro start
  have hroom : start.HasRoomFor (submissionsOf history) :=
    ⟨fun t ht => (by cases ht), rfl, Nat.le_trans (Nat.le_of_eq (Nat.zero_add _)) h⟩
  exact (hroom.mono (start.submissions_trace history)).neverWaits (Sound.of_create ..)

/-- A runtime whose channel holds two events for each script that is submitted does what an engine
does. -/
theorem after_create_engine_of_capacity (step : Float) (usesLibrary : Bool) {capacity : Nat}
    {history : List Act} (h : 2 * submissionsOf history ≤ capacity) :
    let start := create step (.channel (.create capacity)) usesLibrary
    let e := Engine.create step .channel usesLibrary
    (start.after history).engine = e.after (calls history) ∧
      start.answers history = (e.answers (calls history)).map some :=
  after_create_engine step _ usesLibrary history rfl (neverWaits_of_capacity step usesLibrary h)

end Runtime

end FlightScript
