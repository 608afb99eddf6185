import FlightScript.Engine.Error
import FlightScript.Proofs.Run.Ending

/-!
# The life of a job

What the record of a job can be told is a `Job.Request`: to move to a status, or to note a
time of its start or its end. Requests come in any order and any number. The moves that are
not refused make up a course (`IsCourse`), of which there are a few only, and a move is
refused just if no course goes on with it. The invariant behind this is `HasTaken`: the
statuses so far are a course, and the job is in the last one. The times do not depend on the
moves. Each is the one noted last, and the elapsed time is taken when an end is noted, from
the start that stands in the record then.
-/

namespace FlightScript

namespace Status

/-- The statuses that a job goes through, from its first one on. -/
inductive IsCourse : List Status → Prop where
  | queued : IsCourse [.queued]
  | running : IsCourse [.queued, .running]
  | ended {last : Status} (h : last ∈ [.completed, .failed, .cancelled]) :
      IsCourse [.queued, .running, last]
  | failed : IsCourse [.queued, .failed]
  | cancelled : IsCourse [.queued, .cancelled]

theorem isFinal_iff_mem {s : Status} :
    s.isFinal ↔ s ∈ [Status.completed, .failed, .cancelled] := by
  cases s <;> decide

theorem not_canBecome_of_isFinal {s next : Status} (h : s.isFinal) : ¬ s.canBecome next :=
  Bool.eq_false_iff.1 (canBecome_of_isFinal h next)

namespace IsCourse

variable {course : List Status} {current next : Status}

theorem length_le (h : IsCourse course) : course.length ≤ 3 := by
  cases h <;> simp only [List.length_cons, List.length_nil] <;> omega

/-- A job is completed only after it was running. -/
theorem eq_of_completed_mem (h : IsCourse course) (hmem : .completed ∈ course) :
    course = [.queued, .running, .completed] := by
  cases h with
  | ended hlast =>
      simp only [List.mem_cons, reduceCtorEq, List.not_mem_nil, or_false, false_or] at hmem
      rw [hmem]
  | _ => exact absurd hmem (by decide)

theorem queued_append_iff : IsCourse [.queued, next] ↔ Status.queued.canBecome next := by
  constructor
  · intro h
    cases h with
    | running | failed | cancelled => rfl
  · intro h
    cases next with
    | running => exact .running
    | failed => exact .failed
    | cancelled => exact .cancelled
    | _ => cases h

theorem running_append_iff :
    IsCourse [.queued, .running, next] ↔ Status.running.canBecome next := by
  constructor
  · intro h
    cases h with
    | ended hlast => exact isFinal_iff_mem.2 hlast
  · exact fun h => .ended (isFinal_iff_mem.1 h)

/-- A course goes on with just the statuses that a job in its last one can move to. -/
theorem append_singleton_iff (h : IsCourse course) (hlast : course.getLast? = some current) :
    IsCourse (course ++ [next]) ↔ current.canBecome next := by
  cases h with
  | queued =>
      cases hlast
      exact queued_append_iff
  | running =>
      cases hlast
      exact running_append_iff
  | @ended last hfinal =>
      -- no course is longer than this one, and a job in a final status does not move
      obtain rfl : last = current := Option.some.inj hlast
      exact iff_of_false (fun hlong => absurd hlong.length_le (Nat.not_succ_le_self 3))
        (not_canBecome_of_isFinal (isFinal_iff_mem.2 hfinal))
  | failed | cancelled =>
      cases hlast
      exact iff_of_false (fun hlong => by cases hlong) Bool.false_ne_true

end IsCourse

end Status

namespace Job

inductive Request where
  /-- Move to a status. -/
  | move (next : Status)
  /-- Note a time of the start. -/
  | start (time : Int)
  /-- Note a time of the end. -/
  | complete (time : Int)
  deriving DecidableEq

def Request.start? : Request → Option Int
  | .start time => some time
  | _ => none

def lastStart? (requests : List Request) : Option Int :=
  (requests.filterMap Request.start?).getLast?

/-- The job after a request, and why it was refused, if it was. -/
def serve (j : Job) : Request → Job × Option EngineError
  | .move next =>
    match j.transition next with
    | .ok moved => (moved, none)
    | .error refused => (j, some (.refusedTransition refused))
  | .start time => (j.start time, none)
  | .complete time => (j.complete time, none)

/-- The job after some requests, of which any may be refused. -/
def after (j : Job) (requests : List Request) : Job :=
  requests.foldl (fun j request => (j.serve request).1) j

/-- The status that a request moves the job to, if it does. -/
def reached? (j : Job) : Request → Option Status
  | .move next => if (j.serve (.move next)).2 = none then some next else none
  | _ => none

def accepted (j : Job) : List Request → List Status
  | [] => []
  | request :: rest => (j.reached? request).toList ++ (j.serve request).1.accepted rest

/-- Some statuses are a course, and the job is in the last of them. -/
structure HasTaken (j : Job) (course : List Status) : Prop where
  isCourse : Status.IsCourse course
  getLast?_eq : course.getLast? = some j.status

/-- A job that has gone through some statuses moves on along a course. Any other move is
refused, as a problem with the state of the job, and changes nothing in the record. -/
structure KeepsTo (j : Job) (course : List Status) : Prop where
  serve_of_isCourse : ∀ next, Status.IsCourse (course ++ [next]) →
    j.serve (.move next) = ({ j with status := next }, none)
  serve_of_not_isCourse : ∀ next, ¬ Status.IsCourse (course ++ [next]) →
    ∃ e : EngineError, j.serve (.move next) = (j, some e) ∧
      e.problem = ⟨.state, RefusedTransition.message ⟨j.id, j.status, next⟩⟩

/-- The record holds the times that were noted last. What it says to have elapsed is the time
from the last start before the last end, or nothing if there is none. -/
structure Tells (j : Job) (requests : List Request) : Prop where
  startedAt_eq : j.startedAt = lastStart? requests
  of_last : ∀ front time rest, requests = front ++ .complete time :: rest →
    (∀ other, .complete other ∉ rest) →
    j.completedAt = some time ∧
      (∀ started, lastStart? front = some started → j.elapsed = time - started) ∧
      (lastStart? front = none → j.elapsed = 0)
  of_none : (∀ time, .complete time ∉ requests) → j.completedAt = none ∧ j.elapsed = 0

variable {j : Job} {course : List Status} {requests : List Request}

theorem after_cons (j : Job) (request : Request) (rest : List Request) :
    j.after (request :: rest) = (j.serve request).1.after rest := rfl

theorem after_append (j : Job) (front rest : List Request) :
    j.after (front ++ rest) = (j.after front).after rest :=
  List.foldl_append ..

/-- What none of some requests changes is the same after all of them. -/
theorem after_eq_of_forall {α : Type} (g : Job → α)
    (h : ∀ request ∈ requests, ∀ j : Job, g (j.serve request).1 = g j) (j : Job) :
    g (j.after requests) = g j := by
  induction requests generalizing j with
  | nil => rfl
  | cons request rest ih =>
      rw [after_cons, ih fun other hmem => h other (List.mem_cons_of_mem _ hmem)]
      exact h request List.mem_cons_self j

/-! ### Moves -/

/-- A move is made, and changes the status only, or it is refused and changes nothing. -/
theorem serve_move_cases (j : Job) (next : Status) :
    (j.status.canBecome next ∧ j.serve (.move next) = ({ j with status := next }, none)) ∨
      (¬ j.status.canBecome next ∧
        j.serve (.move next) = (j, some (.refusedTransition ⟨j.id, j.status, next⟩))) := by
  by_cases h : j.status.canBecome next
  · exact Or.inl ⟨h, by simp [serve, transition, h]⟩
  · exact Or.inr ⟨h, by simp [serve, transition, h]⟩

/-- A request leads to a status that the job can move to, or it leaves the status alone. -/
theorem reached?_cases (j : Job) (request : Request) :
    (∃ next, j.reached? request = some next ∧ j.status.canBecome next ∧
      (j.serve request).1.status = next) ∨
    (j.reached? request = none ∧ (j.serve request).1.status = j.status) := by
  cases request with
  | move next =>
      rcases j.serve_move_cases next with ⟨hcan, hserve⟩ | ⟨-, hserve⟩
      · exact Or.inl ⟨next, by rw [reached?, hserve, if_pos rfl], hcan, by rw [hserve]⟩
      · exact Or.inr ⟨by rw [reached?, hserve, if_neg (by simp)], by rw [hserve]⟩
  | start time | complete time => exact Or.inr ⟨rfl, rfl⟩

theorem hasTaken_create (id : JobId) (user : String) (script : Option String) :
    (create id user script).HasTaken [.queued] :=
  ⟨.queued, rfl⟩

theorem HasTaken.isCourse_append_iff (h : j.HasTaken course) {next : Status} :
    Status.IsCourse (course ++ [next]) ↔ j.status.canBecome next :=
  h.isCourse.append_singleton_iff h.getLast?_eq

theorem HasTaken.serve (h : j.HasTaken course) (request : Request) :
    (j.serve request).1.HasTaken (course ++ (j.reached? request).toList) := by
  rcases j.reached?_cases request with ⟨next, hnext, hcan, hstatus⟩ | ⟨hnone, hstatus⟩
  · rw [hnext, Option.toList_some]
    exact ⟨h.isCourse_append_iff.2 hcan, by rw [List.getLast?_concat, hstatus]⟩
  · rw [hnone, Option.toList_none, List.append_nil]
    exact ⟨h.isCourse, by rw [h.getLast?_eq, hstatus]⟩

theorem HasTaken.after (h : j.HasTaken course) (requests : List Request) :
    (j.after requests).HasTaken (course ++ j.accepted requests) := by
  induction requests generalizing j course with
  | nil =>
      rw [accepted, List.append_nil]
      exact h
  | cons request rest ih =>
      rw [after_cons, accepted, ← List.append_assoc]
      exact ih (h.serve request)

theorem HasTaken.keepsTo (h : j.HasTaken course) : j.KeepsTo course where
  serve_of_isCourse := by
    intro next hnext
    rcases j.serve_move_cases next with ⟨-, hserve⟩ | ⟨hcannot, -⟩
    · exact hserve
    · exact absurd (h.isCourse_append_iff.1 hnext) hcannot
  serve_of_not_isCourse := by
    intro next hnext
    rcases j.serve_move_cases next with ⟨hcan, -⟩ | ⟨-, hserve⟩
    · exact absurd (h.isCourse_append_iff.2 hcan) hnext
    · exact ⟨_, hserve, rfl⟩

theorem status_serve_of_isFinal (h : j.status.isFinal) (request : Request) :
    (j.serve request).1.status = j.status := by
  rcases j.reached?_cases request with ⟨next, -, hcan, -⟩ | ⟨-, hstatus⟩
  · exact absurd hcan (Status.not_canBecome_of_isFinal h)
  · exact hstatus

theorem status_after_of_isFinal (h : j.status.isFinal) (requests : List Request) :
    (j.after requests).status = j.status := by
  induction requests generalizing j with
  | nil => rfl
  | cons request rest ih =>
      have hstatus := status_serve_of_isFinal h request
      rw [after_cons, ih (by rwa [hstatus]), hstatus]

theorem serve_move_of_isFinal (h : j.status.isFinal) (next : Status) :
    ∃ e, j.serve (.move next) = (j, some e) := by
  rcases j.serve_move_cases next with ⟨hcan, -⟩ | ⟨-, hserve⟩
  · exact absurd hcan (Status.not_canBecome_of_isFinal h)
  · exact ⟨_, hserve⟩

/-! ### Times -/

theorem serve_move_fst (j : Job) (next : Status) :
    (j.serve (.move next)).1 = j.settle next := by
  rw [serve, settle]
  cases j.transition next <;> rfl

theorem times_serve_move (j : Job) (next : Status) :
    (j.serve (.move next)).1.times = j.times := by
  rw [serve_move_fst, times_settle]

theorem startedAt_serve (j : Job) (request : Request) :
    (j.serve request).1.startedAt = request.start?.or j.startedAt := by
  cases request with
  | move next => exact congrArg Prod.fst (j.times_serve_move next)
  | start time | complete time => rfl

theorem lastStart?_cons (request : Request) (rest : List Request) :
    lastStart? (request :: rest) = (lastStart? rest).or request.start? := by
  unfold lastStart?
  cases h : request.start? with
  | none => rw [List.filterMap_cons_none h, Option.or_none]
  | some time => rw [List.filterMap_cons_some h, List.getLast?_cons, Option.or_some]

theorem startedAt_after (j : Job) (requests : List Request) :
    (j.after requests).startedAt = (lastStart? requests).or j.startedAt := by
  induction requests generalizing j with
  | nil => rfl
  | cons request rest ih =>
      rw [after_cons, ih, startedAt_serve, lastStart?_cons, Option.or_assoc]

/-- Without another end the last end and the elapsed time stay as they are. -/
theorem end_after (h : ∀ time, .complete time ∉ requests) (j : Job) :
    (j.after requests).completedAt = j.completedAt ∧ (j.after requests).elapsed = j.elapsed := by
  have hrequest : ∀ request ∈ requests, ∀ j : Job, (j.serve request).1.times.2 = j.times.2 := by
    intro request hmem j
    cases request with
    | move next => exact congrArg Prod.snd (j.times_serve_move next)
    | start time => rfl
    | complete time => exact absurd hmem (h time)
  exact Prod.ext_iff.1 (after_eq_of_forall (fun j => j.times.2) hrequest j)

theorem tells_create (id : JobId) (user : String) (script : Option String)
    (requests : List Request) : ((create id user script).after requests).Tells requests where
  startedAt_eq := (startedAt_after ..).trans Option.or_none
  of_last := by
    -- the elapsed time is taken between `front` and `rest`, and `rest` does not change it
    rintro front time rest rfl hrest
    have hstarted : ((create id user script).after front).startedAt = lastStart? front :=
      (startedAt_after ..).trans Option.or_none
    obtain ⟨hcompleted, helapsed⟩ :=
      end_after hrest ((((create id user script).after front).serve (.complete time)).1)
    rw [after_append, after_cons]
    refine ⟨hcompleted, fun started h => ?_, fun h => ?_⟩
    all_goals
      rw [helapsed, serve, complete, hstarted, h]
      rfl
  of_none := fun hnone => end_after hnone _

/-! ### The whole record -/

def withoutProgress (j : Job) : Job :=
  { j with status := .queued, startedAt := none, completedAt := none, elapsed := 0 }

theorem withoutProgress_after (j : Job) (requests : List Request) :
    (j.after requests).withoutProgress = j.withoutProgress := by
  refine after_eq_of_forall withoutProgress (fun request _ j => ?_) j
  cases request with
  | move next =>
      rcases j.serve_move_cases next with ⟨-, hserve⟩ | ⟨-, hserve⟩ <;> rw [hserve]
      rfl
  | start time | complete time => rfl

/-- The record of a new job after any requests. The moves that were not refused are the rest of
a course, so that there are at most two of them, and a job is completed only after it was
running. A move is refused just if no course goes on with it, which leaves the record as it is;
so a job that has ended is never moved again. No move touches the times, noting a time does not
touch the status, and neither touches anything else. The times are the ones noted last, and the
elapsed time is the one between the last end and the last start that was noted before it. -/
theorem record_after (id : JobId) (user : String) (script : Option String)
    (requests : List Request) :
    let new := create id user script
    let j := new.after requests
    let accepted := new.accepted requests
    j.HasTaken (.queued :: accepted) ∧ accepted.length ≤ 2 ∧
    (.completed ∈ accepted → accepted = [.running, .completed]) ∧
    j.KeepsTo (.queued :: accepted) ∧
    (j.status ∈ [.completed, .failed, .cancelled] → ∀ more,
      (j.after more).status = j.status ∧
        ∀ next, ∃ e, (j.after more).serve (.move next) = (j.after more, some e)) ∧
    (∀ next, (j.serve (.move next)).1.times = j.times) ∧
    (∀ time, (j.serve (.start time)).1.status = j.status ∧
      (j.serve (.complete time)).1.status = j.status) ∧
    j.withoutProgress = new ∧ j.Tells requests := by
  intro new j accepted
  have htaken : j.HasTaken (.queued :: accepted) := (hasTaken_create id user script).after requests
  refine ⟨htaken, Nat.le_of_succ_le_succ htaken.isCourse.length_le, fun hmem => ?_,
    htaken.keepsTo, fun hended more => ?_, j.times_serve_move, fun _ => ⟨rfl, rfl⟩,
    withoutProgress_after new requests, tells_create id user script requests⟩
  · exact List.tail_eq_of_cons_eq
      (htaken.isCourse.eq_of_completed_mem (List.mem_cons_of_mem _ hmem))
  · have hstatus := status_after_of_isFinal (Status.isFinal_iff_mem.2 hended) more
    refine ⟨hstatus, serve_move_of_isFinal ?_⟩
    rw [hstatus]
    exact Status.isFinal_iff_mem.2 hended

/-- A job that is asked to go ways that there are not, and whose times are noted in a strange
order: two starts before the end, and one after it. -/
theorem record_after_refused_moves :
    let requests : List Request := [.complete 5, .move .completed, .start 10, .move .running,
      .start 20, .move .queued, .complete 270, .start 1000, .move .failed]
    let new := create (.numbered 0) "ann" none
    let j := new.after requests
    new.accepted requests = [.running, .failed] ∧ j.status = .failed ∧
      j.startedAt = some 1000 ∧ j.completedAt = some 270 ∧ j.elapsed = 250 ∧
      ∃ e, (j.after [.complete 2000]).serve (.move .failed) =
        (j.after [.complete 2000], some e) := by
  intro requests new j
  obtain ⟨htaken, -, -, -, hended, -, -, -, htells⟩ :=
    record_after (.numbered 0) "ann" none requests
  have haccepted : new.accepted requests = [.running, .failed] := by decide +kernel
  have hstatus : j.status = .failed := by
    have hlast := htaken.getLast?_eq
    rw [haccepted] at hlast
    exact (Option.some.inj hlast).symm
  obtain ⟨hcompleted, helapsed, -⟩ := htells.of_last
    [.complete 5, .move .completed, .start 10, .move .running, .start 20, .move .queued] 270
    [.start 1000, .move .failed] rfl (by simp)
  refine ⟨haccepted, hstatus, htells.startedAt_eq.trans (by decide), hcompleted,
    helapsed 20 (by decide), ?_⟩
  exact (hended (by rw [hstatus]; decide) [.complete 2000]).2 .failed

end Job

end FlightScript
