import FlightScript.Proofs.Engine.Roster
import FlightScript.Proofs.Engine.Signal

/-!
# Why a token is cancelled

The token of a job is cancelled by a cancellation of that job, or by the signal under
which the job was started, whether that is raised before or after the start. Nothing goes
up or sideways: the cancellation of a job leaves all signals and all other jobs as they
are, and a signal reaches the jobs that were started under it and no others.
-/

namespace FlightScript

def Operation.parent? : Operation → Option String
  | .submit _ _ _ follows => follows
  | _ => none

/-- The signal for which a name stands after the operations `before` is raised by them or
by the operations `since`. -/
def RaisesLast (name : String) (before since : List Operation) : Prop :=
  ∃ made later, before = made ++ .createSignal name :: later ∧ .createSignal name ∉ later ∧
    Raises name (later ++ since)

namespace Engine

variable {e : Engine} {id : JobId} {queued : Job}

theorem followed?_eq (e : Engine) (operation : Operation) :
    e.followed? operation = operation.parent?.bind e.signals.find? := by
  cases operation <;> rfl

theorem cancel_mem_moves_iff {operation : Operation} :
    Move.cancel id ∈ e.moves operation ↔ operation = .cancel id := by
  cases operation with
  | submitSaved other user => cases hs : e.savedScript other user <;> simp [moves, hs]
  | save s => cases hl : e.library.add s <;> simp [moves, libraryMoves, hl]
  | resave s => cases hl : e.library.update s e.clock <;> simp [moves, libraryMoves, hl]
  | unsave other => cases hl : e.library.delete other <;> simp [moves, libraryMoves, hl]
  | cancel other => simp [moves, eq_comm]
  | _ => simp [moves]

theorem cancel_mem_trace_iff {history : List Operation} :
    Move.cancel id ∈ e.trace history ↔ Operation.cancel id ∈ history := by
  induction history generalizing e with
  | nil => simp [trace]
  | cons operation rest ih =>
      rw [trace, List.mem_append, ih, cancel_mem_moves_iff, List.mem_cons, eq_comm]

/-- The signal for which a name stands in an engine is raised after some operations just if
it is raised before them or by them. -/
theorem isRaised_after_iff_raisesLast {start : Engine} (hstart : start.signals.NamesMade)
    {name : String} (hnew : start.signals.find? name = none) (before since : List Operation) :
    (∃ n, (start.after before).signals.find? name = some n ∧
      (start.after (before ++ since)).signals.isRaised n) ↔ RaisesLast name before since := by
  have hmade : ∀ made later, ((start.after (made ++ .createSignal name :: later ++ since)
      ).signals.isRaised (start.after made).signals.states.length ↔
        Raises name (later ++ since)) := by
    intro made later
    rw [List.append_assoc, after_append, List.cons_append]
    exact isRaised_of_createSignal (namesMade_after hstart made) name _
  constructor
  · rintro ⟨n, hfind, hraised⟩
    rcases find?_after_eq_some_iff.1 hfind with ⟨-, hold⟩ | ⟨made, later, rfl, hlast, rfl⟩
    · rw [hnew] at hold
      cases hold
    · exact ⟨made, later, rfl, hlast, (hmade made later).1 hraised⟩
  · rintro ⟨made, later, rfl, hlast, hraises⟩
    exact ⟨_, find?_after_eq_some_iff.2 (Or.inr ⟨made, later, rfl, hlast, rfl⟩),
      (hmade made later).2 hraises⟩

theorem apply_cancel_of_mem_active {r : Run} (hr : r ∈ e.active) (hid : r.job.id = id) :
    (e.apply (.cancel id)).2 = .done := by
  have hfind : e.find? id ≠ none := fun h => find?_eq_none_iff.1 h r hr hid
  obtain ⟨r', hr'⟩ := Option.ne_none_iff_exists'.1 hfind
  simp [apply, cancel, hr', Reply.ofExcept]

theorem isRaised_iff {name : String} :
    e.isRaised name ↔ ∃ n, e.signals.find? name = some n ∧ e.signals.isRaised n := by
  rw [isRaised, Option.any_eq_true]

theorem signals_apply_of_started? {operation : Operation}
    (h : e.started? operation = some queued) :
    (e.apply operation).1.signals = e.signals := by
  apply signals_apply
  · rintro name rfl
    simp [started?, submitted?] at h
  · rintro name rfl
    simp [started?, submitted?] at h

/-- The token of a job that was started has been cancelled just if the job was cancelled
since, or the signal under which it was started is raised. -/
theorem isCancelled_iff_of_started? (he : e.Numbered) {submission : Operation}
    (hs : e.started? submission = some queued) (rest : List Operation) {r : Run}
    (hr : r ∈ (e.after (submission :: rest)).active) (hid : r.job.id = queued.id) :
    r.token.follows = e.followed? submission ∧
      ((e.after (submission :: rest)).isCancelled r ↔
        (∃ front back, rest = front ++ .cancel queued.id :: back ∧
          ((e.after (submission :: front)).apply (.cancel queued.id)).2 = .done) ∨
        ∃ n ∈ e.followed? submission, (e.after (submission :: rest)).signals.isRaised n) := by
  obtain ⟨statements, hqueued⟩ := isQueued_of_started? he hs
  have hasked : ∀ moves, r ∈ ((e.apply submission).1.run moves).active →
      (((e.apply submission).1.run moves).isCancelled r ↔
        (e.apply submission).1.IsAskedToStop queued.id (e.followed? submission) moves) :=
    fun _ hr => hqueued.hasToken.isCancelled_iff hr hid
  rw [after_cons, ← run_trace] at hr ⊢
  obtain ⟨t, ht, hfollows, -⟩ := hqueued.hasToken.run ((e.apply submission).1.trace rest)
  refine ⟨by rw [ht.token_eq r hr hid, hfollows]; rfl, ?_⟩
  rw [hasked _ hr, IsAskedToStop, cancel_mem_trace_iff, List.mem_iff_append]
  refine or_congr_left (exists_congr fun front => exists_congr fun back => ?_)
  rw [iff_self_and]
  -- the job has not ended, so it had not ended when it was cancelled
  rintro rfl
  rw [trace_append, run_append, run_trace] at hr
  have hgiven := HasGiven.run (e := (e.apply submission).1) hqueued.hasToken.exists_number
    ((e.apply submission).1.trace front)
  rw [run_trace] at hgiven
  obtain ⟨r₀, hr₀, hid₀⟩ := hgiven.exists_mem_active hr hid
  exact apply_cancel_of_mem_active hr₀ hid₀

theorem exists_mem_followed?_iff {submission : Operation} {P : Nat → Prop} :
    (∃ n ∈ e.followed? submission, P n) ↔
      ∃ name ∈ submission.parent?, ∃ n, e.signals.find? name = some n ∧ P n := by
  rw [followed?_eq]
  cases submission.parent? <;> simp

theorem apply_cancel_leaves (e : Engine) (id : JobId) :
    (e.apply (.cancel id)).1.signals = e.signals ∧
      ∀ r ∈ e.active, r.job.id ≠ id → r ∈ (e.apply (.cancel id)).1.active ∧
        (e.apply (.cancel id)).1.isCancelled r = e.isCancelled r := by
  have happly : (e.apply (.cancel id)).1 = (e.cancel id).1 := rfl
  rw [happly, cancel_fst]
  exact ⟨rfl, fun r hr hid => ⟨List.mem_map.2 ⟨r, hr, if_neg hid⟩, rfl⟩⟩

theorem isCancelled_apply_raiseSignal (h : e.signals.NamesMade) (name : String) (r : Run) :
    (e.apply (.raiseSignal name)).1.isCancelled r ↔
      e.isCancelled r ∨ ∃ n ∈ r.token.follows, e.signals.find? name = some n := by
  simp only [isCancelled, Token.isCancelled, Bool.or_eq_true, Option.any_eq_true, or_assoc,
    signals_apply_raiseSignal, isRaised_raise_iff h]
  refine or_congr_right ?_
  simp only [and_or_left, exists_or, Option.mem_def]

theorem exists_run_of_started? (he : e.Numbered) {submission : Operation}
    (hs : e.started? submission = some queued) :
    ∃ r ∈ (e.apply submission).1.active, r.job.id = queued.id ∧
      ((e.apply submission).1.isCancelled r ↔ ∃ name ∈ submission.parent?, e.isRaised name) := by
  obtain ⟨statements, hqueued⟩ := isQueued_of_started? he hs
  obtain ⟨r, hr, horigin, -⟩ := hqueued.isUnderWay
  have hid : r.job.id = queued.id := congrArg Prod.fst horigin
  have hcancelled : ((e.apply submission).1.run []).isCancelled r ↔
      (e.apply submission).1.IsAskedToStop queued.id (e.followed? submission) [] :=
    hqueued.hasToken.isCancelled_iff hr hid
  rw [run_nil, IsAskedToStop, run_nil, signals_apply_of_started? hs,
    exists_mem_followed?_iff] at hcancelled
  refine ⟨r, hr, hid, ?_⟩
  simpa [isRaised_iff] using hcancelled

/-- A signal is raised just if that was asked for under the name that stands for it. The
token of a job is cancelled just if a cancellation of the job succeeded or the signal under
which it was started is raised. So a cancellation changes no signal and no other job, and
a signal that is raised reaches the jobs that follow it, those that are started later
among them, and no others. -/
theorem cancelled_after (step : Float) (publisher : Publisher) (usesLibrary : Bool)
    (history : List Operation) :
    let start := create step publisher usesLibrary
    let e := start.after history
    (∀ before name rest, history = before ++ .createSignal name :: rest →
      (e.signals.isRaised (start.after before).signals.states.length ↔ Raises name rest)) ∧
    (∀ name, e.isRaised name ↔ RaisesLast name history []) ∧
    (∀ before submission rest queued, history = before ++ submission :: rest →
      (start.after before).started? submission = some queued →
      ∀ r ∈ e.active, r.job.id = queued.id →
        r.token.follows = submission.parent?.bind (start.after before).signals.find? ∧
        (e.isCancelled r ↔
          (∃ front back, rest = front ++ .cancel queued.id :: back ∧
            ((start.after (before ++ submission :: front)).apply (.cancel queued.id)).2 =
              .done) ∨
          ∃ name ∈ submission.parent?, RaisesLast name before (submission :: rest))) ∧
    (∀ id, (e.apply (.cancel id)).1.signals = e.signals ∧
      ∀ r ∈ e.active, r.job.id ≠ id → r ∈ (e.apply (.cancel id)).1.active ∧
        (e.apply (.cancel id)).1.isCancelled r = e.isCancelled r) ∧
    (∀ name, (e.apply (.raiseSignal name)).1.active = e.active ∧
      ∀ r ∈ e.active, ((e.apply (.raiseSignal name)).1.isCancelled r ↔
        e.isCancelled r ∨ ∃ n ∈ r.token.follows, e.signals.find? name = some n)) ∧
    ∀ submission queued, e.started? submission = some queued →
      ∃ r ∈ (e.apply submission).1.active, r.job.id = queued.id ∧
        ((e.apply submission).1.isCancelled r ↔
          ∃ name ∈ submission.parent?, e.isRaised name) := by
  intro start e
  have hnames : start.signals.NamesMade := namesMade_create step publisher usesLibrary
  have hnumbered : ∀ before, (start.after before).Numbered :=
    (Numbered.of_create step publisher usesLibrary).after
  have hraised : ∀ name before since, (∃ n, (start.after before).signals.find? name = some n ∧
      (start.after (before ++ since)).signals.isRaised n) ↔ RaisesLast name before since :=
    fun _ => isRaised_after_iff_raisesLast hnames rfl
  refine ⟨?_, ?_, ?_, e.apply_cancel_leaves, ?_, ?_⟩
  · rintro before name rest rfl
    simp only [e, after_append]
    exact isRaised_of_createSignal (namesMade_after hnames before) name rest
  · intro name
    rw [isRaised_iff, ← hraised, List.append_nil]
  · rintro before submission rest queued rfl hs r hr hid
    simp only [e, after_append] at hr ⊢
    obtain ⟨hfollows, hcancelled⟩ :=
      isCancelled_iff_of_started? (hnumbered before) hs rest hr hid
    refine ⟨hfollows.trans (followed?_eq _ _), ?_⟩
    simp only [hcancelled, exists_mem_followed?_iff, ← hraised, after_append]
  · exact fun name => ⟨rfl, fun r _ =>
      isCancelled_apply_raiseSignal (namesMade_after hnames history) name r⟩
  · exact fun submission queued => exists_run_of_started? (hnumbered history)

/-- Two jobs that are told to stop, one by the signal under which it runs and one by its own
cancellation, and a job that is started too late under the same signal. -/
theorem cancelled_after_raising :
    let start := create 60 .channel false
    let e := start.after [.createSignal "all", .submit "n = 1" "ann" none (some "all"),
      .submit "m = 2" "bob" none none, .raiseSignal "all", .cancel (.numbered 1)]
    e.isRaised "all" ∧ (∀ r ∈ e.active, e.isCancelled r) ∧
    ∃ r ∈ (e.apply (.submit "k = 3" "eve" none (some "all"))).1.active,
      r.job.id = .numbered 2 ∧
        (e.apply (.submit "k = 3" "eve" none (some "all"))).1.isCancelled r := by
  intro start e
  obtain ⟨-, hnamed, hjobs, -, -, hlater⟩ := cancelled_after 60 .channel false
    [.createSignal "all", .submit "n = 1" "ann" none (some "all"),
      .submit "m = 2" "bob" none none, .raiseSignal "all", .cancel (.numbered 1)]
  have hraised : e.isRaised "all" := (hnamed "all").2
    ⟨[], _, rfl, by decide, [.submit "n = 1" "ann" none (some "all"),
      .submit "m = 2" "bob" none none], [.cancel (.numbered 1)], rfl, by decide⟩
  refine ⟨hraised, fun r hr => ?_, ?_⟩
  · have hids : ∀ r ∈ e.active, r.job.id = .numbered 0 ∨ r.job.id = .numbered 1 := by
      decide +kernel
    rcases hids r hr with hid | hid
    · obtain ⟨-, hcancelled⟩ := hjobs [.createSignal "all"]
        (.submit "n = 1" "ann" none (some "all"))
        [.submit "m = 2" "bob" none none, .raiseSignal "all", .cancel (.numbered 1)]
        (Job.create (.numbered 0) "ann" none) rfl (by decide +kernel) r hr hid
      exact hcancelled.2 (Or.inr ⟨"all", rfl, [], [], rfl, by decide,
        [.submit "n = 1" "ann" none (some "all"), .submit "m = 2" "bob" none none],
        [.cancel (.numbered 1)], rfl, by decide⟩)
    · obtain ⟨-, hcancelled⟩ := hjobs
        [.createSignal "all", .submit "n = 1" "ann" none (some "all")]
        (.submit "m = 2" "bob" none none) [.raiseSignal "all", .cancel (.numbered 1)]
        (Job.create (.numbered 1) "bob" none) rfl (by decide +kernel) r hr hid
      exact hcancelled.2 (Or.inl ⟨[.raiseSignal "all"], [], rfl, by decide +kernel⟩)
  · obtain ⟨r, hr, hid, hcancelled⟩ := hlater (.submit "k = 3" "eve" none (some "all"))
      (Job.create (.numbered 2) "eve" none) (by decide +kernel)
    exact ⟨r, hr, hid, hcancelled.2 ⟨"all", rfl, hraised⟩⟩

end Engine

end FlightScript
