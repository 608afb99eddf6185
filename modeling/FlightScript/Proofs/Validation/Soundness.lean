import FlightScript.Proofs.Engine.Submission
import FlightScript.Proofs.Execution.Failing
import FlightScript.Proofs.Validation.Scope

/-!
# What validation promises

Validation and execution keep the names of objects independently of each other.
`scope.Describes b` says that they agree, and it holds from the beginning to the first
failure (`Describes.executeAll`). A valid script is one in which every propagation
names objects of the scope; so no name is missing when it runs, and it can only fail
where a field does not take a value or a spacecraft cannot be moved
(`isAdmissible_of_isValid`).
-/

namespace FlightScript

/-- A failure that validation leaves possible. -/
def Bindings.Failure.IsAdmissible (f : Bindings.Failure) : Prop :=
  (∃ object property v o, f.statement.command = .set object property v ∧
      f.bindings.objects.get? object = some o ∧ o.HasField property ∧
      f.error.problem.kind = .coercion) ∨
    ∃ propagator spacecraft stop,
      f.statement.command = .propagate propagator spacecraft stop ∧
      f.error.problem.kind = .execution

theorem Bindings.Failure.IsAdmissible.kind_ne_objectNotFound {f : Bindings.Failure}
    (h : f.IsAdmissible) : f.error.problem.kind ≠ .objectNotFound := by
  rcases h with ⟨_, _, _, _, -, -, -, hkind⟩ | ⟨_, _, _, -, hkind⟩
  · rw [hkind]
    exact ProblemKind.noConfusion
  · rw [hkind]
    exact ProblemKind.noConfusion

namespace Scope

/-- The objects of a scope are the ones that are bound. -/
def Describes (scope : Scope) (b : Bindings) : Prop :=
  ∀ name, name ∈ b.objects.names ↔ name ∈ scope.objects

namespace Describes

variable {scope : Scope} {b b' : Bindings} {step : Float}

theorem empty : Scope.empty.Describes .empty :=
  fun _ => Iff.rfl

/-- An object put in the place of another one changes no names. -/
theorem insert (h : scope.Describes b) {name : String} (hname : (b.objects.get? name).isSome)
    (o : Object) : scope.Describes { b with objects := b.objects.insert name o } := by
  intro other
  rw [Table.mem_names_insert, ← h other]
  rw [Table.isSome_get?_iff] at hname
  exact or_iff_right_of_imp fun heq => heq ▸ hname

theorem create (h : scope.Describes b) (kind name : String) :
    { scope with objects := scope.objects.insert name }.Describes (b.create kind name) := by
  intro other
  rw [Bindings.create, Table.mem_names_insert, List.mem_insert_iff, ← h other]

theorem set (h : scope.Describes b) {object property : String} {v : Value}
    (hb : b.set object property v = (b', none)) : scope.Describes b' := by
  cases ho : b.objects.get? object with
  | none =>
      rw [Bindings.set, ho] at hb
      obtain ⟨rfl, -⟩ := Prod.mk.inj hb
      exact h
  | some o =>
      have hsome : (b.objects.get? object).isSome := by rw [ho]; rfl
      rcases hset : o.set property v with ⟨changed, _ | error⟩
      · simp only [Bindings.set, ho, hset] at hb
        obtain ⟨rfl, -⟩ := Prod.mk.inj hb
        exact h.insert hsome changed
      · simp [Bindings.set, ho, hset] at hb

theorem propagate (h : scope.Describes b) {propagator spacecraft : String}
    {stop : Option StopClause}
    (hb : b.propagate step propagator spacecraft stop = (b', none)) : scope.Describes b' := by
  cases hi : b.interval step propagator stop with
  | error error => simp [Bindings.propagate, hi] at hb
  | ok days =>
      cases hm : b.moved spacecraft days with
      | error error => simp [Bindings.propagate, hi, hm] at hb
      | ok craft =>
          have hsome : (b.objects.get? spacecraft).isSome := by
            cases ho : b.objects.get? spacecraft with
            | none => simp [Bindings.moved, Bindings.spacecraft, ho] at hm
            | some o => rfl
          simp only [Bindings.propagate, hi, hm] at hb
          obtain ⟨rfl, -⟩ := Prod.mk.inj hb
          exact h.insert hsome _

theorem close (h : scope.Describes b) (block : Block) : (scope.close block).Describes b := by
  by_cases hinside : scope.isInside block
  · rw [Scope.close, if_pos hinside]
    exact h
  · rw [Scope.close, if_neg hinside]
    exact h

/-- A statement that is executed keeps the agreement. -/
theorem execute (h : scope.Describes b) {s : Statement}
    (hb : b.execute step s.command = (b', none)) : (scope.after s).Describes b' := by
  rw [Scope.after]
  cases hc : s.command with
  | create kind name =>
      rw [hc] at hb
      obtain ⟨rfl, -⟩ := Prod.mk.inj hb
      exact h.create kind name
  | set object property v =>
      rw [hc] at hb
      exact h.set hb
  | propagate propagator spacecraft stop =>
      rw [hc] at hb
      exact h.propagate hb
  | endIf =>
      rw [hc] at hb
      obtain ⟨rfl, -⟩ := Prod.mk.inj hb
      exact h.close .ifThen
  | endWhile =>
      rw [hc] at hb
      obtain ⟨rfl, -⟩ := Prod.mk.inj hb
      exact h.close .whileDo
  | _ =>
      rw [hc] at hb
      obtain ⟨rfl, -⟩ := Prod.mk.inj hb
      exact h

theorem executeAll (h : scope.Describes b) {statements : List Statement}
    (hb : b.executeAll step (statements.filter Statement.isExecutable) = .ok b') :
    (scope.afterAll statements).Describes b' := by
  induction statements generalizing scope b with
  | nil =>
      obtain rfl := Except.ok.inj hb
      exact h
  | cons s rest ih =>
      rw [afterAll_cons]
      cases hs : s.isExecutable with
      | false =>
          rw [List.filter_cons_of_neg (by rw [hs]; decide)] at hb
          rw [after_of_not_isExecutable hs]
          exact ih h hb
      | true =>
          rw [List.filter_cons_of_pos hs] at hb
          obtain ⟨c, hstep, hrest⟩ := Bindings.executeAll_cons_eq_ok_iff.1 hb
          exact ih (h.execute hstep) hrest

end Describes

end Scope

/-- The executed statements before one of a script are those of a part of it. -/
theorem Script.exists_before_of_executable {s : Script} {before rest : List Statement}
    {next : Statement} (h : s.executable = before ++ next :: rest) :
    ∃ front back, s.statements = front ++ next :: back ∧
      front.filter Statement.isExecutable = before := by
  rw [executable, List.filter_eq_append_iff] at h
  obtain ⟨front, back, hsplit, rfl, hback⟩ := h
  rw [List.filter_eq_cons_iff] at hback
  obtain ⟨skipped, back, rfl, hskipped, -, rfl⟩ := hback
  refine ⟨front ++ skipped, back, by rw [hsplit, List.append_assoc], ?_⟩
  rw [List.filter_append, List.filter_eq_nil_iff.2 hskipped, List.append_nil]

/-- In a valid script a propagation names an object. -/
theorem spacecraft_mem_of_isValid {text : String} (hv : (validate text).isValid)
    {before rest : List Statement} {s : Statement}
    (h : (Script.read text).statements = before ++ s :: rest)
    {propagator spacecraft : String} {stop : Option StopClause}
    (hs : s.command = .propagate propagator spacecraft stop) :
    spacecraft ∈ (Scope.empty.afterAll before).objects := by
  by_contra hmem
  have hf : Finding.undeclaredSpacecraft spacecraft ∈
      (Scope.empty.afterAll before).findings s.command := by
    rw [hs]
    exact List.mem_append_right _
      (Scope.mem_unlessHolds.2 ⟨decide_eq_false hmem, rfl⟩)
  exact severity_of_isValid hv h hf rfl

/-- The statements of a valid script fail in an admissible way if they fail. -/
theorem isAdmissible_of_isValid {text : String} (hv : (validate text).isValid) {step : Float}
    {f : Bindings.Failure}
    (hf : Bindings.empty.executeAll step (Script.read text).executable = .error f) :
    f.IsAdmissible := by
  obtain ⟨⟨rest, hsplit⟩, hbefore, herror⟩ := Bindings.executeAll_eq_error_iff.1 hf
  obtain ⟨front, back, hstatements, hfront⟩ := Script.exists_before_of_executable hsplit
  rcases Bindings.execute_error_cases herror with
    hset | ⟨propagator, spacecraft, stop, hpropagate, hkind | hnone⟩
  · exact Or.inl hset
  · exact Or.inr ⟨propagator, spacecraft, stop, hpropagate, hkind⟩
  · have hmem := spacecraft_mem_of_isValid hv hstatements hpropagate
    rw [← hfront] at hbefore
    have hbound := (Scope.Describes.empty.executeAll hbefore spacecraft).2 hmem
    exact absurd hbound ((Table.get?_eq_none_iff _ _).1 hnone)

/-- Validation is sound for execution. -/
theorem sound_of_isValid {text : String} (hv : (validate text).isValid) :
    (∀ step before rest b, (Script.read text).statements = before ++ rest →
      Bindings.empty.executeAll step (before.filter Statement.isExecutable) = .ok b →
        ∀ name, name ∈ b.objects.names ↔ name ∈ (Scope.empty.afterAll before).objects) ∧
    (∀ step before s rest b kind name, (Script.read text).statements = before ++ s :: rest →
      Bindings.empty.executeAll step (before.filter Statement.isExecutable) = .ok b →
        s.command = .create kind name →
          ((∃ w ∈ (validate text).warnings, w.line = s.line ∧ w.code = "SW001") ↔
            (b.objects.get? name).isSome)) ∧
    (∀ (e : Engine) submission, e.Reachable → e.submitted? submission = some text →
      ∃ e' queued, e.apply submission = (e', .job queued) ∧
        ∀ between, Operation.wait queued.id ∉ between →
          ∃ record, ((e'.after between).apply (.wait queued.id)).2 = .job record ∧
            record.origin = queued.origin ∧
            (record.status = .failed →
              ∃ f, Bindings.empty.executeAll e.defaultStep (Script.read text).executable =
                  .error f ∧
                record.summary = .failed (Script.read text).executable.length f ∧
                f.error.problem.kind ≠ .objectNotFound ∧ f.IsAdmissible)) := by
  refine ⟨?_, ?_, ?_⟩
  · intro step before rest b _ hb
    exact Scope.Describes.empty.executeAll hb
  · intro step before s rest b kind name hsplit hb hs
    rw [exists_duplicate_warning_iff hsplit hs, Table.isSome_get?_iff]
    exact (Scope.Describes.empty.executeAll hb name).symm
  · intro e submission he hs
    obtain ⟨queued, hreply, hqueued⟩ := Engine.exists_queued he.numbered hs hv
    refine ⟨_, queued, Prod.ext rfl hreply, ?_⟩
    intro between hwait
    obtain ⟨x, hx, r, done, record, horigin, hends, hrecord⟩ :=
      Engine.exists_endsAs hqueued.numbered hqueued.isUnderWay hwait
    refine ⟨record, hrecord, hends.origin_eq.trans horigin, ?_⟩
    intro hstatus
    obtain ⟨f, hf, hsummary⟩ := hends.exists_failure_of_status hstatus
    rw [Engine.defaultStep_of_mem_roundsUntil hx, Engine.defaultStep_apply] at hf
    have hadmissible := isAdmissible_of_isValid hv hf
    exact ⟨f, hf, hsummary, hadmissible.kind_ne_objectNotFound, hadmissible⟩

/-- A propagator takes the place of a spacecraft of the same name, and then refuses a
value. -/
theorem sound_of_replaced_object :
    (∃ w ∈ (validate
        "Create Spacecraft Sat\n% again\nCreate Propagator Sat\nSat.MinStep = far").warnings,
      w.line = 3 ∧ w.code = "SW001") ∧
    ∃ f, Bindings.empty.executeAll 60 (Script.read
        "Create Spacecraft Sat\n% again\nCreate Propagator Sat\nSat.MinStep = far").executable =
          .error f ∧ f.statement.line = 4 ∧ f.IsAdmissible := by
  have hvalid : (validate
      "Create Spacecraft Sat\n% again\nCreate Propagator Sat\nSat.MinStep = far").isValid := by
    decide +kernel
  obtain ⟨-, hwarning, hjob⟩ := sound_of_isValid hvalid
  constructor
  · let bindings : Bindings :=
      (Bindings.empty.create "Spacecraft" "Sat").append "Created Spacecraft Sat"
    have hiff := hwarning 60
      [⟨1, "Create Spacecraft Sat", .create "Spacecraft" "Sat"⟩,
        ⟨2, "% again", .comment "again"⟩]
      ⟨3, "Create Propagator Sat", .create "Propagator" "Sat"⟩
      [⟨4, "Sat.MinStep = far", .set "Sat" "MinStep" (.plain "far")⟩] bindings "Propagator" "Sat"
      (by decide +kernel) rfl rfl
    exact hiff.2 rfl
  · have hreachable : (Engine.create 60 .channel false).Reachable :=
      ⟨60, .channel, false, [], rfl⟩
    obtain ⟨e', queued, hsubmit, hdelivered⟩ := hjob (Engine.create 60 .channel false)
      (.submit "Create Spacecraft Sat\n% again\nCreate Propagator Sat\nSat.MinStep = far" "ann"
        none none) hreachable rfl
    obtain rfl : Job.create (.numbered 0) "ann" none = queued :=
      Reply.job.inj ((by decide +kernel : _ = _).symm.trans (congrArg Prod.snd hsubmit))
    obtain rfl := congrArg Prod.fst hsubmit
    obtain ⟨record, hrecord, -, hfailed⟩ := hdelivered [.round] (by decide)
    have hstatus : (match Reply.job record with | .job j => j.status | _ => .queued) = .failed :=
      hrecord ▸ (by decide +kernel)
    obtain ⟨f, hf, -, -, hadmissible⟩ := hfailed hstatus
    have hline : (match (Except.error f : Except Bindings.Failure Bindings) with
        | .error f => f.statement.line | .ok _ => 0) = 4 :=
      hf ▸ (by decide +kernel)
    exact ⟨f, hf, hline, hadmissible⟩

end FlightScript
