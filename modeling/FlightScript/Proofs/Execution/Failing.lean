import FlightScript.Proofs.Execution.Sequence

/-!
# How commands fail

An assignment fails only where an object with a vocabulary does not take a value for
a property of its vocabulary (`Object.hasField_of_set_error`). A propagation fails for
several reasons, one of which is that there is no object of the name of the
spacecraft. No other command fails (`Bindings.execute_error_cases`).
-/

namespace FlightScript

/-- The names of the fields of a spacecraft, in lower case. -/
def Spacecraft.vocabulary : List String :=
  ["epoch", "x", "y", "z", "vx", "vy", "vz", "fuelmass", "drymass"]

def Propagator.vocabulary : List String :=
  ["type", "stepsize", "minstep", "maxstep", "accuracy"]

theorem Spacecraft.mem_vocabulary_of_ofName? {property : String} {field : Spacecraft.Field}
    (h : Spacecraft.Field.ofName? property = some field) :
    Text.foldCase property ∈ Spacecraft.vocabulary := by
  unfold Spacecraft.Field.ofName? at h
  split at h <;> simp_all [Spacecraft.vocabulary]

theorem Propagator.mem_vocabulary_of_ofName? {property : String} {field : Propagator.Field}
    (h : Propagator.Field.ofName? property = some field) :
    Text.foldCase property ∈ Propagator.vocabulary := by
  unfold Propagator.Field.ofName? at h
  split at h <;> simp_all [Propagator.vocabulary]

namespace Object

/-- The object is a spacecraft or a propagator, and a property is in its vocabulary, in
any case. -/
def HasField (o : Object) (property : String) : Prop :=
  match o with
  | .spacecraft _ => Text.foldCase property ∈ Spacecraft.vocabulary
  | .propagator _ => Text.foldCase property ∈ Propagator.vocabulary
  | .other _ => False

theorem hasField_of_assign_error {o : Object} {property : String} {v : Value}
    {error : CoercionError} (h : o.assign property v = .error error) : o.HasField property := by
  cases o with
  | spacecraft s =>
      cases hf : Spacecraft.Field.ofName? property with
      | none => simp [assign, Spacecraft.assign, hf, Except.map] at h
      | some field => exact Spacecraft.mem_vocabulary_of_ofName? hf
  | propagator p =>
      cases hf : Propagator.Field.ofName? property with
      | none => simp [assign, Propagator.assign, hf, Except.map] at h
      | some field => exact Propagator.mem_vocabulary_of_ofName? hf
  | other o => cases h

theorem hasField_note {o : Object} {property : String} {v : Value} {other : String} :
    (o.note property v).HasField other ↔ o.HasField other := by
  cases o <;> exact Iff.rfl

theorem hasField_of_set_error {o : Object} {property : String} {v : Value}
    {error : CoercionError} (h : (o.set property v).2 = some error) : o.HasField property := by
  cases ha : (o.note property v).assign property v with
  | ok assigned => simp [set, ha] at h
  | error e => exact hasField_note.1 (hasField_of_assign_error ha)

end Object

namespace Bindings

variable {b : Bindings} {step : Float} {e : ExecutionError}

theorem kind_of_interval_error {propagator : String} {stop : Option StopClause}
    (h : b.interval step propagator stop = .error e) : e.problem.kind = .execution := by
  cases stop with
  | none => cases h
  | some stop =>
      cases hn : stop.value.number? with
      | none =>
          rw [interval, hn] at h
          obtain rfl := Except.error.inj h
          rfl
      | some days =>
          rw [interval, hn] at h
          cases h

theorem kind_of_moved_error {name : String} {days : Float} {o : Object}
    (ho : b.objects.get? name = some o) (h : b.moved name days = .error e) :
    e.problem.kind = .execution := by
  rw [moved, spacecraft, ho] at h
  cases o with
  | spacecraft s =>
      cases hp : s.propagateDays days with
      | ok craft => simp [hp] at h
      | error error =>
          obtain rfl : .propagation error = e := by simpa [hp] using h
          rfl
  | _ =>
      obtain rfl := Except.error.inj h
      rfl

theorem set_error {object property : String} {v : Value}
    (h : (b.set object property v).2 = some e) :
    ∃ o, b.objects.get? object = some o ∧ o.HasField property ∧
      e.problem.kind = .coercion := by
  cases ho : b.objects.get? object with
  | none => simp [set, ho] at h
  | some o =>
      rcases hset : o.set property v with ⟨changed, _ | error⟩
      · simp [set, ho, hset] at h
      · obtain rfl : .coercion error = e := by simpa [set, ho, hset] using h
        exact ⟨o, rfl, Object.hasField_of_set_error (by rw [hset]), rfl⟩

theorem propagate_error {propagator spacecraft : String} {stop : Option StopClause}
    (h : (b.propagate step propagator spacecraft stop).2 = some e) :
    e.problem.kind = .execution ∨ b.objects.get? spacecraft = none := by
  cases ho : b.objects.get? spacecraft with
  | none => exact Or.inr rfl
  | some o =>
      refine Or.inl ?_
      cases hi : b.interval step propagator stop with
      | error error =>
          obtain rfl : error = e := by simpa [propagate, hi] using h
          exact kind_of_interval_error hi
      | ok days =>
          cases hm : b.moved spacecraft days with
          | ok craft => simp [propagate, hi, hm] at h
          | error error =>
              obtain rfl : error = e := by simpa [propagate, hi, hm] using h
              exact kind_of_moved_error ho hm

/-- A failing command is an assignment to a field, or a propagation. -/
theorem execute_error_cases {c : Command} (h : (b.execute step c).2 = some e) :
    (∃ object property v o, c = .set object property v ∧ b.objects.get? object = some o ∧
        o.HasField property ∧ e.problem.kind = .coercion) ∨
      ∃ propagator spacecraft stop, c = .propagate propagator spacecraft stop ∧
        (e.problem.kind = .execution ∨ b.objects.get? spacecraft = none) := by
  cases c with
  | set object property v =>
      obtain ⟨o, ho, hfield, hkind⟩ := set_error h
      exact Or.inl ⟨object, property, v, o, rfl, ho, hfield, hkind⟩
  | propagate propagator spacecraft stop =>
      exact Or.inr ⟨propagator, spacecraft, stop, rfl, propagate_error h⟩
  | _ => simp [execute] at h

end Bindings

end FlightScript
