import FlightScript.Proofs.Execution.Failing

/-!
# What the fields hold

A property names a field if it is the name of the field in some case. A field reads a value
as what it holds, or does not take it; the type of a propagator takes every value. An
assignment that succeeds leaves all fields as they were but the one that the property names,
which then holds what it reads the value as (`content_assign_of_ne`, `content_assign_self`).
-/

namespace FlightScript

open Text

inductive Content where
  | number (x : Float)
  | epoch (i : Instant)
  | text (s : String)
  deriving DecidableEq

theorem exists_map_eq_error_iff {ε α β : Type} {x : Except ε α} {g : α → β} :
    (∃ e, x.map g = .error e) ↔ ∃ e, x = .error e := by
  cases x <;> simp [Except.map]

namespace Spacecraft

variable {s s' : Spacecraft} {property : String} {v : Value} {field : Field}

def Field.name : Field → String
  | .epoch => "epoch"
  | .quantity .x => "x"
  | .quantity .y => "y"
  | .quantity .z => "z"
  | .quantity .vx => "vx"
  | .quantity .vy => "vy"
  | .quantity .vz => "vz"
  | .quantity .fuelMass => "fuelmass"
  | .quantity .dryMass => "drymass"

theorem Field.ofName?_eq_some_iff :
    Field.ofName? property = some field ↔ foldCase property = field.name := by
  constructor
  · intro h
    unfold Field.ofName? at h
    split at h <;> cases h <;> assumption
  · intro h
    unfold Field.ofName?
    rw [h]
    rcases field with _ | q
    · rfl
    · cases q <;> rfl

theorem isSome_ofName?_iff :
    (Field.ofName? property).isSome ↔ foldCase property ∈ vocabulary := by
  constructor
  · intro h
    obtain ⟨field, hfield⟩ := Option.isSome_iff_exists.1 h
    exact mem_vocabulary_of_ofName? hfield
  · intro h
    unfold Field.ofName?
    simp only [vocabulary, List.mem_cons, List.not_mem_nil, or_false] at h
    rcases h with h | h | h | h | h | h | h | h | h <;> rw [h] <;> rfl

def content (s : Spacecraft) : Field → Content
  | .epoch => .epoch s.epoch
  | .quantity q => .number (s.get q)

/-- What a field reads a value as, if it takes it. -/
def Field.reading? (field : Field) (v : Value) : Option Content :=
  match field with
  | .epoch => (Instant.read? v.toText).map .epoch
  | .quantity _ => v.number?.map .number

/-- What an assignment to a property makes of a spacecraft. -/
theorem assign_cases (h : s.assign property v = .ok s') :
    (Field.ofName? property = none ∧ s' = s) ∨
      (∃ i, Field.ofName? property = some .epoch ∧ Instant.read? v.toText = some i ∧
        s' = { s with epoch := i }) ∨
      ∃ q x, Field.ofName? property = some (.quantity q) ∧ v.number? = some x ∧
        s' = s.put q x := by
  unfold assign at h
  cases hf : Field.ofName? property with
  | none =>
      rw [hf] at h
      exact Or.inl ⟨rfl, (Except.ok.inj h).symm⟩
  | some field =>
      rw [hf] at h
      cases field with
      | epoch =>
          cases hi : Instant.read? v.toText with
          | none => simp [Value.toEpoch, hi, Except.map] at h
          | some i =>
              obtain rfl : { s with epoch := i } = s' := by
                simpa [Value.toEpoch, hi, Except.map] using h
              exact Or.inr (Or.inl ⟨i, rfl, rfl, rfl⟩)
      | quantity q =>
          cases hx : v.number? with
          | none => simp [Value.toNumber, hx, Except.map] at h
          | some x =>
              obtain rfl : s.put q x = s' := by
                simpa [Value.toNumber, hx, Except.map] using h
              exact Or.inr (Or.inr ⟨q, x, rfl, rfl, rfl⟩)

/-- An assignment to a field fails just if the field does not take the value. -/
theorem exists_assign_error_iff (hf : Field.ofName? property = some field) :
    (∃ e, s.assign property v = .error e) ↔ field.reading? v = none := by
  unfold assign
  rw [hf]
  cases field with
  | epoch =>
      cases hi : Instant.read? v.toText <;> simp [Field.reading?, Value.toEpoch, hi, Except.map]
  | quantity q => cases hx : v.number? <;> simp [Field.reading?, Value.toNumber, hx, Except.map]

theorem properties_assign (h : s.assign property v = .ok s') : s'.properties = s.properties := by
  rcases assign_cases h with ⟨-, rfl⟩ | ⟨i, -, -, rfl⟩ | ⟨q, x, -, -, rfl⟩
  · rfl
  · rfl
  · exact properties_put s q x

theorem content_assign_of_ne (h : s.assign property v = .ok s')
    (hne : Field.ofName? property ≠ some field) : s'.content field = s.content field := by
  rcases assign_cases h with ⟨-, rfl⟩ | ⟨i, hf, -, rfl⟩ | ⟨q, x, hf, -, rfl⟩
  · rfl
  · cases field with
    | epoch => exact absurd hf hne
    | quantity r => cases r <;> rfl
  · cases field with
    | epoch => rw [content, content, epoch_put]
    | quantity r =>
        have hqr : q ≠ r := fun hqr => hne (hqr ▸ hf)
        rw [content, content, get_put, if_neg hqr]

theorem content_assign_self (h : s.assign property v = .ok s')
    (hf : Field.ofName? property = some field) : field.reading? v = some (s'.content field) := by
  rcases assign_cases h with ⟨hn, -⟩ | ⟨i, he, hi, rfl⟩ | ⟨q, x, hq, hx, rfl⟩
  · cases hn.symm.trans hf
  · obtain rfl := Option.some.inj (he.symm.trans hf)
    rw [Field.reading?, hi]
    rfl
  · obtain rfl := Option.some.inj (hq.symm.trans hf)
    rw [Field.reading?, hx, content, get_put, if_pos rfl]
    rfl

end Spacecraft

namespace Propagator

variable {p p' : Propagator} {property : String} {v : Value} {field : Field}

def Field.name : Field → String
  | .kind => "type"
  | .quantity .stepSize => "stepsize"
  | .quantity .minStep => "minstep"
  | .quantity .maxStep => "maxstep"
  | .quantity .accuracy => "accuracy"

theorem Field.ofName?_eq_some_iff :
    Field.ofName? property = some field ↔ foldCase property = field.name := by
  constructor
  · intro h
    unfold Field.ofName? at h
    split at h <;> cases h <;> assumption
  · intro h
    unfold Field.ofName?
    rw [h]
    rcases field with _ | q
    · rfl
    · cases q <;> rfl

theorem isSome_ofName?_iff :
    (Field.ofName? property).isSome ↔ foldCase property ∈ vocabulary := by
  constructor
  · intro h
    obtain ⟨field, hfield⟩ := Option.isSome_iff_exists.1 h
    exact mem_vocabulary_of_ofName? hfield
  · intro h
    unfold Field.ofName?
    simp only [vocabulary, List.mem_cons, List.not_mem_nil, or_false] at h
    rcases h with h | h | h | h | h <;> rw [h] <;> rfl

def content (p : Propagator) : Field → Content
  | .kind => .text p.kind
  | .quantity q => .number (p.get q)

def Field.reading? (field : Field) (v : Value) : Option Content :=
  match field with
  | .kind => some (.text v.toText)
  | .quantity _ => v.number?.map .number

/-- What an assignment to a property makes of a propagator. -/
theorem assign_cases (h : p.assign property v = .ok p') :
    (Field.ofName? property = none ∧ p' = p) ∨
      (Field.ofName? property = some .kind ∧ p' = { p with kind := v.toText }) ∨
      ∃ q x, Field.ofName? property = some (.quantity q) ∧ v.number? = some x ∧
        p' = p.put q x := by
  unfold assign at h
  cases hf : Field.ofName? property with
  | none =>
      rw [hf] at h
      exact Or.inl ⟨rfl, (Except.ok.inj h).symm⟩
  | some field =>
      rw [hf] at h
      cases field with
      | kind => exact Or.inr (Or.inl ⟨rfl, (Except.ok.inj h).symm⟩)
      | quantity q =>
          cases hx : v.number? with
          | none => simp [Value.toNumber, hx, Except.map] at h
          | some x =>
              obtain rfl : p.put q x = p' := by
                simpa [Value.toNumber, hx, Except.map] using h
              exact Or.inr (Or.inr ⟨q, x, rfl, rfl, rfl⟩)

/-- An assignment to a field fails just if the field does not take the value. -/
theorem exists_assign_error_iff (hf : Field.ofName? property = some field) :
    (∃ e, p.assign property v = .error e) ↔ field.reading? v = none := by
  unfold assign
  rw [hf]
  cases field with
  | kind => simp [Field.reading?]
  | quantity q => cases hx : v.number? <;> simp [Field.reading?, Value.toNumber, hx, Except.map]

theorem kind_put (p : Propagator) (q : Quantity) (x : Float) : (p.put q x).kind = p.kind := by
  cases q <;> rfl

theorem properties_put (p : Propagator) (q : Quantity) (x : Float) :
    (p.put q x).properties = p.properties := by
  cases q <;> rfl

theorem properties_assign (h : p.assign property v = .ok p') : p'.properties = p.properties := by
  rcases assign_cases h with ⟨-, rfl⟩ | ⟨-, rfl⟩ | ⟨q, x, -, -, rfl⟩
  · rfl
  · rfl
  · exact properties_put p q x

theorem content_assign_of_ne (h : p.assign property v = .ok p')
    (hne : Field.ofName? property ≠ some field) : p'.content field = p.content field := by
  rcases assign_cases h with ⟨-, rfl⟩ | ⟨hf, rfl⟩ | ⟨q, x, hf, -, rfl⟩
  · rfl
  · cases field with
    | kind => exact absurd hf hne
    | quantity r => cases r <;> rfl
  · cases field with
    | kind => rw [content, content, kind_put]
    | quantity r =>
        have hqr : q ≠ r := fun hqr => hne (hqr ▸ hf)
        rw [content, content, get_put, if_neg hqr]

theorem content_assign_self (h : p.assign property v = .ok p')
    (hf : Field.ofName? property = some field) : field.reading? v = some (p'.content field) := by
  rcases assign_cases h with ⟨hn, -⟩ | ⟨hk, rfl⟩ | ⟨q, x, hq, hx, rfl⟩
  · cases hn.symm.trans hf
  · obtain rfl := Option.some.inj (hk.symm.trans hf)
    rfl
  · obtain rfl := Option.some.inj (hq.symm.trans hf)
    rw [Field.reading?, hx, content, get_put, if_pos rfl]
    rfl

end Propagator

namespace Object

variable {o o' : Object} {property other : String} {v : Value}

def content? (o : Object) (property : String) : Option Content :=
  match o with
  | .spacecraft s => (Spacecraft.Field.ofName? property).map s.content
  | .propagator p => (Propagator.Field.ofName? property).map p.content
  | .other _ => none

/-- What the field that a property names reads a value as, if there is such a field and it
takes the value. -/
def reading? (o : Object) (property : String) (v : Value) : Option Content :=
  match o with
  | .spacecraft _ => (Spacecraft.Field.ofName? property).bind fun field => field.reading? v
  | .propagator _ => (Propagator.Field.ofName? property).bind fun field => field.reading? v
  | .other _ => none

/-- An assignment leaves an object of the same kind. -/
theorem assign_cases (h : o.assign property v = .ok o') :
    (∃ s s', o = .spacecraft s ∧ o' = .spacecraft s' ∧ s.assign property v = .ok s') ∨
      (∃ p p', o = .propagator p ∧ o' = .propagator p' ∧ p.assign property v = .ok p') ∨
      ∃ plain, o = .other plain ∧ o' = .other plain := by
  cases o with
  | spacecraft s =>
      cases hs : s.assign property v with
      | error e => simp [assign, hs, Except.map] at h
      | ok s' =>
          obtain rfl : .spacecraft s' = o' := by simpa [assign, hs, Except.map] using h
          exact Or.inl ⟨s, s', rfl, rfl, hs⟩
  | propagator p =>
      cases hp : p.assign property v with
      | error e => simp [assign, hp, Except.map] at h
      | ok p' =>
          obtain rfl : .propagator p' = o' := by simpa [assign, hp, Except.map] using h
          exact Or.inr (Or.inl ⟨p, p', rfl, rfl, hp⟩)
  | other plain => exact Or.inr (Or.inr ⟨plain, rfl, (Except.ok.inj h).symm⟩)

theorem content?_eq_none (h : ¬ o.HasField property) : o.content? property = none := by
  cases o with
  | spacecraft s =>
      rw [HasField, ← Spacecraft.isSome_ofName?_iff, Option.not_isSome_iff_eq_none] at h
      rw [content?, h]
      rfl
  | propagator p =>
      rw [HasField, ← Propagator.isSome_ofName?_iff, Option.not_isSome_iff_eq_none] at h
      rw [content?, h]
      rfl
  | other plain => rfl

theorem content?_of_foldCase_eq (h : foldCase other = foldCase property) (o : Object) :
    o.content? other = o.content? property := by
  cases o with
  | spacecraft s => rw [content?, content?, Spacecraft.Field.ofName?, h, Spacecraft.Field.ofName?]
  | propagator p => rw [content?, content?, Propagator.Field.ofName?, h, Propagator.Field.ofName?]
  | other plain => rfl

theorem reading?_of_foldCase_eq (h : foldCase other = foldCase property) (o : Object) (v : Value) :
    o.reading? other v = o.reading? property v := by
  cases o with
  | spacecraft s =>
      rw [reading?, reading?, Spacecraft.Field.ofName?, h, Spacecraft.Field.ofName?]
  | propagator p =>
      rw [reading?, reading?, Propagator.Field.ofName?, h, Propagator.Field.ofName?]
  | other plain => rfl

theorem reading?_assign {w : Value} (h : o.assign property w = .ok o') :
    o'.reading? other v = o.reading? other v := by
  rcases assign_cases h with ⟨s, s', rfl, rfl, -⟩ | ⟨p, p', rfl, rfl, -⟩ | ⟨plain, rfl, rfl⟩ <;> rfl

theorem content?_assign_of_ne (h : o.assign property v = .ok o')
    (hne : foldCase other ≠ foldCase property) : o'.content? other = o.content? other := by
  rcases assign_cases h with ⟨s, s', rfl, rfl, hs⟩ | ⟨p, p', rfl, rfl, hp⟩ | ⟨plain, rfl, rfl⟩
  · refine Option.map_congr fun field hfield => Spacecraft.content_assign_of_ne hs ?_
    rw [Spacecraft.Field.ofName?_eq_some_iff] at hfield
    rw [ne_eq, Spacecraft.Field.ofName?_eq_some_iff, ← hfield]
    exact hne.symm
  · refine Option.map_congr fun field hfield => Propagator.content_assign_of_ne hp ?_
    rw [Propagator.Field.ofName?_eq_some_iff] at hfield
    rw [ne_eq, Propagator.Field.ofName?_eq_some_iff, ← hfield]
    exact hne.symm
  · rfl

theorem content?_assign_self (h : o.assign property v = .ok o') :
    o'.content? property = o.reading? property v := by
  rcases assign_cases h with ⟨s, s', rfl, rfl, hs⟩ | ⟨p, p', rfl, rfl, hp⟩ | ⟨plain, rfl, rfl⟩
  · rw [content?, reading?]
    cases hf : Spacecraft.Field.ofName? property with
    | none => rfl
    | some field => exact (Spacecraft.content_assign_self hs hf).symm
  · rw [content?, reading?]
    cases hf : Propagator.Field.ofName? property with
    | none => rfl
    | some field => exact (Propagator.content_assign_self hp hf).symm
  · rfl

/-- An assignment to a property fails just if it is that of a field that does not take the
value. -/
theorem exists_assign_error_iff :
    (∃ e, o.assign property v = .error e) ↔ o.HasField property ∧ o.reading? property v = none := by
  cases o with
  | spacecraft s =>
      rw [HasField, ← Spacecraft.isSome_ofName?_iff]
      cases hf : Spacecraft.Field.ofName? property with
      | none => simp [assign, Spacecraft.assign, hf, Except.map]
      | some field =>
          simp [assign, reading?, hf, exists_map_eq_error_iff,
            Spacecraft.exists_assign_error_iff hf]
  | propagator p =>
      rw [HasField, ← Propagator.isSome_ofName?_iff]
      cases hf : Propagator.Field.ofName? property with
      | none => simp [assign, Propagator.assign, hf, Except.map]
      | some field =>
          simp [assign, reading?, hf, exists_map_eq_error_iff,
            Propagator.exists_assign_error_iff hf]
  | other plain => simp [assign, HasField]

end Object

end FlightScript
