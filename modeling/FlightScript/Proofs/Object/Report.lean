import FlightScript.Proofs.Object.Field

/-!
# What a report shows of an object

A report reads the field that a property names, and what was noted only where there is no
such field (`report?_of_hasField`, `report?_of_not_hasField`). What an assignment that succeeds
assigns is reported as the field shows it that took it, or else as it is
(`report?_set_of_hasField`, `report?_set_of_not_hasField`).
-/

namespace FlightScript

open Text

namespace Spacecraft

variable {s s' : Spacecraft} {property : String} {v : Value} {field : Field}

def shown? (v : Value) : Field → Option String
  | .epoch => (Instant.read? v.toText).map Instant.toText
  | .quantity q => v.number?.map (Double.fixed (places q))

theorem fieldText_of_content_eq (h : s'.content field = s.content field) :
    s'.fieldText field = s.fieldText field := by
  cases field with
  | epoch => rw [fieldText, fieldText, Content.epoch.inj h]
  | quantity q => rw [fieldText, fieldText, Content.number.inj h]

theorem shown?_of_reading? (h : field.reading? v = some (s.content field)) :
    shown? v field = some (s.fieldText field) := by
  cases field with
  | epoch =>
      obtain ⟨i, hi, heq⟩ := Option.map_eq_some_iff.1 h
      rw [shown?, hi, fieldText, ← Content.epoch.inj heq]
      rfl
  | quantity q =>
      obtain ⟨x, hx, heq⟩ := Option.map_eq_some_iff.1 h
      rw [shown?, hx, fieldText, ← Content.number.inj heq]
      rfl

end Spacecraft

namespace Propagator

variable {p p' : Propagator} {property : String} {v : Value} {field : Field}

def shown? (v : Value) : Field → Option String
  | .kind => some v.toText
  | .quantity _ => v.number?.map Double.plain

theorem fieldText_of_content_eq (h : p'.content field = p.content field) :
    p'.fieldText field = p.fieldText field := by
  cases field with
  | kind => exact Content.text.inj h
  | quantity q => rw [fieldText, fieldText, Content.number.inj h]

theorem shown?_of_reading? (h : field.reading? v = some (p.content field)) :
    shown? v field = some (p.fieldText field) := by
  cases field with
  | kind => exact congrArg some (Content.text.inj (Option.some.inj h))
  | quantity q =>
      obtain ⟨x, hx, heq⟩ := Option.map_eq_some_iff.1 h
      rw [shown?, hx, fieldText, ← Content.number.inj heq]
      rfl

end Propagator

namespace Object

variable {o o' : Object} {property other : String} {v : Value}

def shown? (o : Object) (property : String) (v : Value) : Option String :=
  match o with
  | .spacecraft _ => (Spacecraft.Field.ofName? property).bind (Spacecraft.shown? v)
  | .propagator _ => (Propagator.Field.ofName? property).bind (Propagator.shown? v)
  | .other _ => none

theorem isSome_fieldText?_iff : (o.fieldText? property).isSome ↔ o.HasField property := by
  cases o with
  | spacecraft s =>
      rw [fieldText?, Option.isSome_map]
      exact Spacecraft.isSome_ofName?_iff
  | propagator p =>
      rw [fieldText?, Option.isSome_map]
      exact Propagator.isSome_ofName?_iff
  | other o => exact iff_of_false Bool.false_ne_true id

theorem hasField_of_foldCase_eq (h : foldCase other = foldCase property)
    (hfield : o.HasField property) : o.HasField other := by
  cases o with
  | spacecraft s => rwa [HasField, h]
  | propagator p => rwa [HasField, h]
  | other o => exact hfield

/-! ### Noted values -/

theorem notedValue?_insert_self (t : Table Value) (property : String) (v : Value) :
    notedValue? (t.insert property v) property = some v := by
  rw [notedValue?, Table.get?_insert_self]

theorem fieldText?_note : (o.note property v).fieldText? other = o.fieldText? other := by
  cases o <;> rfl

theorem shown?_note {w : Value} : (o.note property w).shown? other v = o.shown? other v := by
  cases o <;> rfl

theorem report?_of_hasField (h : o.HasField property) :
    o.report? property = o.fieldText? property := by
  obtain ⟨text, htext⟩ := Option.isSome_iff_exists.1 (isSome_fieldText?_iff.2 h)
  rw [report?, htext]

theorem report?_of_not_hasField (h : ¬ o.HasField property) :
    o.report? property = (notedValue? o.properties property).map Value.toText := by
  have hnone : o.fieldText? property = none :=
    Option.not_isSome_iff_eq_none.1 (mt isSome_fieldText?_iff.1 h)
  rw [report?, hnone]

/-! ### Assigned values -/

theorem properties_assign (h : o.assign property v = .ok o') : o'.properties = o.properties := by
  rcases assign_cases h with ⟨s, s', rfl, rfl, hs⟩ | ⟨p, p', rfl, rfl, hp⟩ | ⟨plain, rfl, rfl⟩
  · exact Spacecraft.properties_assign hs
  · exact Propagator.properties_assign hp
  · rfl

theorem hasField_assign (h : o.assign property v = .ok o') :
    o'.HasField other ↔ o.HasField other := by
  rcases assign_cases h with ⟨s, s', rfl, rfl, -⟩ | ⟨p, p', rfl, rfl, -⟩ | ⟨plain, rfl, rfl⟩
  · exact Iff.rfl
  · exact Iff.rfl
  · exact Iff.rfl

theorem fieldText?_assign_of_ne (h : o.assign property v = .ok o')
    (hne : foldCase other ≠ foldCase property) : o'.fieldText? other = o.fieldText? other := by
  have hcontent := content?_assign_of_ne h hne
  rcases assign_cases h with ⟨s, s', rfl, rfl, -⟩ | ⟨p, p', rfl, rfl, -⟩ | ⟨plain, rfl, rfl⟩
  · refine Option.map_congr fun field hfield => Spacecraft.fieldText_of_content_eq ?_
    simpa [content?, hfield] using hcontent
  · refine Option.map_congr fun field hfield => Propagator.fieldText_of_content_eq ?_
    simpa [content?, hfield] using hcontent
  · rfl

theorem fieldText?_assign_self (h : o.assign property v = .ok o') :
    o'.fieldText? property = o.shown? property v := by
  have hcontent := content?_assign_self h
  rcases assign_cases h with ⟨s, s', rfl, rfl, -⟩ | ⟨p, p', rfl, rfl, -⟩ | ⟨plain, rfl, rfl⟩
  · rw [fieldText?, shown?]
    cases hf : Spacecraft.Field.ofName? property with
    | none => rfl
    | some field =>
        have hreading : field.reading? v = some (s'.content field) := by
          simpa [content?, reading?, hf] using hcontent.symm
        exact (Spacecraft.shown?_of_reading? hreading).symm
  · rw [fieldText?, shown?]
    cases hf : Propagator.Field.ofName? property with
    | none => rfl
    | some field =>
        have hreading : field.reading? v = some (p'.content field) := by
          simpa [content?, reading?, hf] using hcontent.symm
        exact (Propagator.shown?_of_reading? hreading).symm
  · rfl

theorem assign_of_set (h : o.set property v = (o', none)) :
    (o.note property v).assign property v = .ok o' := by
  cases ha : (o.note property v).assign property v with
  | ok assigned =>
      obtain rfl : assigned = o' := by simpa [set, ha] using h
      rfl
  | error e => simp [set, ha] at h

/-- An assignment that fails leaves its value noted. -/
theorem eq_note_of_set {e : CoercionError} (h : o.set property v = (o', some e)) :
    o' = o.note property v := by
  cases ha : (o.note property v).assign property v with
  | ok assigned => simp [set, ha] at h
  | error error =>
      obtain ⟨rfl, -⟩ : o.note property v = o' ∧ error = e := by simpa [set, ha] using h
      rfl

theorem hasField_set (h : o.set property v = (o', none)) : o'.HasField other ↔ o.HasField other :=
  (hasField_assign (assign_of_set h)).trans hasField_note

/-- What is assigned to a field is reported as the field shows it. -/
theorem report?_set_of_hasField (h : o.set property v = (o', none)) (hfield : o.HasField property) :
    ∃ text, o.shown? property v = some text ∧ o'.report? property = some text := by
  have hfield' : o'.HasField property := (hasField_set h).2 hfield
  obtain ⟨text, htext⟩ := Option.isSome_iff_exists.1 (isSome_fieldText?_iff.2 hfield')
  refine ⟨text, ?_, (report?_of_hasField hfield').trans htext⟩
  rw [← htext, fieldText?_assign_self (assign_of_set h), shown?_note]

/-- What is assigned to a property that names no field is reported as it is. -/
theorem report?_set_of_not_hasField (h : o.set property v = (o', none))
    (hfield : ¬ o.HasField property) : o'.report? property = some v.toText := by
  rw [report?_of_not_hasField (mt (hasField_set h).1 hfield), properties_assign (assign_of_set h),
    properties_note, notedValue?_insert_self]
  rfl

end Object

end FlightScript
