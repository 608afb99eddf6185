import FlightScript.Proofs.Object.Assignments

/-!
# Reports and the order of what was noted

A report of a property that names no field shows what was noted under just this name. If there
is nothing, it shows the first of the entries whose name differs in case only, and which one that
is depends on the order in which the entries stand. `o.Reordered o'` says that two objects
differ in this order at most. What can then be reported is `o.MayReport property`; there
are several answers just if several spellings of a name have been noted with different texts, and
the report asks for yet another spelling (`reports_in_any_order`).
-/

namespace FlightScript

open Text

namespace Table

variable {α : Type} {t u : Table α}

/-- Two tables have the same entries, in any order. -/
def SameEntries (t u : Table α) : Prop :=
  t.entries.Perm u.entries

theorem SameEntries.get?_eq (h : t.SameEntries u) (name : String) : t.get? name = u.get? name := by
  refine Option.ext fun a => ?_
  rw [get?_eq_some_iff, get?_eq_some_iff, h.mem_iff]

/-- Tables have the same entries if they bind the same names to the same values. -/
theorem sameEntries_iff : t.SameEntries u ↔ ∀ name, t.get? name = u.get? name := by
  refine ⟨SameEntries.get?_eq, fun h => ?_⟩
  have hnodup : ∀ t : Table α, t.entries.Nodup := fun t =>
    List.Pairwise.of_map Prod.fst (fun _ _ hne heq => hne (congrArg Prod.fst heq)) t.nodup
  rw [SameEntries, List.perm_ext_iff_of_nodup (hnodup t) (hnodup u)]
  rintro ⟨name, a⟩
  rw [← get?_eq_some_iff, ← get?_eq_some_iff, h]

/-- Each entry of a table stands first in some order of the entries. -/
theorem exists_sameEntries_cons {e : String × α} (he : e ∈ t.entries) :
    ∃ u : Table α, u.SameEntries t ∧ ∃ rest, u.entries = e :: rest := by
  obtain ⟨front, back, hsplit⟩ := List.append_of_mem he
  have hperm : (e :: (front ++ back)).Perm t.entries := hsplit ▸ List.perm_middle.symm
  exact ⟨⟨e :: (front ++ back), (hperm.map Prod.fst).nodup_iff.2 t.nodup⟩, hperm, _, rfl⟩

end Table

namespace Object

def withProperties (o : Object) (t : Table Value) : Object :=
  match o with
  | .spacecraft s => .spacecraft { s with properties := t }
  | .propagator p => .propagator { p with properties := t }
  | .other o => .other { o with properties := t }

/-- Two objects have the same fields, and the same entries in any order. -/
def Reordered (o o' : Object) : Prop :=
  ∃ t : Table Value, t.SameEntries o.properties ∧ o' = o.withProperties t

/-- An answer that a report of a property gives for some order of the entries. -/
inductive MayReport (o : Object) (property : String) : Option String → Prop where
  | field (h : o.HasField property) : MayReport o property (o.fieldText? property)
  | noted {v : Value} (hfield : ¬ o.HasField property)
      (hnoted : o.properties.get? property = some v) : MayReport o property (some v.toText)
  | spelled {name : String} {v : Value} (hfield : ¬ o.HasField property)
      (hnoted : o.properties.get? property = none) (he : (name, v) ∈ o.properties.entries)
      (hname : sameIgnoringCase name property) : MayReport o property (some v.toText)
  | nothing (hfield : ¬ o.HasField property)
      (hnone : ∀ name ∈ o.properties.names, ¬ sameIgnoringCase name property) :
      MayReport o property none

variable {o o' : Object} {property : String} {t : Table Value}

@[simp] theorem properties_withProperties (o : Object) (t : Table Value) :
    (o.withProperties t).properties = t := by
  cases o <;> rfl

@[simp] theorem fieldText?_withProperties (o : Object) (t : Table Value) (property : String) :
    (o.withProperties t).fieldText? property = o.fieldText? property := by
  cases o <;> rfl

@[simp] theorem hasField_withProperties :
    (o.withProperties t).HasField property ↔ o.HasField property := by
  rw [← isSome_fieldText?_iff, fieldText?_withProperties, isSome_fieldText?_iff]

theorem withProperties_properties (o : Object) : o.withProperties o.properties = o := by
  cases o <;> rfl

theorem reordered_refl (o : Object) : o.Reordered o :=
  ⟨o.properties, List.Perm.refl _, o.withProperties_properties.symm⟩

theorem withProperties_withProperties (o : Object) (t u : Table Value) :
    (o.withProperties t).withProperties u = o.withProperties u := by
  cases o <;> rfl

theorem Reordered.symm (h : o.Reordered o') : o'.Reordered o := by
  obtain ⟨t, ht, rfl⟩ := h
  refine ⟨o.properties, ?_, ?_⟩
  · rw [properties_withProperties]
    exact List.Perm.symm ht
  · rw [withProperties_withProperties, withProperties_properties]

theorem Reordered.trans {o'' : Object} (h : o.Reordered o') (h' : o'.Reordered o'') :
    o.Reordered o'' := by
  obtain ⟨t, ht, rfl⟩ := h
  obtain ⟨u, hu, rfl⟩ := h'
  rw [properties_withProperties] at hu
  exact ⟨u, List.Perm.trans hu ht, o.withProperties_withProperties t u⟩

/-- Two objects show the same of a property, whatever order their entries have: the field that it
names has the same text, and without a field its spellings stand for the same values. -/
structure ShowsAlike (o o' : Object) (property : String) : Prop where
  fieldText?_eq : o'.fieldText? property = o.fieldText? property
  get?_eq : ¬ o.HasField property → ∀ name, sameIgnoringCase name property →
    o'.properties.get? name = o.properties.get? name

theorem ShowsAlike.hasField_iff (h : o.ShowsAlike o' property) :
    o'.HasField property ↔ o.HasField property := by
  rw [← isSome_fieldText?_iff, h.fieldText?_eq, isSome_fieldText?_iff]

theorem ShowsAlike.symm (h : o.ShowsAlike o' property) : o'.ShowsAlike o property where
  fieldText?_eq := h.fieldText?_eq.symm
  get?_eq hfield name hname := (h.get?_eq (mt h.hasField_iff.2 hfield) name hname).symm

theorem ShowsAlike.refl (o : Object) (property : String) : o.ShowsAlike o property where
  fieldText?_eq := rfl
  get?_eq _ _ _ := rfl

theorem ShowsAlike.trans {o'' : Object} (h : o.ShowsAlike o' property)
    (h' : o'.ShowsAlike o'' property) : o.ShowsAlike o'' property where
  fieldText?_eq := h'.fieldText?_eq.trans h.fieldText?_eq
  get?_eq hfield name hname :=
    (h'.get?_eq (mt h.hasField_iff.1 hfield) name hname).trans (h.get?_eq hfield name hname)

theorem ShowsAlike.report?_eq (h : o.ShowsAlike o' property)
    (hnoted : o'.properties = o.properties) : o'.report? property = o.report? property := by
  rw [report?, report?, h.fieldText?_eq, hnoted]

theorem Reordered.showsAlike (h : o.Reordered o') (property : String) :
    o.ShowsAlike o' property := by
  obtain ⟨t, ht, rfl⟩ := h
  refine ⟨o.fieldText?_withProperties t property, fun _ name _ => ?_⟩
  rw [properties_withProperties, ht.get?_eq]

/-! ### Assignments -/

theorem withProperties_note (o : Object) (t : Table Value) (property : String) (v : Value) :
    (o.withProperties t).note property v =
      (o.note property v).withProperties (t.insert property v) := by
  cases o <;> rfl

/-- A field takes a value whatever was noted. -/
theorem withProperties_assign (o : Object) (t : Table Value) (property : String) (v : Value) :
    (o.withProperties t).assign property v =
      (o.assign property v).map fun assigned => assigned.withProperties t := by
  cases o with
  | spacecraft s =>
      simp only [withProperties, assign, Spacecraft.assign]
      cases Spacecraft.Field.ofName? property with
      | none => rfl
      | some field =>
          cases field with
          | epoch => cases v.toEpoch property <;> rfl
          | quantity q => cases v.toNumber property <;> cases q <;> rfl
  | propagator p =>
      simp only [withProperties, assign, Propagator.assign]
      cases Propagator.Field.ofName? property with
      | none => rfl
      | some field =>
          cases field with
          | kind => rfl
          | quantity q => cases v.toNumber property <;> cases q <;> rfl
  | other plain => rfl

/-- The order of the entries has no bearing on an assignment. -/
theorem Reordered.set (h : o.Reordered o') (property : String) (v : Value) :
    (o'.set property v).2 = (o.set property v).2 ∧
      (o.set property v).1.Reordered (o'.set property v).1 := by
  obtain ⟨t, ht, rfl⟩ := h
  have hentries : (t.insert property v).SameEntries (o.set property v).1.properties := by
    rw [properties_set, Table.sameEntries_iff]
    intro name
    rw [Table.get?_insert, Table.get?_insert, ht.get?_eq]
  have hset : (o.withProperties t).set property v =
      ((o.set property v).1.withProperties (t.insert property v), (o.set property v).2) := by
    rcases o.set_cases property v with ⟨assigned, -, ho⟩ | ⟨e, -, ho⟩
    · simp [Object.set, withProperties_note, withProperties_assign, ho, Except.map]
    · simp [Object.set, withProperties_note, withProperties_assign, ho, Except.map]
  rw [hset]
  exact ⟨rfl, _, hentries, rfl⟩

theorem showsAlike_set_of_ne {other : String} {v : Value} (h : o.set property v = (o', none))
    (hne : foldCase other ≠ foldCase property) : o.ShowsAlike o' other where
  fieldText?_eq := (fieldText?_assign_of_ne (assign_of_set h) hne).trans fieldText?_note
  get?_eq _ name hname := by
    have hname' : property ≠ name := by
      rintro rfl
      exact hne (of_decide_eq_true hname).symm
    rw [properties_assign (assign_of_set h), properties_note, Table.get?_insert_of_ne _ v hname']

/-! ### The answers -/

theorem mayReport_report? (o : Object) (property : String) :
    o.MayReport property (o.report? property) := by
  by_cases hfield : o.HasField property
  · rw [report?_of_hasField hfield]
    exact .field hfield
  · rw [report?_of_not_hasField hfield, notedValue?]
    cases hnoted : o.properties.get? property with
    | some v => exact .noted hfield hnoted
    | none =>
        cases hfind : o.properties.entries.find? fun e => sameIgnoringCase e.1 property with
        | some e =>
            have hname : sameIgnoringCase e.1 property := by simpa using List.find?_some hfind
            exact .spelled hfield hnoted (List.mem_of_find?_eq_some hfind) hname
        | none =>
            refine .nothing hfield fun name hname => ?_
            obtain ⟨e, he, rfl⟩ := List.mem_map.1 hname
            exact List.find?_eq_none.1 hfind e he

/-- What can be reported of a property depends on what is shown of it only. -/
theorem MayReport.of_showsAlike {answer : Option String} (h : o.ShowsAlike o' property)
    (h' : o'.MayReport property answer) : o.MayReport property answer := by
  cases h' with
  | field hfield =>
      rw [h.fieldText?_eq]
      exact .field (h.hasField_iff.1 hfield)
  | noted hfield hnoted =>
      have hnot := mt h.hasField_iff.2 hfield
      exact .noted hnot ((h.get?_eq hnot property (decide_eq_true rfl)).symm.trans hnoted)
  | spelled hfield hnoted he hname =>
      have hnot := mt h.hasField_iff.2 hfield
      rw [← Table.get?_eq_some_iff, h.get?_eq hnot _ hname, Table.get?_eq_some_iff] at he
      exact .spelled hnot ((h.get?_eq hnot property (decide_eq_true rfl)).symm.trans hnoted) he
        hname
  | nothing hfield hnone =>
      have hnot := mt h.hasField_iff.2 hfield
      refine .nothing hnot fun name hname hletters => hnone name ?_ hletters
      rwa [← Table.isSome_get?_iff, h.get?_eq hnot name hletters, Table.isSome_get?_iff]

theorem MayReport.of_reordered {answer : Option String} (h : o.Reordered o')
    (h' : o'.MayReport property answer) : o.MayReport property answer :=
  .of_showsAlike (h.showsAlike property) h'

/-- Every answer is given for some order: the entry that it shows is put first. -/
theorem MayReport.exists_reordered {answer : Option String} (h : o.MayReport property answer) :
    ∃ o', o.Reordered o' ∧ o'.report? property = answer := by
  cases h with
  | field hfield => exact ⟨o, reordered_refl o, report?_of_hasField hfield⟩
  | noted hfield hnoted =>
      refine ⟨o, reordered_refl o, ?_⟩
      rw [report?_of_not_hasField hfield, notedValue?, hnoted]
      rfl
  | @spelled name v hfield hnoted he hname =>
      obtain ⟨t, ht, rest, hentries⟩ := Table.exists_sameEntries_cons he
      refine ⟨o.withProperties t, ⟨t, ht, rfl⟩, ?_⟩
      rw [report?_of_not_hasField (mt hasField_withProperties.1 hfield),
        properties_withProperties, notedValue?, ht.get?_eq, hnoted, hentries]
      simp [hname]
  | nothing hfield hnone =>
      have hnoted : o.properties.get? property = none := by
        rw [Table.get?_eq_none_iff]
        exact fun hname => hnone property hname (decide_eq_true rfl)
      have hfind : (o.properties.entries.find? fun e => sameIgnoringCase e.1 property) = none :=
        List.find?_eq_none.2 fun e he => hnone e.1 (List.mem_map_of_mem he)
      refine ⟨o, reordered_refl o, ?_⟩
      rw [report?_of_not_hasField hfield, notedValue?, hnoted, hfind]
      rfl

/-- A report of the property shows the same in every order of the entries: there is a field of this
name, or something is noted under just this name, or all its spellings stand for one text. -/
def IsSettled (o : Object) (property : String) : Prop :=
  o.HasField property ∨ property ∈ o.properties.names ∨
    ∀ e ∈ o.properties.entries, ∀ e' ∈ o.properties.entries,
      sameIgnoringCase e.1 property → sameIgnoringCase e'.1 property → e.2.toText = e'.2.toText

instance (o : Object) (property : String) : Decidable (o.HasField property) :=
  decidable_of_iff _ isSome_fieldText?_iff

instance (o : Object) (property : String) : Decidable (o.IsSettled property) :=
  inferInstanceAs (Decidable (_ ∨ _ ∨ _))

theorem MayReport.unique {answer answer' : Option String} (hsettled : o.IsSettled property)
    (h : o.MayReport property answer) (h' : o.MayReport property answer') : answer = answer' := by
  cases h with
  | field hfield =>
      cases h' with
      | field => rfl
      | noted hnot => exact absurd hfield hnot
      | spelled hnot => exact absurd hfield hnot
      | nothing hnot => exact absurd hfield hnot
  | noted hfield hnoted =>
      have hname := (Table.isSome_get?_iff ..).1 (Option.isSome_iff_exists.2 ⟨_, hnoted⟩)
      cases h' with
      | field hfield' => exact absurd hfield' hfield
      | noted _ hnoted' => rw [Option.some.inj (hnoted.symm.trans hnoted')]
      | spelled _ hnone => cases hnoted.symm.trans hnone
      | nothing _ hnone => exact absurd (decide_eq_true rfl) (hnone property hname)
  | spelled hfield hnoted he hname =>
      cases h' with
      | field hfield' => exact absurd hfield' hfield
      | noted _ hnoted' => cases hnoted.symm.trans hnoted'
      | spelled _ _ he' hname' =>
          rcases hsettled with hfield' | hmem | hall
          · exact absurd hfield' hfield
          · exact absurd hmem ((Table.get?_eq_none_iff ..).1 hnoted)
          · exact congrArg some (hall _ he _ he' hname hname')
      | nothing _ hnone => exact absurd hname (hnone _ (List.mem_map_of_mem he))
  | nothing hfield hnone =>
      cases h' with
      | field hfield' => exact absurd hfield' hfield
      | noted _ hnoted' =>
          have hname := (Table.isSome_get?_iff ..).1 (Option.isSome_iff_exists.2 ⟨_, hnoted'⟩)
          exact absurd (decide_eq_true rfl) (hnone property hname)
      | spelled _ _ he' hname' => exact absurd hname' (hnone _ (List.mem_map_of_mem he'))
      | nothing => rfl

/-- What is reported of a property over all orders of the entries, and when it is the same for
all of them. -/
theorem reports_in_any_order (o : Object) (property : String) :
    (∀ answer, (∃ o', o.Reordered o' ∧ o'.report? property = answer) ↔
      o.MayReport property answer) ∧
    ((∀ o', o.Reordered o' → o'.report? property = o.report? property) ↔
      o.IsSettled property) := by
  have hreports : ∀ {o'}, o.Reordered o' → o.MayReport property (o'.report? property) :=
    fun ho' => (mayReport_report? _ property).of_reordered ho'
  refine ⟨fun answer => ⟨?_, MayReport.exists_reordered⟩, fun hsame => ?_,
    fun hsettled o' ho' => ?_⟩
  · rintro ⟨o', ho', rfl⟩
    exact hreports ho'
  · by_cases hfield : o.HasField property
    · exact Or.inl hfield
    by_cases hname : property ∈ o.properties.names
    · exact Or.inr (Or.inl hname)
    have hnoted := (o.properties.get?_eq_none_iff property).2 hname
    have hshown : ∀ e ∈ o.properties.entries, sameIgnoringCase e.1 property →
        some e.2.toText = o.report? property := by
      intro e he hspelled
      obtain ⟨o', ho', hreport⟩ :=
        (MayReport.spelled hfield hnoted he hspelled).exists_reordered
      rw [← hsame o' ho', hreport]
    refine Or.inr (Or.inr fun e he e' he' hspelled hspelled' => ?_)
    exact Option.some.inj ((hshown e he hspelled).trans (hshown e' he' hspelled').symm)
  · exact (hreports ho').unique hsettled (hreports (reordered_refl o))

/-- Two spellings of a name are noted in one order and in the other one. The same is then noted of
the two files under every name, and a third spelling is reported differently. -/
theorem reports_of_two_spellings :
    let noted : Assignment := ⟨"Note", .plain "a"⟩
    let noted' : Assignment := ⟨"NOTE", .plain "b"⟩
    let o := (create "ReportFile").setAll [noted, noted']
    let o' := (create "ReportFile").setAll [noted', noted]
    o.Reordered o' ∧ (∀ name, o.properties.get? name = o'.properties.get? name) ∧
      o.report? "note" = some "a" ∧ o'.report? "note" = some "b" := by
  intro noted noted' o o'
  have hsame : o'.properties.SameEntries o.properties := List.Perm.swap _ _ _
  exact ⟨⟨o'.properties, hsame, by decide +kernel⟩, fun name => (hsame.get?_eq name).symm,
    by decide +kernel, by decide +kernel⟩

end Object

end FlightScript
