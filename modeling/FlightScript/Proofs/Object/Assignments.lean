import FlightScript.Proofs.Last
import FlightScript.Proofs.Object.Report

/-!
# Assignments one after the other

Every assignment is noted under the name as written, whether it fails or not
(`properties_set`). The field that it names changes if it succeeds (`content?_set_self`), and
no other field ever does. Whether it succeeds depends on the kind of the object and the value
alone (`takes_iff`). So after any number of assignments each field holds what the last one
has put there that named it in any case and succeeded, and each name that was written stands
for the value that was last assigned to it.
-/

namespace FlightScript

open Text

structure Assignment where
  property : String
  value : Value
  deriving DecidableEq

namespace Object

def setAll (o : Object) (assignments : List Assignment) : Object :=
  assignments.foldl (fun o a => (o.set a.property a.value).1) o

def Takes (o : Object) (a : Assignment) : Prop :=
  (o.set a.property a.value).2 = none

instance (o : Object) (a : Assignment) : Decidable (o.Takes a) :=
  inferInstanceAs (Decidable (_ = none))

/-- After some assignments the next one names a property, in any case, and succeeds. -/
def PutsInto (o : Object) (property : String) (front : List Assignment) (a : Assignment) : Prop :=
  sameIgnoringCase a.property property ∧ (o.setAll front).Takes a

variable {o o' : Object} {property other : String} {v : Value}

theorem setAll_append_singleton (o : Object) (front : List Assignment) (a : Assignment) :
    o.setAll (front ++ [a]) = ((o.setAll front).set a.property a.value).1 := by
  simp [setAll]

/-! ### One assignment -/

theorem content?_note : (o.note property v).content? other = o.content? other := by
  cases o <;> rfl

theorem reading?_note {w : Value} : (o.note property w).reading? other v = o.reading? other v := by
  cases o <;> rfl

/-- An assignment succeeds, or it only notes its value. -/
theorem set_cases (o : Object) (property : String) (v : Value) :
    (∃ o', o.set property v = (o', none) ∧ (o.note property v).assign property v = .ok o') ∨
      ∃ e, o.set property v = (o.note property v, some e) ∧
        (o.note property v).assign property v = .error e := by
  cases h : (o.note property v).assign property v with
  | ok o' => exact Or.inl ⟨o', by simp [set, h], rfl⟩
  | error e => exact Or.inr ⟨e, by simp [set, h], rfl⟩

theorem takes_iff (o : Object) (a : Assignment) :
    o.Takes a ↔ (o.HasField a.property → (o.reading? a.property a.value).isSome) := by
  have herror : (∃ e, (o.note a.property a.value).assign a.property a.value = .error e) ↔ _ :=
    exists_assign_error_iff
  rw [hasField_note, reading?_note] at herror
  rw [← Option.ne_none_iff_isSome, ← not_and, ← herror, Takes]
  rcases o.set_cases a.property a.value with ⟨o', hset, hassign⟩ | ⟨e, hset, hassign⟩
  · simp [hset, hassign]
  · simp [hset, hassign]

theorem properties_set (o : Object) (property : String) (v : Value) :
    (o.set property v).1.properties = o.properties.insert property v := by
  rcases o.set_cases property v with ⟨o', hset, hassign⟩ | ⟨e, hset, -⟩
  · rw [hset, properties_assign hassign, properties_note]
  · rw [hset, properties_note]

theorem reading?_set {w : Value} :
    (o.set property w).1.reading? other v = o.reading? other v := by
  rcases o.set_cases property w with ⟨o', hset, hassign⟩ | ⟨e, hset, -⟩
  · rw [hset, reading?_assign hassign, reading?_note]
  · rw [hset, reading?_note]

theorem hasField_set_iff : (o.set property v).1.HasField other ↔ o.HasField other := by
  rcases o.set_cases property v with ⟨o', hset, -⟩ | ⟨e, hset, -⟩
  · rw [hset, hasField_set hset]
  · rw [hset, hasField_note]

theorem content?_set_self (h : (o.set property v).2 = none)
    (hsame : foldCase property = foldCase other) :
    (o.set property v).1.content? other = o.reading? other v := by
  rcases o.set_cases property v with ⟨o', hset, hassign⟩ | ⟨e, hset, -⟩
  · rw [hset, ← content?_of_foldCase_eq hsame, content?_assign_self hassign, reading?_note,
      reading?_of_foldCase_eq hsame]
  · simp [hset] at h

theorem content?_set_of_not (h : ¬ (foldCase property = foldCase other ∧
    (o.set property v).2 = none)) : (o.set property v).1.content? other = o.content? other := by
  rcases o.set_cases property v with ⟨o', hset, hassign⟩ | ⟨e, hset, -⟩
  · have hne : foldCase other ≠ foldCase property := fun heq => h ⟨heq.symm, by rw [hset]⟩
    rw [hset, content?_assign_of_ne hassign hne, content?_note]
  · rw [hset, content?_note]

/-! ### Any number of assignments -/

theorem reading?_setAll (o : Object) (assignments : List Assignment) (property : String)
    (v : Value) : (o.setAll assignments).reading? property v = o.reading? property v := by
  induction assignments using List.reverseRecOn with
  | nil => rfl
  | append_singleton front a ih => rw [setAll_append_singleton, reading?_set, ih]

theorem hasField_setAll (o : Object) (assignments : List Assignment) (property : String) :
    (o.setAll assignments).HasField property ↔ o.HasField property := by
  induction assignments using List.reverseRecOn with
  | nil => exact Iff.rfl
  | append_singleton front a ih => rw [setAll_append_singleton, hasField_set_iff, ih]

theorem content?_setAll_of_puts {front : List Assignment} {a : Assignment}
    (h : o.PutsInto property front a) :
    (o.setAll (front ++ [a])).content? property = o.reading? property a.value := by
  rw [setAll_append_singleton, content?_set_self h.2 (of_decide_eq_true h.1), reading?_setAll]

theorem content?_setAll_of_not_puts {front : List Assignment} {a : Assignment}
    (h : ¬ o.PutsInto property front a) :
    (o.setAll (front ++ [a])).content? property = (o.setAll front).content? property := by
  rw [setAll_append_singleton]
  exact content?_set_of_not fun hputs => h ⟨decide_eq_true hputs.1, hputs.2⟩

theorem get?_properties_setAll_of_eq {front : List Assignment} {a : Assignment}
    (h : a.property = property) :
    (o.setAll (front ++ [a])).properties.get? property = some a.value := by
  rw [setAll_append_singleton, properties_set, h, Table.get?_insert_self]

theorem get?_properties_setAll_of_ne {front : List Assignment} {a : Assignment}
    (h : ¬ a.property = property) :
    (o.setAll (front ++ [a])).properties.get? property =
      (o.setAll front).properties.get? property := by
  rw [setAll_append_singleton, properties_set, Table.get?_insert_of_ne _ _ h]

theorem properties_create (kind : String) : (create kind).properties = .empty := by
  unfold create
  split <;> rfl

/-- After any assignments to a new object, each of its fields holds what it reads the last
value as that was assigned to it with success, under its name in any case, or what it held at
first; and what is noted under a name is the value that was last assigned to just this
name, with success or without. An assignment fails just if it names a field that does not
take its value, and a failing one, like one that names no field, leaves all fields alone. -/
theorem in_step_after (kind : String) (assignments : List Assignment) :
    let o := create kind
    let o' := o.setAll assignments
    (∀ property, o.HasField property →
      (∀ a, IsLast (o.PutsInto property) assignments a →
        (o.reading? property a.value).isSome ∧
          o'.content? property = o.reading? property a.value) ∧
      (¬ Counts (o.PutsInto property) assignments →
        o'.content? property = o.content? property)) ∧
    (∀ name,
      (∀ a, IsLast (fun _ a => a.property = name) assignments a →
        o'.properties.get? name = some a.value) ∧
      (¬ Counts (fun _ a => a.property = name) assignments →
        o'.properties.get? name = none)) ∧
    (∀ a, ¬ o'.Takes a ↔ o.HasField a.property ∧ o.reading? a.property a.value = none) ∧
    (∀ a, ¬ o'.Takes a ∨ ¬ o.HasField a.property →
      ∀ property, (o'.set a.property a.value).1.content? property = o'.content? property) ∧
    ((∃ p, o = .propagator p) → ∀ a, foldCase a.property = "type" → o'.Takes a) ∧
    ((∃ plain, o = .other plain) → ∀ a, o'.Takes a) := by
  intro o o'
  have htakes : ∀ a, o'.Takes a ↔
      (o.HasField a.property → (o.reading? a.property a.value).isSome) := by
    intro a
    rw [takes_iff, hasField_setAll, reading?_setAll]
  refine ⟨fun property hfield => ⟨fun a ha => ⟨?_, ?_⟩, fun hnone => ?_⟩,
    fun name => ⟨fun a ha => ?_, fun hnone => ?_⟩, fun a => ?_, fun a ha property => ?_, ?_, ?_⟩
  · obtain ⟨front, rest, -, hputs, -⟩ := ha
    rw [PutsInto, takes_iff, hasField_setAll, reading?_setAll] at hputs
    have hletters := of_decide_eq_true hputs.1
    rw [← reading?_of_foldCase_eq hletters]
    exact hputs.2 (hasField_of_foldCase_eq hletters hfield)
  · exact eq_of_isLast (g := fun l => (o.setAll l).content? property)
      (f := fun a => o.reading? property a.value) (fun _ _ _ _ => content?_setAll_of_puts)
      (fun _ _ _ _ => content?_setAll_of_not_puts) ha
  · exact eq_of_not_counts (g := fun l => (o.setAll l).content? property)
      (fun _ _ _ _ => content?_setAll_of_not_puts) hnone
  · exact eq_of_isLast (g := fun l => (o.setAll l).properties.get? name)
      (f := fun a => some a.value) (fun _ _ _ _ => get?_properties_setAll_of_eq)
      (fun _ _ _ _ => get?_properties_setAll_of_ne) ha
  · have hfirst := eq_of_not_counts (g := fun l => (o.setAll l).properties.get? name)
      (fun _ _ _ _ => get?_properties_setAll_of_ne) hnone
    exact hfirst.trans (by rw [setAll, List.foldl_nil, properties_create, Table.get?_empty])
  · rw [htakes, Classical.not_imp, Option.not_isSome_iff_eq_none]
  · by_cases hputs : foldCase a.property = foldCase property ∧
        (o'.set a.property a.value).2 = none
    · -- the assignment succeeds, so it names no field, and neither does `property`
      have hfield : ¬ o.HasField a.property := ha.resolve_left (not_not.2 hputs.2)
      have hother : ¬ o'.HasField property := fun h =>
        hfield (hasField_of_foldCase_eq hputs.1 ((hasField_setAll ..).1 h))
      rw [content?_eq_none hother, content?_eq_none (mt hasField_set_iff.1 hother)]
    · exact content?_set_of_not hputs
  · rintro ⟨p, hp⟩ a htype
    have hkind : Propagator.Field.ofName? a.property = some .kind :=
      Propagator.Field.ofName?_eq_some_iff.2 htype
    rw [htakes, hp, reading?, hkind]
    exact fun _ => rfl
  · rintro ⟨plain, hplain⟩ a
    rw [htakes, hplain]
    exact False.elim

/-- A value that a spacecraft does not take as its `x` is noted under the name as it was
written there, beside the value that it took under another one. -/
theorem in_step_after_failure :
    let taken : Assignment := ⟨"X", .number 7000⟩
    let refused : Assignment := ⟨"x", .plain "far"⟩
    let o := (create "Spacecraft").setAll ([taken] ++ [refused])
    o.content? "x" = some (.number 7000) ∧ o.properties.get? "X" = some (.number 7000) ∧
      o.properties.get? "x" = some (.plain "far") ∧ ¬ o.Takes refused := by
  intro taken refused o
  obtain ⟨hfields, hnoted, htakes, -⟩ := in_step_after "Spacecraft" ([taken] ++ [refused])
  have hfield : (create "Spacecraft").HasField "x" :=
    (by decide : foldCase "x" ∈ Spacecraft.vocabulary)
  have hnot : ¬ (create "Spacecraft").PutsInto "x" [taken] refused := fun hputs =>
    absurd hputs.2 (by decide +kernel)
  have hputs : (create "Spacecraft").PutsInto "x" [] taken :=
    ⟨by decide +kernel, by decide +kernel⟩
  refine ⟨((hfields "x" hfield).1 taken ?_).2, (hnoted "X").1 taken ?_,
    (hnoted "x").1 refused ?_, (htakes refused).2 ⟨hfield, by decide +kernel⟩⟩
  · exact (isLast_append_singleton_of_neg hnot).2 ((isLast_append_singleton_of_pos hputs).2 rfl)
  · rw [isLast_append_singleton_of_neg (by decide)]
    exact (isLast_append_singleton_of_pos (l := []) rfl).2 rfl
  · exact (isLast_append_singleton_of_pos rfl).2 rfl

end Object

end FlightScript
