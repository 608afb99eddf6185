import FlightScript.Proofs.Execution.Enumeration

/-!
# What a failing command leaves behind

A command that fails leaves the bindings as they were, or it is an assignment whose value
a field did not take, and then the value is noted with the object (`execute_error_eq`). The
property names that field, so that reports read the field and not what is noted. But what else
is noted with the object may come into another order, and then a token that is not settled may
stand for another text than before; no other token does (`unreported_of_error`).
-/

namespace FlightScript

namespace Object

/-- The objects are of one kind and all their fields are equal. -/
def SameFields : Object → Object → Prop
  | .spacecraft s, .spacecraft t => s.epoch = t.epoch ∧ ∀ q, s.get q = t.get q
  | .propagator p, .propagator q => p.kind = q.kind ∧ ∀ r, p.get r = q.get r
  | .other o, .other p => o.kind = p.kind
  | _, _ => False

theorem SameFields.refl (o : Object) : o.SameFields o := by
  cases o with
  | spacecraft s => exact ⟨rfl, fun _ => rfl⟩
  | propagator p => exact ⟨rfl, fun _ => rfl⟩
  | other o => exact rfl

theorem sameFields_note (o : Object) (property : String) (v : Value) :
    (o.note property v).SameFields o := by
  cases o with
  | spacecraft s => exact ⟨rfl, fun q => by cases q <;> rfl⟩
  | propagator p => exact ⟨rfl, fun q => by cases q <;> rfl⟩
  | other o => exact rfl

theorem SameFields.trans {o o' o'' : Object} (h : o.SameFields o') (h' : o'.SameFields o'') :
    o.SameFields o'' := by
  cases o <;> cases o' <;> first | exact h.elim | skip
  all_goals cases o'' <;> first | exact h'.elim | skip
  · exact ⟨h.1.trans h'.1, fun q => (h.2 q).trans (h'.2 q)⟩
  · exact ⟨h.1.trans h'.1, fun q => (h.2 q).trans (h'.2 q)⟩
  · exact Eq.trans h h'

theorem Reordered.sameFields {o o' : Object} (h : o.Reordered o') : o'.SameFields o := by
  obtain ⟨t, -, rfl⟩ := h
  cases o with
  | spacecraft s => exact ⟨rfl, fun q => by cases q <;> rfl⟩
  | propagator p => exact ⟨rfl, fun q => by cases q <;> rfl⟩
  | other o => exact rfl

theorem Reordered.get?_eq {o o' : Object} (h : o.Reordered o') (property : String) :
    o'.properties.get? property = o.properties.get? property := by
  obtain ⟨t, ht, rfl⟩ := h
  rw [properties_withProperties, ht.get?_eq]

/-- A value that a field did not take is not shown. -/
theorem showsAlike_note {o : Object} {property : String} (h : o.HasField property)
    (v : Value) (other : String) : o.ShowsAlike (o.note property v) other where
  fieldText?_eq := fieldText?_note
  get?_eq hfield name hname := by
    have hne : property ≠ name := by
      rintro rfl
      exact hfield (hasField_of_foldCase_eq (of_decide_eq_true hname).symm h)
    rw [properties_note, Table.get?_insert_of_ne _ v hne]

end Object

namespace Bindings

variable {b b' : Bindings} {step : Float} {c : Command} {e : ExecutionError}

/-- A command that fails changes nothing, but for a value that it notes with an object. -/
theorem execute_error_eq (h : b.execute step c = (b', some e)) :
    b' = b ∧ (∀ object property v, c ≠ .set object property v) ∨
      ∃ object property v o error, c = .set object property v ∧ e = .coercion error ∧
        b.objects.get? object = some o ∧ o.HasField property ∧
        b' = { b with objects := b.objects.insert object (o.note property v) } := by
  cases c with
  | set object property v =>
      simp only [execute, set] at h
      cases hobj : b.objects.get? object with
      | none => simp [hobj] at h
      | some o =>
          rcases ho : o.set property v with ⟨changed, _ | error⟩
          · simp [hobj, ho] at h
          · simp only [hobj, ho, Prod.mk.injEq, Option.some.injEq] at h
            obtain ⟨rfl, rfl⟩ := h
            obtain rfl := Object.eq_note_of_set ho
            exact Or.inr ⟨object, property, v, o, error, rfl, rfl, hobj,
              Object.hasField_of_set_error (by rw [ho]), rfl⟩
  | propagate propagator spacecraft stop =>
      refine Or.inl ⟨?_, fun _ _ _ hc => by cases hc⟩
      simp only [execute, propagate] at h
      cases hi : b.interval step propagator stop with
      | error err =>
          simp only [hi, Prod.mk.injEq] at h
          exact h.1.symm
      | ok days =>
          cases hm : b.moved spacecraft days with
          | error err =>
              simp only [hi, hm, Prod.mk.injEq] at h
              exact h.1.symm
          | ok craft => simp [hi, hm] at h
  | _ => simp [execute] at h

/-- After a failure each object is as it was, but for a value that may be noted with it. -/
theorem get?_note_of_error (h : b.execute step c = (b', some e)) {name : String} {o : Object}
    (ho : b.objects.get? name = some o) :
    ∃ o', b'.objects.get? name = some o' ∧ o'.SameFields o ∧
      (∀ property, (∀ v, c ≠ .set name property v) →
        o'.properties.get? property = o.properties.get? property) ∧
      ∀ property v, c = .set name property v →
        (∃ error, e = .coercion error) ∧ o'.properties.get? property = some v := by
  rcases execute_error_eq h with
    ⟨rfl, hset⟩ | ⟨object, property, v, old, error, rfl, rfl, hold, -, rfl⟩
  · exact ⟨o, ho, .refl o, fun _ _ => rfl, fun other w hc => absurd hc (hset name other w)⟩
  · by_cases hname : object = name
    · subst hname
      obtain rfl := Option.some.inj (hold.symm.trans ho)
      refine ⟨old.note property v, Table.get?_insert_self _ _ _, old.sameFields_note property v,
        fun other hother => ?_, fun other w hc => ?_⟩
      · have hne : property ≠ other := fun heq => hother v (heq ▸ rfl)
        rw [Object.properties_note, Table.get?_insert_of_ne _ v hne]
      · obtain ⟨-, rfl, rfl⟩ := Command.set.inj hc
        exact ⟨⟨error, rfl⟩, by rw [Object.properties_note, Table.get?_insert_self]⟩
    · refine ⟨o, ?_, .refl o, fun _ _ => rfl, fun other w hc => ?_⟩
      · exact (Table.get?_insert_of_ne _ _ hname).trans ho
      · exact absurd (Command.set.inj hc).1 hname

theorem readsAlike_of_error (h : b.execute step c = (b', some e)) (token : String) :
    b.ReadsAlike b' token := by
  rcases execute_error_eq h with ⟨rfl, -⟩ | ⟨object, property, v, o, _, -, -, ho, hfield, rfl⟩
  · exact (Alike.refl _).readsAlike token
  · exact readsAlike_insert fun other _ => ⟨o, ho, Object.showsAlike_note hfield v other⟩

theorem get?_eq_of_error (h : b.execute step c = (b', some e)) {name : String}
    (hc : ¬ c.AssignsTo name) : b'.objects.get? name = b.objects.get? name := by
  rcases execute_error_eq h with ⟨rfl, -⟩ | ⟨object, property, v, o, _, rfl, -, -, -, rfl⟩
  · rfl
  · exact Table.get?_insert_of_ne _ _ fun hname => hc ⟨property, v, hname ▸ rfl⟩

theorem mem_names_of_error (h : b.execute step c = (b', some e)) (name : String) :
    name ∈ b'.objects.names ↔ name ∈ b.objects.names := by
  rcases execute_error_eq h with ⟨rfl, -⟩ | ⟨object, property, v, o, _, -, -, ho, -, rfl⟩
  · exact Iff.rfl
  · have hmem : object ∈ b.objects.names := by
      rw [← Table.isSome_get?_iff, ho]
      rfl
    rw [Table.mem_names_insert]
    exact or_iff_right_of_imp fun heq => heq ▸ hmem

/-- A command that fails leaves the values, the log, the names of the objects, their kinds
and all their fields as they were, and what was assigned to them as well, but for a value
that a field did not take: it is noted with its object under the name as written. No token may
stand for a text that it did not stand for before in some order of what was noted; it stands for
the same text if it is settled, or if the command was no assignment to its object. -/
theorem unreported_of_error (h : b.MayExecute step c b' (some e)) :
    b'.values = b.values ∧ b'.log = b.log ∧
    (∀ name, name ∈ b'.objects.names ↔ name ∈ b.objects.names) ∧
    (∀ name o, b.objects.get? name = some o → ∃ o', b'.objects.get? name = some o' ∧
      o'.SameFields o ∧
      (∀ property, (∀ v, c ≠ .set name property v) →
        o'.properties.get? property = o.properties.get? property) ∧
      ∀ property v, c = .set name property v →
        (∃ error, e = .coercion error) ∧ o'.properties.get? property = some v) ∧
    ∀ token, b.KeepsText c b' token := by
  obtain ⟨d, hexecute, halike, hlog, hkept⟩ := h
  obtain ⟨hvalues', hlog'⟩ := execute_of_error hexecute
  refine ⟨halike.values_eq.trans hvalues', hlog.trans hlog', fun name => ?_, fun name o ho => ?_,
    fun token => ?_⟩
  · rw [halike.mem_names_iff, mem_names_of_error hexecute]
  · obtain ⟨o₁, ho₁, hfields, hothers, hset⟩ := get?_note_of_error hexecute ho
    obtain ⟨o', ho', hreordered⟩ := (halike.objects name).exists_of_eq_some ho₁
    refine ⟨o', ho', hreordered.sameFields.trans hfields, fun property hc => ?_,
      fun property v hc => ?_⟩
    · rw [hreordered.get?_eq, hothers property hc]
    · rw [hreordered.get?_eq]
      exact hset property v hc
  · refine (readsAlike_of_error hexecute token).keepsText (fun name hc _ => ?_) halike hkept
    rw [get?_eq_of_error hexecute hc]

/-- A mass that is no number is noted beside the one that was assigned in other letters, and
the field is reported with the number that it has. -/
theorem unreported_of_mass_without_number :
    let b := ((Bindings.empty.create "Spacecraft" "Sat").set "Sat" "drymass" (.plain "5.5")).1
    let b' := (b.set "Sat" "DryMass" (.plain "heavy")).1
    b'.log = b.log ∧ b'.resolve "Sat.DRYMASS" = b.resolve "Sat.DRYMASS" ∧
      b.resolve "Sat.DRYMASS" = "5.500000" ∧
      ∃ o', b'.objects.get? "Sat" = some o' ∧
        o'.properties.get? "DryMass" = some (.plain "heavy") ∧
        o'.properties.get? "drymass" = some (.plain "5.5") := by
  intro b b'
  have herror : b.execute 60 (.set "Sat" "DryMass" (.plain "heavy")) =
      (b', some (.coercion ⟨"DryMass", .plain "heavy", .number⟩)) := by
    decide +kernel
  have hmay : b.MayExecute 60 (.set "Sat" "DryMass" (.plain "heavy")) b'
      (some (.coercion ⟨"DryMass", .plain "heavy", .number⟩)) :=
    ⟨b', herror, .refl b', rfl, fun _ _ => rfl⟩
  obtain ⟨-, hlog, -, hobjects, htexts⟩ := unreported_of_error hmay
  have hdrymass : (b.objects.get? "Sat").map (fun o => o.properties.get? "drymass") =
      some (some (.plain "5.5")) := by
    decide +kernel
  obtain ⟨o, ho, hfirst⟩ := Option.map_eq_some_iff.1 hdrymass
  obtain ⟨o', ho', -, hkept, hnoted⟩ := hobjects "Sat" o ho
  have hsettled : b.IsSettled "Sat.DRYMASS" := by decide +kernel
  refine ⟨hlog, (htexts _).resolve_eq (Or.inl hsettled), by decide +kernel, o', ho',
    (hnoted _ _ rfl).2, ?_⟩
  rw [hkept "drymass" fun v hv => absurd (Command.set.inj hv).2.1 (by decide), hfirst]

/-- A spacecraft has two notes that differ in case only, the one after the other. A mass that it
does not take may bring them into the other order, and then a third spelling is reported
differently. -/
theorem reports_differ_after_failure :
    let noted : Assignment := ⟨"Note", .plain "a"⟩
    let noted' : Assignment := ⟨"NOTE", .plain "b"⟩
    let mass : Assignment := ⟨"DryMass", .plain "heavy"⟩
    let of (assignments : List Assignment) : Bindings :=
      { Bindings.empty with
        objects := Table.empty.insert "Sat" ((Object.create "Spacecraft").setAll assignments) }
    (of [noted, noted']).MayExecute 60 (.set "Sat" "DryMass" mass.value)
        (of [noted', noted, mass]) (some (.coercion ⟨"DryMass", mass.value, .number⟩)) ∧
      (of [noted, noted']).resolve "Sat.note" = "a" ∧
      (of [noted', noted, mass]).resolve "Sat.note" = "b" := by
  intro noted noted' mass of
  have hexecute : (of [noted, noted']).execute 60 (.set "Sat" "DryMass" mass.value) =
      (of [noted, noted', mass], some (.coercion ⟨"DryMass", mass.value, .number⟩)) := by
    decide +kernel
  let sat := (Object.create "Spacecraft").setAll [noted, noted', mass]
  let sat' := (Object.create "Spacecraft").setAll [noted', noted, mass]
  have hentries : sat'.properties.entries.Perm sat.properties.entries := by
    decide +kernel
  have hreordered : sat.Reordered sat' := ⟨sat'.properties, hentries, by decide +kernel⟩
  have halike : (of [noted, noted', mass]).Alike (of [noted', noted, mass]) :=
    (Alike.refl .empty).insert hreordered "Sat"
  refine ⟨⟨_, hexecute, halike, rfl, fun name hname => ?_⟩, by decide +kernel, by decide +kernel⟩
  have hne : "Sat" ≠ name := fun heq => hname ⟨"DryMass", mass.value, heq ▸ rfl⟩
  exact (Table.get?_insert_of_ne _ _ hne).trans (Table.get?_insert_of_ne _ _ hne).symm

end Bindings

end FlightScript
