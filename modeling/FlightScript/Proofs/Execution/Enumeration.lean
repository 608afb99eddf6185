import FlightScript.Proofs.Execution.Sequence
import FlightScript.Proofs.Object.Enumeration

/-!
# Execution and the order of what was noted

An assignment to an object may bring everything that is noted with it into another order.
`b.MayExecute step c b' e` leaves this order open, and `b.MayResolve token text` says that a
token stands for a text in some order. What is done with bindings that are alike but for the
order leaves alike bindings behind and fails alike (`Alike.execute`), so that nothing but the
text of reports depends on it, and this text only where a token is not settled
(`MayResolve.unique`).
-/

namespace Option.Rel

variable {α β γ : Type} {r : α → β → Prop} {x : Option α} {y : Option β} {z : Option γ}

theorem of_refl {r : α → α → Prop} (h : ∀ a, r a a) (x : Option α) : Option.Rel r x x := by
  cases x with
  | none => exact .none
  | some a => exact .some (h a)

theorem imp {s : α → β → Prop} (h : Option.Rel r x y) (hrs : ∀ a b, r a b → s a b) :
    Option.Rel s x y := by
  cases h with
  | none => exact .none
  | some hab => exact .some (hrs _ _ hab)

theorem swap {s : β → α → Prop} (h : Option.Rel r x y) (hrs : ∀ a b, r a b → s b a) :
    Option.Rel s y x := by
  cases h with
  | none => exact .none
  | some hab => exact .some (hrs _ _ hab)

theorem comp {s : β → γ → Prop} {t : α → γ → Prop} (h : Option.Rel r x y)
    (h' : Option.Rel s y z) (hrst : ∀ a b c, r a b → s b c → t a c) : Option.Rel t x z := by
  cases h with
  | none =>
      cases h' with
      | none => exact .none
  | some hab =>
      cases h' with
      | some hbc => exact .some (hrst _ _ _ hab hbc)

theorem exists_of_eq_some {a : α} (h : Option.Rel r x y) (hx : x = Option.some a) :
    ∃ b, y = Option.some b ∧ r a b := by
  cases h with
  | none => cases hx
  | @some a' b hab =>
      obtain rfl := Option.some.inj hx
      exact ⟨b, rfl, hab⟩

theorem eq_none (h : Option.Rel r x y) (hx : x = Option.none) : y = Option.none := by
  cases h with
  | none => rfl
  | some => cases hx

end Option.Rel

namespace FlightScript

/-- The command assigns to a property of something with this name. -/
def Command.AssignsTo (c : Command) (name : String) : Prop :=
  ∃ property v, c = .set name property v

namespace Spacecraft

/-- A spacecraft that was moved is turned and has another epoch. -/
theorem exists_turn_of_propagate {s s' : Spacecraft} {seconds : Float}
    (h : s.propagate seconds = .ok s') :
    ∃ angle epoch, s' = { s.turn angle with epoch := epoch } := by
  unfold propagate at h
  split at h
  · cases h
  · split at h
    · cases h
    · split at h
      · cases h
      · exact ⟨_, _, (Except.ok.inj h).symm⟩

theorem propagate_withProperties (s : Spacecraft) (t : Table Value) (seconds : Float) :
    { s with properties := t }.propagate seconds =
      (s.propagate seconds).map fun moved => { moved with properties := t } := by
  have hradius : radius { s with properties := t } = s.radius := rfl
  have hepoch : epochAfter? { s with properties := t } seconds = s.epochAfter? seconds := rfl
  simp only [propagate, hradius, hepoch]
  split
  · rfl
  · split
    · rfl
    · cases s.epochAfter? seconds <;> rfl

end Spacecraft

namespace Bindings

/-- The same names are bound to the same values, and to objects that differ at most in the order of
what was noted. The logs may differ. -/
structure Alike (b b' : Bindings) : Prop where
  values_eq : b'.values = b.values
  objects (name : String) :
    Option.Rel Object.Reordered (b.objects.get? name) (b'.objects.get? name)

/-- A text that a token stands for in some order of what was noted. -/
def MayResolve (b : Bindings) (token text : String) : Prop :=
  ∃ b', b.Alike b' ∧ b'.resolve token = text

/-- The token stands for one text in every order. -/
def IsSettled (b : Bindings) (token : String) : Prop :=
  ∀ object property, splitAtPoint? token.toList = some (object, property) →
    ∀ o, b.objects.get? (String.ofList object) = some o → o.IsSettled (String.ofList property)

/-- A command leads from `b` to `b'`, with this error or none, if what is noted with the object
that it assigns to may stand in any order after it. -/
def MayExecute (b : Bindings) (step : Float) (c : Command) (b' : Bindings)
    (e : Option ExecutionError) : Prop :=
  ∃ d, b.execute step c = (d, e) ∧ d.Alike b' ∧ b'.log = d.log ∧
    ∀ name, ¬ c.AssignsTo name → b'.objects.get? name = d.objects.get? name

/-- After a command that leads from `b` to `b'` a token may stand for the same texts as before. It
stands for the very same one if it is settled, or names no property of an object that the command
assigns to. -/
structure KeepsText (b : Bindings) (c : Command) (b' : Bindings) (token : String) : Prop where
  mayResolve_iff (text : String) : b'.MayResolve token text ↔ b.MayResolve token text
  resolve_eq : b.IsSettled token ∨
      (∀ name property, c.AssignsTo name → token ≠ dotted name property) →
    b'.resolve token = b.resolve token

variable {b b' d : Bindings} {step : Float} {c : Command} {e : Option ExecutionError}
  {name token text : String}

/-! ### Bindings that are alike -/

theorem Alike.refl (b : Bindings) : b.Alike b where
  values_eq := rfl
  objects _ := .of_refl Object.reordered_refl _

theorem Alike.symm (h : b.Alike b') : b'.Alike b where
  values_eq := h.values_eq.symm
  objects name := (h.objects name).swap fun _ _ ho => ho.symm

theorem Alike.trans (h : b.Alike b') (h' : b'.Alike d) : b.Alike d where
  values_eq := h'.values_eq.trans h.values_eq
  objects name := (h.objects name).comp (h'.objects name) fun _ _ _ ho ho' => ho.trans ho'

theorem Alike.append (h : b.Alike b') (line line' : String) :
    (b.append line).Alike (b'.append line') :=
  ⟨h.values_eq, h.objects⟩

theorem Alike.assign (h : b.Alike b') (name : String) (v : Value) :
    (b.assign name v).Alike (b'.assign name v) :=
  ⟨congrArg (Table.insert · name v) h.values_eq, h.objects⟩

theorem Alike.insert (h : b.Alike b') {o o' : Object} (ho : o.Reordered o') (name : String) :
    Alike { b with objects := b.objects.insert name o }
      { b' with objects := b'.objects.insert name o' } where
  values_eq := h.values_eq
  objects other := by
    rw [Table.get?_insert, Table.get?_insert]
    by_cases hname : name = other
    · rw [if_pos hname, if_pos hname]
      exact .some ho
    · rw [if_neg hname, if_neg hname]
      exact h.objects other

/-- What is noted with one object may be brought into another order. -/
theorem alike_insert {o o' : Object} (ho : b.objects.get? name = some o) (h : o.Reordered o') :
    b.Alike { b with objects := b.objects.insert name o' } where
  values_eq := rfl
  objects other := by
    rw [Table.get?_insert]
    by_cases hname : name = other
    · rw [if_pos hname, ← hname, ho]
      exact .some h
    · rw [if_neg hname]
      exact .of_refl Object.reordered_refl _

theorem Alike.mem_names_iff (h : b.Alike b') (name : String) :
    name ∈ b'.objects.names ↔ name ∈ b.objects.names := by
  have hobject := h.objects name
  rw [← Table.isSome_get?_iff, ← Table.isSome_get?_iff]
  generalize b.objects.get? name = o, b'.objects.get? name = o' at hobject
  cases hobject with
  | none => exact Iff.rfl
  | some => exact Iff.rfl

theorem Alike.interval_eq (h : b.Alike b') (propagator : String) (stop : Option StopClause) :
    b'.interval step propagator stop = b.interval step propagator stop := by
  cases stop with
  | some stop => rfl
  | none =>
      have hobject := h.objects propagator
      simp only [interval]
      generalize b.objects.get? propagator = o, b'.objects.get? propagator = o' at hobject
      cases hobject with
      | none => rfl
      | @some o o' ho =>
          obtain ⟨t, -, rfl⟩ := ho
          cases o <;> rfl

/-- A spacecraft is moved alike, or it is not for the same reason. -/
theorem Alike.moved_cases (h : b.Alike b') (name : String) (days : Float) :
    (∃ error, b.moved name days = .error error ∧ b'.moved name days = .error error) ∨
      ∃ s s', b.moved name days = .ok s ∧ b'.moved name days = .ok s' ∧
        (Object.spacecraft s).Reordered (.spacecraft s') := by
  have hobject := h.objects name
  simp only [moved, spacecraft]
  generalize b.objects.get? name = o, b'.objects.get? name = o' at hobject
  cases hobject with
  | none => exact Or.inl ⟨_, rfl, rfl⟩
  | @some o o' ho =>
      obtain ⟨t, ht, rfl⟩ := ho
      cases o with
      | spacecraft s =>
          simp only [Object.withProperties, Spacecraft.propagateDays,
            Spacecraft.propagate_withProperties]
          cases hs : s.propagate (days * daySeconds) with
          | error error => exact Or.inl ⟨_, rfl, rfl⟩
          | ok moved =>
              obtain ⟨angle, epoch, rfl⟩ := Spacecraft.exists_turn_of_propagate hs
              exact Or.inr ⟨_, _, rfl, rfl, t, ht, rfl⟩
      | propagator p => exact Or.inl ⟨_, rfl, rfl⟩
      | other plain => exact Or.inl ⟨_, rfl, rfl⟩

theorem Alike.set (h : b.Alike b') (object property : String) (v : Value) :
    (b'.set object property v).2 = (b.set object property v).2 ∧
      (b.set object property v).1.Alike (b'.set object property v).1 := by
  cases ho : b.objects.get? object with
  | none =>
      simp only [Bindings.set, ho, (h.objects object).eq_none ho]
      exact ⟨trivial, (h.assign _ v).append _ _⟩
  | some o =>
      obtain ⟨o', ho', hreordered⟩ := (h.objects object).exists_of_eq_some ho
      obtain ⟨herror, hset⟩ := hreordered.set property v
      simp only [Bindings.set, ho, ho', herror]
      cases (o.set property v).2 with
      | none => exact ⟨rfl, (h.insert hset object).append _ _⟩
      | some error => exact ⟨rfl, h.insert hset object⟩

theorem Alike.propagate (h : b.Alike b') (step : Float) (propagator spacecraft : String)
    (stop : Option StopClause) :
    (b'.propagate step propagator spacecraft stop).2 =
        (b.propagate step propagator spacecraft stop).2 ∧
      (b.propagate step propagator spacecraft stop).1.Alike
        (b'.propagate step propagator spacecraft stop).1 := by
  simp only [Bindings.propagate, h.interval_eq]
  cases b.interval step propagator stop with
  | error error => exact ⟨rfl, h⟩
  | ok days =>
      rcases h.moved_cases spacecraft days with ⟨error, hm, hm'⟩ | ⟨s, s', hm, hm', hs⟩
      · simp only [hm, hm']
        exact ⟨trivial, h⟩
      · simp only [hm, hm']
        exact ⟨trivial, (h.insert hs spacecraft).append _ _⟩

/-- Commands do alike to bindings that are alike, and fail alike. -/
theorem Alike.execute (h : b.Alike b') (step : Float) (c : Command) :
    (b'.execute step c).2 = (b.execute step c).2 ∧
      (b.execute step c).1.Alike (b'.execute step c).1 := by
  cases c with
  | create kind name =>
      exact ⟨rfl, (h.insert (Object.reordered_refl (.create kind)) name).append _ _⟩
  | set object property v => exact h.set object property v
  | propagate propagator spacecraft stop => exact h.propagate step propagator spacecraft stop
  | report tokens => exact ⟨rfl, h.append _ _⟩
  | «variable» name v => exact ⟨rfl, (h.assign name v).append _ _⟩
  | save object => exact ⟨rfl, h.append _ _⟩
  | _ => exact ⟨rfl, h⟩

/-! ### What tokens stand for -/

theorem eq_dotted_of_splitAtPoint? {object property : List Char}
    (h : splitAtPoint? token.toList = some (object, property)) :
    token = dotted (String.ofList object) (String.ofList property) := by
  rw [splitAtPoint?_eq_some_iff] at h
  rw [← String.toList_inj, h.1]
  simp [dotted]

/-- A token is read alike, but for the order of what was noted: the same variable has its name, and
if it names a property, then the objects show the same of it. -/
structure ReadsAlike (b b' : Bindings) (token : String) : Prop where
  value_eq : b'.values.get? token = b.values.get? token
  objects (object property : List Char) :
    splitAtPoint? token.toList = some (object, property) →
      Option.Rel (fun o o' => o.ShowsAlike o' (String.ofList property))
        (b.objects.get? (String.ofList object)) (b'.objects.get? (String.ofList object))

theorem ReadsAlike.symm (h : b.ReadsAlike b' token) : b'.ReadsAlike b token where
  value_eq := h.value_eq.symm
  objects object property hsplit := (h.objects object property hsplit).swap fun _ _ ho => ho.symm

theorem ReadsAlike.trans (h : b.ReadsAlike b' token) (h' : b'.ReadsAlike d token) :
    b.ReadsAlike d token where
  value_eq := h'.value_eq.trans h.value_eq
  objects object property hsplit :=
    (h.objects object property hsplit).comp (h'.objects object property hsplit)
      fun _ _ _ ho ho' => ho.trans ho'

theorem Alike.readsAlike (h : b.Alike b') (token : String) : b.ReadsAlike b' token where
  value_eq := congrArg (Table.get? · token) h.values_eq
  objects object _ _ := (h.objects (String.ofList object)).imp fun _ _ ho => ho.showsAlike _

theorem readsAlike_append (b : Bindings) (line token : String) :
    b.ReadsAlike (b.append line) token where
  value_eq := rfl
  objects _ property _ := .of_refl (fun o => .refl o (String.ofList property)) _

theorem readsAlike_assign (h : token ≠ name) (b : Bindings) (v : Value) :
    b.ReadsAlike (b.assign name v) token where
  value_eq := Table.get?_insert_of_ne _ _ h.symm
  objects _ property _ := .of_refl (fun o => .refl o (String.ofList property)) _

/-- An object put under a name is told by the tokens of its properties only, and by those only if it
shows something else than the object before it. -/
theorem readsAlike_insert {o : Object} (h : ∀ property, token = dotted name property →
      ∃ old, b.objects.get? name = some old ∧ old.ShowsAlike o property) :
    b.ReadsAlike { b with objects := b.objects.insert name o } token where
  value_eq := rfl
  objects object property hsplit := by
    rw [Table.get?_insert]
    by_cases hname : name = String.ofList object
    · obtain ⟨old, hold, hshows⟩ := h _ (hname ▸ eq_dotted_of_splitAtPoint? hsplit)
      rw [if_pos hname, ← hname, hold]
      exact .some hshows
    · rw [if_neg hname]
      exact .of_refl (fun o => .refl o (String.ofList property)) _

theorem resolve_eq_of_object {object property : List Char} {o : Object}
    (hsplit : splitAtPoint? token.toList = some (object, property))
    (ho : b.objects.get? (String.ofList object) = some o) :
    b.resolve token = (o.report? (String.ofList property)).getD notAvailableText := by
  simp only [resolve, hsplit, ho]

/-- A token names a property of an object, or there is no object of this name. -/
theorem token_cases (b : Bindings) (token : String) :
    (∃ object property o, splitAtPoint? token.toList = some (object, property) ∧
      b.objects.get? (String.ofList object) = some o) ∨
      ∀ object property, splitAtPoint? token.toList = some (object, property) →
        b.objects.get? (String.ofList object) = none := by
  by_cases hobject : ∃ object property o, splitAtPoint? token.toList = some (object, property) ∧
      b.objects.get? (String.ofList object) = some o
  · exact Or.inl hobject
  · refine Or.inr fun object property hsplit => ?_
    exact Option.eq_none_iff_forall_ne_some.2 fun o ho => hobject ⟨object, property, o, hsplit, ho⟩

theorem mayResolve_resolve (b : Bindings) (token : String) :
    b.MayResolve token (b.resolve token) :=
  ⟨b, .refl b, rfl⟩

theorem isSettled_iff_of_object {object property : List Char} {o : Object}
    (hsplit : splitAtPoint? token.toList = some (object, property))
    (ho : b.objects.get? (String.ofList object) = some o) :
    b.IsSettled token ↔ o.IsSettled (String.ofList property) := by
  constructor
  · exact fun hsettled => hsettled object property hsplit o ho
  · intro hsettled object' property' hsplit' o' ho'
    obtain ⟨rfl, rfl⟩ := Prod.mk.inj (Option.some.inj (hsplit.symm.trans hsplit'))
    obtain rfl := Option.some.inj (ho.symm.trans ho')
    exact hsettled

theorem isSettled_of_none (hnone : ∀ object property,
      splitAtPoint? token.toList = some (object, property) →
      b.objects.get? (String.ofList object) = none) : b.IsSettled token := by
  intro object property hsplit o ho
  cases (hnone object property hsplit).symm.trans ho

instance (b : Bindings) (token : String) : Decidable (b.IsSettled token) :=
  match hsplit : splitAtPoint? token.toList with
  | none => isTrue (isSettled_of_none fun _ _ hsome => by cases hsplit.symm.trans hsome)
  | some (object, property) =>
    match ho : b.objects.get? (String.ofList object) with
    | none => isTrue (isSettled_of_none fun object' property' hsome => by
        obtain ⟨rfl, rfl⟩ := Prod.mk.inj (Option.some.inj (hsplit.symm.trans hsome))
        exact ho)
    | some _ => decidable_of_iff _ (isSettled_iff_of_object hsplit ho).symm

/-- A token that names a property of an object stands for what can be reported of it. -/
theorem mayResolve_iff_of_object {object property : List Char} {o : Object}
    (hsplit : splitAtPoint? token.toList = some (object, property))
    (ho : b.objects.get? (String.ofList object) = some o) :
    b.MayResolve token text ↔
      ∃ answer, o.MayReport (String.ofList property) answer ∧
        answer.getD notAvailableText = text := by
  constructor
  · rintro ⟨b', hb', rfl⟩
    obtain ⟨o', ho', hreordered⟩ := (hb'.objects _).exists_of_eq_some ho
    refine ⟨_, .of_reordered hreordered (Object.mayReport_report? o' _), ?_⟩
    rw [resolve_eq_of_object hsplit ho']
  · rintro ⟨answer, hanswer, rfl⟩
    obtain ⟨o', hreordered, rfl⟩ := hanswer.exists_reordered
    exact ⟨_, alike_insert ho hreordered,
      resolve_eq_of_object hsplit (Table.get?_insert_self _ _ _)⟩

/-- A token that names no property of an object stands for the same text. -/
theorem ReadsAlike.resolve_eq_of_none (h : b.ReadsAlike b' token)
    (hnone : ∀ object property, splitAtPoint? token.toList = some (object, property) →
      b.objects.get? (String.ofList object) = none) : b'.resolve token = b.resolve token := by
  have hvalue : b'.variableText? token = b.variableText? token := by
    rw [variableText?, variableText?, h.value_eq]
  cases hsplit : splitAtPoint? token.toList with
  | none => simp only [resolve, hsplit, hvalue]
  | some parts =>
      obtain ⟨object, property⟩ := parts
      have ho := hnone object property hsplit
      have ho' := (h.objects object property hsplit).eq_none ho
      simp only [resolve, hsplit, ho, ho', hvalue]

/-- If nothing was noted in between either, then the token stands for the same text. -/
theorem ReadsAlike.resolve_eq (h : b.ReadsAlike b' token)
    (hnoted : ∀ name property, token = dotted name property →
      (b'.objects.get? name).map Object.properties = (b.objects.get? name).map Object.properties) :
    b'.resolve token = b.resolve token := by
  rcases b.token_cases token with ⟨object, property, o, hsplit, ho⟩ | hnone
  · obtain ⟨o', ho', hshows⟩ := (h.objects object property hsplit).exists_of_eq_some ho
    have hsame := hnoted _ _ (eq_dotted_of_splitAtPoint? hsplit)
    rw [ho, ho'] at hsame
    rw [resolve_eq_of_object hsplit ho, resolve_eq_of_object hsplit ho',
      hshows.report?_eq (Option.some.inj hsame)]
  · exact h.resolve_eq_of_none hnone

theorem MayResolve.of_readsAlike (h : b.ReadsAlike b' token) (h' : b'.MayResolve token text) :
    b.MayResolve token text := by
  rcases b.token_cases token with ⟨object, property, o, hsplit, ho⟩ | hnone
  · obtain ⟨o', ho', hshows⟩ := (h.objects object property hsplit).exists_of_eq_some ho
    obtain ⟨answer, hanswer, htext⟩ := (mayResolve_iff_of_object hsplit ho').1 h'
    exact (mayResolve_iff_of_object hsplit ho).2 ⟨answer, .of_showsAlike hshows hanswer, htext⟩
  · obtain ⟨d, hd, rfl⟩ := h'
    rw [(h.trans (hd.readsAlike token)).resolve_eq_of_none hnone]
    exact b.mayResolve_resolve token

theorem ReadsAlike.mayResolve_iff (h : b.ReadsAlike b' token) (text : String) :
    b'.MayResolve token text ↔ b.MayResolve token text :=
  ⟨.of_readsAlike h, .of_readsAlike h.symm⟩

/-- A token that is settled stands for one text. -/
theorem MayResolve.unique (hsettled : b.IsSettled token) (h : b.MayResolve token text) :
    text = b.resolve token := by
  rcases b.token_cases token with ⟨object, property, o, hsplit, ho⟩ | hnone
  · obtain ⟨answer, hanswer, rfl⟩ := (mayResolve_iff_of_object hsplit ho).1 h
    rw [resolve_eq_of_object hsplit ho,
      hanswer.unique (hsettled object property hsplit o ho) (Object.mayReport_report? o _)]
  · obtain ⟨d, hd, rfl⟩ := h
    exact (hd.readsAlike token).resolve_eq_of_none hnone

theorem ReadsAlike.resolve_eq_of_isSettled (h : b.ReadsAlike b' token)
    (hsettled : b.IsSettled token) : b'.resolve token = b.resolve token :=
  MayResolve.unique hsettled (.of_readsAlike h (b'.mayResolve_resolve token))

/-- What a command keeps in one order of what was noted it keeps in every order. -/
theorem ReadsAlike.keepsText (h : b.ReadsAlike d token)
    (hnoted : ∀ name, ¬ c.AssignsTo name → (∃ property, token = dotted name property) →
      (d.objects.get? name).map Object.properties = (b.objects.get? name).map Object.properties)
    (halike : d.Alike b')
    (hkept : ∀ name, ¬ c.AssignsTo name → b'.objects.get? name = d.objects.get? name) :
    b.KeepsText c b' token := by
  have hreads := h.trans (halike.readsAlike token)
  refine ⟨hreads.mayResolve_iff, fun hsame => ?_⟩
  rcases hsame with hsettled | hother
  · exact hreads.resolve_eq_of_isSettled hsettled
  · refine hreads.resolve_eq fun name property htoken => ?_
    have hassigns : ¬ c.AssignsTo name := fun hassigns => hother name property hassigns htoken
    rw [hkept name hassigns, hnoted name hassigns ⟨property, htoken⟩]

end Bindings

end FlightScript
