import FlightScript.Proofs.Execution.Unreported
import FlightScript.Proofs.Script.Reading

/-!
# Which tokens a command changes

A command that succeeds changes the text of some tokens only, those that it touches
(`readsAlike_of_not_touches`): the variable that it assigns to, the properties of the object
that it creates, the property that it assigns to in any case of its letters, or the epoch,
position and velocity of the spacecraft that it moves. What it creates or assigns is read
back (`isReadBack`), since the names in a script have no points.
-/

namespace FlightScript

open Text Words

namespace Command

/-- The names of objects, properties and variables in a command, and the kinds of new
objects. -/
def names : Command → List String
  | .create kind name => [kind, name]
  | .set object property _ => [object, property]
  | .propagate propagator spacecraft none => [propagator, spacecraft]
  | .propagate propagator spacecraft (some stop) =>
    [propagator, spacecraft, stop.object, stop.property]
  | .variable name _ => [name]
  | .save object => [object]
  | _ => []

/-- Every name in the command is written as the names in a script are. -/
def HasNames (c : Command) : Prop :=
  ∀ name ∈ c.names, IsName name.toList

/-- The properties of a spacecraft that change as it moves, in lower case. -/
def moving : List String :=
  ["epoch", "x", "y", "vx", "vy"]

/-- The tokens whose text a command may change. -/
def Touches (b : Bindings) (c : Command) (token : String) : Prop :=
  match c with
  | .variable name _ => token = name
  | .set object property _ =>
    if b.objects.contains object then
      ∃ other, sameIgnoringCase other property ∧ token = Bindings.dotted object other
    else token = Bindings.dotted object property
  | .create _ name => ∃ property, token = Bindings.dotted name property
  | .propagate _ spacecraft _ =>
    ∃ property, foldCase property ∈ moving ∧ token = Bindings.dotted spacecraft property
  | _ => False

/-- What a command writes is read from the bindings `b'` after it. -/
def IsReadBack (b b' : Bindings) (c : Command) : Prop :=
  match c with
  | .variable name v => b'.resolve name = v.toText
  | .set object property v =>
    match b.objects.get? object with
    | some o =>
      (o.HasField property →
        o.shown? property v = some (b'.resolve (Bindings.dotted object property))) ∧
      (¬ o.HasField property → b'.resolve (Bindings.dotted object property) = v.toText)
    | none => b'.resolve (Bindings.dotted object property) = v.toText
  | .create kind name =>
    ∀ property, b'.resolve (Bindings.dotted name property) =
      ((Object.create kind).report? property).getD notAvailableText
  | _ => True

end Command

/-- The names of a command that a line denotes are names. -/
theorem Shape.Denotes.hasNames {shape : Shape} {cs : List Char} {c : Command}
    (h : shape.Denotes cs c) : c.HasNames := by
  cases h with
  | create _ _ hkind _ hname => simp [Command.HasNames, Command.names, hkind, hname]
  | propagate _ _ hpropagator _ _ hspacecraft _ =>
      simp [Command.HasNames, Command.names, hpropagator, hspacecraft]
  | propagateUntil _ _ hpropagator _ _ hspacecraft _ _ hclause =>
      cases hclause with
      | intro _ hobject hproperty =>
          simp [Command.HasNames, Command.names, hpropagator, hspacecraft, hobject, hproperty]
  | set hobject hproperty _ => simp [Command.HasNames, Command.names, hobject, hproperty]
  | save _ _ hobject => simp [Command.HasNames, Command.names, hobject]
  | assigned hname _ => simp [Command.HasNames, Command.names, hname]
  | declared _ _ hname _ => simp [Command.HasNames, Command.names, hname]
  | _ => simp [Command.HasNames, Command.names]

theorem Statement.hasNames_of_read {line : Nat} {text : String} {s : Statement}
    (h : read line text = .ok s) : s.command.HasNames := by
  have hmeans := means_of_read h
  generalize s.command = c at hmeans
  cases hmeans with
  | comment _ _ => simp [Command.HasNames, Command.names]
  | command _ _ _ hc =>
      obtain ⟨_, _, _, _, hdenotes, -⟩ := hc
      exact hdenotes.hasNames

theorem Words.IsName.point_notMem {w : List Char} (h : IsName w) : '.' ∉ w := by
  obtain ⟨c, rest, rfl, hc, hrest⟩ := h
  intro hmem
  rcases List.mem_cons.1 hmem with rfl | hmem
  · cases hc
  · cases hrest '.' hmem

namespace Spacecraft

theorem properties_of_propagate {s s' : Spacecraft} {seconds : Float}
    (h : s.propagate seconds = .ok s') : s'.properties = s.properties := by
  obtain ⟨angle, epoch, rfl⟩ := exists_turn_of_propagate h
  rfl

/-- A move changes what is shown of the moving properties only. -/
theorem showsAlike_of_propagate {s s' : Spacecraft} {seconds : Float}
    (h : s.propagate seconds = .ok s') {property : String}
    (hproperty : foldCase property ∉ Command.moving) :
    (Object.spacecraft s).ShowsAlike (.spacecraft s') property := by
  refine ⟨?_, fun _ name _ => congrArg (Table.get? · name) (properties_of_propagate h)⟩
  obtain ⟨angle, epoch, rfl⟩ := exists_turn_of_propagate h
  refine Option.map_congr fun field hfield => ?_
  rw [Field.ofName?_eq_some_iff] at hfield
  rw [hfield] at hproperty
  rcases field with _ | q
  · exact absurd (by decide) hproperty
  · cases q <;> first | rfl | exact absurd (by decide) hproperty

end Spacecraft

namespace Bindings

variable {b b' : Bindings} {step : Float} {c : Command}

theorem set_cases {object property : String} {v : Value}
    (h : b.set object property v = (b', none)) :
    (b.objects.get? object = none ∧
      ∃ line, b' = (b.assign (dotted object property) v).append line) ∨
    ∃ o o' line, b.objects.get? object = some o ∧ o.set property v = (o', none) ∧
      b' = { b with objects := b.objects.insert object o' }.append line := by
  cases ho : b.objects.get? object with
  | none =>
      rw [set, ho] at h
      exact Or.inl ⟨rfl, _, (Prod.mk.inj h).1.symm⟩
  | some o =>
      rcases hset : o.set property v with ⟨o', _ | error⟩
      · simp only [set, ho, hset] at h
        exact Or.inr ⟨o, o', _, rfl, hset, (Prod.mk.inj h).1.symm⟩
      · simp [set, ho, hset] at h

theorem exists_of_moved {name : String} {days : Float} {s' : Spacecraft}
    (h : b.moved name days = .ok s') :
    ∃ s, b.objects.get? name = some (.spacecraft s) ∧ s.propagateDays days = .ok s' := by
  rw [moved, spacecraft] at h
  cases ho : b.objects.get? name with
  | none => simp [ho] at h
  | some o =>
      cases o with
      | spacecraft s =>
          cases hs : s.propagateDays days with
          | error error => simp [ho, hs] at h
          | ok craft =>
              obtain rfl : craft = s' := by simpa [ho, hs] using h
              exact ⟨s, rfl, hs⟩
      | _ => simp [ho] at h

theorem propagate_cases {propagator spacecraft : String} {stop : Option StopClause}
    (h : b.propagate step propagator spacecraft stop = (b', none)) :
    ∃ s s' seconds line, b.objects.get? spacecraft = some (.spacecraft s) ∧
      s.propagate seconds = .ok s' ∧
      b' = { b with objects := b.objects.insert spacecraft (.spacecraft s') }.append line := by
  cases hi : b.interval step propagator stop with
  | error error => simp [propagate, hi] at h
  | ok days =>
      cases hm : b.moved spacecraft days with
      | error error => simp [propagate, hi, hm] at h
      | ok s' =>
          simp only [propagate, hi, hm] at h
          obtain ⟨s, hs, hmoved⟩ := exists_of_moved hm
          exact ⟨s, s', _, _, hs, hmoved, (Prod.mk.inj h).1.symm⟩

/-! ### Tokens that are not touched -/

theorem readsAlike_of_not_touches (h : b.execute step c = (b', none)) {token : String}
    (htoken : ¬ c.Touches b token) : b.ReadsAlike b' token := by
  cases c with
  | create kind name =>
      obtain rfl := (Prod.mk.inj h).1
      have hinsert : b.ReadsAlike (b.create kind name) token :=
        readsAlike_insert fun property heq => absurd ⟨property, heq⟩ htoken
      exact hinsert.trans (readsAlike_append _ _ _)
  | set object property v =>
      rcases set_cases h with ⟨ho, line, rfl⟩ | ⟨o, o', line, ho, hset, rfl⟩
      · rw [Command.Touches, Table.contains, ho] at htoken
        exact (readsAlike_assign htoken b v).trans (readsAlike_append _ _ _)
      · rw [Command.Touches, Table.contains, ho] at htoken
        refine (readsAlike_insert fun other heq => ⟨o, ho, ?_⟩).trans (readsAlike_append _ _ _)
        refine Object.showsAlike_set_of_ne hset fun hletters => htoken ?_
        exact ⟨other, decide_eq_true hletters, heq⟩
  | propagate propagator spacecraft stop =>
      obtain ⟨s, s', seconds, line, hs, hmoved, rfl⟩ := propagate_cases h
      refine (readsAlike_insert fun property heq => ⟨_, hs, ?_⟩).trans (readsAlike_append _ _ _)
      exact Spacecraft.showsAlike_of_propagate hmoved fun hmoving =>
        htoken ⟨property, hmoving, heq⟩
  | «variable» name v =>
      obtain rfl := (Prod.mk.inj h).1
      exact (readsAlike_assign htoken b v).trans (readsAlike_append _ _ _)
  | report tokens =>
      obtain rfl := (Prod.mk.inj h).1
      exact readsAlike_append _ _ _
  | save object =>
      obtain rfl := (Prod.mk.inj h).1
      exact readsAlike_append _ _ _
  | _ =>
      obtain rfl := (Prod.mk.inj h).1
      exact (Alike.refl b).readsAlike token

/-- Nothing is noted with an object but by an assignment to it. -/
theorem map_properties_of_execute (h : b.execute step c = (b', none)) {name : String}
    (hassigns : ¬ c.AssignsTo name) (hcreate : ∀ kind, c ≠ .create kind name) :
    (b'.objects.get? name).map Object.properties = (b.objects.get? name).map Object.properties := by
  cases c with
  | create kind other =>
      obtain rfl := (Prod.mk.inj h).1
      have hne : other ≠ name := fun heq => hcreate kind (heq ▸ rfl)
      exact congrArg _ (Table.get?_insert_of_ne _ _ hne)
  | set object property v =>
      have hne : object ≠ name := fun heq => hassigns ⟨property, v, heq ▸ rfl⟩
      rcases set_cases h with ⟨-, line, rfl⟩ | ⟨o, o', line, -, -, rfl⟩
      · rfl
      · exact congrArg _ (Table.get?_insert_of_ne _ _ hne)
  | propagate propagator spacecraft stop =>
      obtain ⟨s, s', seconds, line, hs, hmoved, rfl⟩ := propagate_cases h
      by_cases hname : spacecraft = name
      · subst hname
        rw [hs]
        change ((b.objects.insert spacecraft _).get? spacecraft).map _ = _
        rw [Table.get?_insert_self]
        exact congrArg some (Spacecraft.properties_of_propagate hmoved)
      · exact congrArg _ (Table.get?_insert_of_ne _ _ hname)
  | _ =>
      obtain rfl := (Prod.mk.inj h).1
      rfl

/-! ### What is written is read back -/

theorem splitAtPoint?_dotted {name : String} (h : '.' ∉ name.toList) (property : String) :
    splitAtPoint? (dotted name property).toList = some (name.toList, property.toList) := by
  rw [splitAtPoint?_eq_some_iff]
  exact ⟨by simp [dotted], h⟩

theorem resolve_dotted_of_object {name : String} (h : '.' ∉ name.toList) {o : Object}
    (ho : b.objects.get? name = some o) (property : String) :
    b.resolve (dotted name property) = (o.report? property).getD notAvailableText := by
  simp only [resolve, splitAtPoint?_dotted h, String.ofList_toList, ho]

theorem resolve_dotted_of_none {name : String} (h : '.' ∉ name.toList)
    (ho : b.objects.get? name = none) (property : String) :
    b.resolve (dotted name property) =
      (b.variableText? (dotted name property)).getD notAvailableText := by
  simp only [resolve, splitAtPoint?_dotted h, String.ofList_toList, ho]

theorem variableText?_assign_self (b : Bindings) (name : String) (v : Value) :
    (b.assign name v).variableText? name = some v.toText := by
  rw [variableText?, assign, Table.get?_insert_self]
  rfl

theorem resolve_assign_self {name : String} (h : '.' ∉ name.toList) (b : Bindings) (v : Value) :
    (b.assign name v).resolve name = v.toText := by
  simp only [resolve, (splitAtPoint?_eq_none_iff _).2 h, variableText?_assign_self,
    Option.getD_some]

theorem isReadBack (hc : c.HasNames) (h : b.execute step c = (b', none)) :
    c.IsReadBack b b' := by
  cases c with
  | create kind name =>
      obtain rfl := (Prod.mk.inj h).1
      have hname : '.' ∉ name.toList := (hc name (by simp [Command.names])).point_notMem
      intro property
      exact resolve_dotted_of_object hname (Table.get?_insert_self _ _ _) property
  | set object property v =>
      have hobject : '.' ∉ object.toList := (hc object (by simp [Command.names])).point_notMem
      rcases set_cases h with ⟨ho, line, rfl⟩ | ⟨o, o', line, ho, hset, rfl⟩
      · have hread := resolve_dotted_of_none (b := b.assign (dotted object property) v) hobject ho
          property
        simp only [Command.IsReadBack, ho]
        rw [resolve_append, hread, variableText?_assign_self, Option.getD_some]
      · have hread := resolve_dotted_of_object (b := { b with
          objects := b.objects.insert object o' }) hobject (Table.get?_insert_self _ _ _) property
        simp only [Command.IsReadBack, ho]
        rw [resolve_append, hread]
        constructor
        · intro hfield
          obtain ⟨text, hshown, hreport⟩ := Object.report?_set_of_hasField hset hfield
          rw [hshown, hreport, Option.getD_some]
        · intro hfield
          rw [Object.report?_set_of_not_hasField hset hfield, Option.getD_some]
  | «variable» name v =>
      obtain rfl := (Prod.mk.inj h).1
      have hname : '.' ∉ name.toList := (hc name (by simp [Command.names])).point_notMem
      exact resolve_assign_self hname b v
  | _ => trivial

theorem dotted_right_inj {object property other : String} :
    dotted object property = dotted object other ↔ property = other := by
  rw [dotted, dotted, ← String.toList_inj, ← String.toList_inj]
  simp

/-- An assignment to an object touches a property of it just in the other cases of its letters. -/
theorem touches_set_iff {object property other : String} {v : Value}
    (h : b.objects.contains object) :
    (Command.set object property v).Touches b (dotted object other) ↔
      sameIgnoringCase other property := by
  rw [Command.Touches, if_pos h]
  constructor
  · rintro ⟨same, hletters, heq⟩
    rwa [dotted_right_inj.1 heq]
  · intro hletters
    exact ⟨other, hletters, rfl⟩

/-- A property stands for one text after it was assigned to. -/
theorem isSettled_of_set {object property : String} {v : Value} (hobject : '.' ∉ object.toList)
    (h : b.set object property v = (b', none)) : b'.IsSettled (dotted object property) := by
  have hsplit := splitAtPoint?_dotted hobject property
  rcases set_cases h with ⟨ho, line, rfl⟩ | ⟨o, o', line, -, hset, rfl⟩
  · refine isSettled_of_none fun name rest hsplit' => ?_
    obtain ⟨rfl, rfl⟩ := Prod.mk.inj (Option.some.inj (hsplit.symm.trans hsplit'))
    rwa [String.ofList_toList]
  · have hfound : (b.objects.insert object o').get? (String.ofList object.toList) = some o' := by
      rw [String.ofList_toList, Table.get?_insert_self]
    have hnoted : property ∈ o'.properties.names := by
      rw [Object.properties_assign (Object.assign_of_set hset), Object.properties_note,
        Table.mem_names_insert]
      exact Or.inl rfl
    rw [← String.ofList_toList (s := property)] at hnoted
    exact (isSettled_iff_of_object (b := { b with objects := b.objects.insert object o' }) hsplit
      hfound).2 (Or.inr (Or.inl hnoted))

/-- What is read back is read back in every order of what is noted with the object assigned to. -/
theorem isReadBack_of_alike {d : Bindings} (hc : c.HasNames) (h : b.execute step c = (d, none))
    (halike : d.Alike b')
    (hkept : ∀ name, ¬ c.AssignsTo name → b'.objects.get? name = d.objects.get? name) :
    c.IsReadBack b b' := by
  have hread := isReadBack hc h
  have hsame : (∀ name, ¬ c.AssignsTo name) → ∀ token, b'.resolve token = d.resolve token :=
    fun hnot token => (halike.readsAlike token).resolve_eq fun name _ _ => by
      rw [hkept name (hnot name)]
  cases c with
  | create kind name =>
      intro property
      rw [hsame (fun _ => nofun), hread property]
  | «variable» name v => exact (hsame (fun _ => nofun) name).trans hread
  | set object property v =>
      have hobject : '.' ∉ object.toList := (hc object (by simp [Command.names])).point_notMem
      have htext := (halike.readsAlike _).resolve_eq_of_isSettled (isSettled_of_set hobject h)
      rwa [Command.IsReadBack, htext]
  | _ => trivial

/-- A command whose names are written as in a script changes the text of no token but those
that it touches: the variable that it assigns to, all properties of the object that it
creates, the property of an object that it assigns to in any case of its letters, and of a
spacecraft that it moves the epoch, `x`, `y`, `vx` and `vy`. Only a token that is not settled and
names another property of the object assigned to may stand for another one of the texts that
it might have stood for before. What the command writes is read back: a value as it is shown, or
as the field shows it that took it, and a new object as it is made. -/
theorem only_touched_tokens_change (hc : c.HasNames) (h : b.MayExecute step c b' none) :
    (∀ token, ¬ c.Touches b token → b.KeepsText c b' token) ∧ c.IsReadBack b b' := by
  obtain ⟨d, hexecute, halike, -, hkept⟩ := h
  refine ⟨fun token htoken => ?_, isReadBack_of_alike hc hexecute halike hkept⟩
  refine (readsAlike_of_not_touches hexecute htoken).keepsText (fun name hassigns hname => ?_)
    halike hkept
  refine map_properties_of_execute hexecute hassigns fun kind hcreate => htoken ?_
  rw [hcreate]
  exact hname

/-- An assignment to a velocity leaves alone what was noted, and a token with the name of the
velocity behind another point. -/
theorem only_velocity_changes :
    let b := ((Bindings.empty.create "Spacecraft" "Sat").set "Sat" "Note" (.plain "a")).1
    ∃ s b', Statement.read 2 "Sat.vX = 1.5;" = .ok s ∧ b.MayExecute 60 s.command b' none ∧
      s.command.IsReadBack b b' ∧ b'.resolve "Sat.vX" = "1.500000000" ∧
      b'.resolve "Sat.NOTE" = b.resolve "Sat.NOTE" ∧
      b'.resolve "Sat.x.vX" = b.resolve "Sat.x.vX" := by
  intro b
  let s : Statement := ⟨2, "Sat.vX = 1.5;", .set "Sat" "vX" (.number 1.5)⟩
  let b' := (b.execute 60 s.command).1
  have hread : Statement.read 2 "Sat.vX = 1.5;" = .ok s := by decide +kernel
  have hexecute : b.execute 60 s.command = (b', none) := by
    decide +kernel
  have hmay : b.MayExecute 60 s.command b' none :=
    ⟨b', hexecute, .refl b', rfl, fun _ _ => rfl⟩
  have hobject : b.objects.contains "Sat" := by decide +kernel
  obtain ⟨hkept, hwritten⟩ := only_touched_tokens_change (Statement.hasNames_of_read hread) hmay
  have huntouched : ∀ other, ¬ sameIgnoringCase other "vX" →
      ¬ s.command.Touches b (dotted "Sat" other) :=
    fun _ hletters => mt (touches_set_iff hobject).1 hletters
  have hnote : b.IsSettled (dotted "Sat" "NOTE") := by decide +kernel
  have hbehind : b.IsSettled (dotted "Sat" "x.vX") := by decide +kernel
  exact ⟨s, _, hread, hmay, hwritten, by decide +kernel,
    (hkept _ (huntouched "NOTE" (by decide +kernel))).resolve_eq (Or.inl hnote),
    (hkept _ (huntouched "x.vX" (by decide +kernel))).resolve_eq (Or.inl hbehind)⟩

/-- A file has two notes that differ in case only, the one after the other. An assignment to
something else may bring them into the other order, and then a third spelling, which the assignment
does not touch, is reported differently. -/
theorem reports_differ_after_assignment :
    let noted : Assignment := ⟨"Note", .plain "a"⟩
    let noted' : Assignment := ⟨"NOTE", .plain "b"⟩
    let size : Assignment := ⟨"Size", .number 0⟩
    let of (assignments : List Assignment) (log : List String) : Bindings :=
      ⟨Table.empty.insert "F" ((Object.create "ReportFile").setAll assignments), .empty, log⟩
    let c : Command := .set "F" "Size" size.value
    (of [noted, noted'] []).MayExecute 60 c (of [noted', noted, size] ["Set F.Size = 0"]) none ∧
      c.HasNames ∧ ¬ c.Touches (of [noted, noted'] []) "F.note" ∧
      (of [noted, noted'] []).resolve "F.note" = "a" ∧
      (of [noted', noted, size] ["Set F.Size = 0"]).resolve "F.note" = "b" := by
  intro noted noted' size of c
  let file := (Object.create "ReportFile").setAll [noted, noted', size]
  let file' := (Object.create "ReportFile").setAll [noted', noted, size]
  have hexecute : (of [noted, noted'] []).execute 60 c =
      (of [noted, noted', size] ["Set F.Size = 0"], none) := by
    decide +kernel
  have hentries : file'.properties.entries.Perm file.properties.entries := by
    decide +kernel
  have hreordered : file.Reordered file' := ⟨file'.properties, hentries, by decide +kernel⟩
  have halike : (of [noted, noted', size] ["Set F.Size = 0"]).Alike
      (of [noted', noted, size] ["Set F.Size = 0"]) :=
    (Alike.refl ⟨.empty, .empty, ["Set F.Size = 0"]⟩).insert hreordered "F"
  have huntouched : ¬ c.Touches (of [noted, noted'] []) (dotted "F" "note") :=
    mt (touches_set_iff (by decide +kernel)).1 (by decide +kernel)
  have hread : Statement.read 4 "F.Size = 0" = .ok ⟨4, "F.Size = 0", c⟩ := by decide +kernel
  refine ⟨⟨_, hexecute, halike, rfl, fun name hname => ?_⟩, Statement.hasNames_of_read hread,
    huntouched, by decide +kernel, by decide +kernel⟩
  have hne : "F" ≠ name := fun heq => hname ⟨"Size", size.value, heq ▸ rfl⟩
  exact (Table.get?_insert_of_ne _ _ hne).trans (Table.get?_insert_of_ne _ _ hne).symm

end Bindings

end FlightScript
