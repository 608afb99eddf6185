import FlightScript.Proofs.Execution.Tokens
import FlightScript.Proofs.Last
import FlightScript.Proofs.Validation.Declaration
import FlightScript.Proofs.Validation.Soundness

/-!
# What the variables end up with

A statement puts a value among the variables if it assigns to a variable, or to a property of
an object that no statement before it creates; the name is then that of the object and that
of the property with a point between them. No other command changes the variables
(`values_execute_of_not`). So after statements that were executed one after the other a name
stands for what the last one has put there (`get?_values_iff_isLast`). The names in a script
have no points, so that the two kinds of names are never equal (`get?_values_iff`).
-/

namespace FlightScript

namespace Statement

/-- A statement assigns to a variable. -/
def AssignsVariable (name : String) (_ : List Statement) (s : Statement) : Prop :=
  ∃ v, s.command = .variable name v

/-- A statement assigns to a property of an object that no earlier one creates. -/
def AssignsProperty (object property : String) (earlier : List Statement) (s : Statement) :
    Prop :=
  (∃ v, s.command = .set object property v) ∧ object ∉ earlier.filterMap creates?

/-- A statement puts a value among the variables under a name. -/
def Puts (key : String) (earlier : List Statement) (s : Statement) : Prop :=
  s.AssignsVariable key earlier ∨
    ∃ object property, key = Bindings.dotted object property ∧
      s.AssignsProperty object property earlier

def value? (s : Statement) : Option Value :=
  match s.command with
  | .variable _ v => some v
  | .set _ _ v => some v
  | _ => none

/-- Out of some statements, the last one that assigns to a variable, or to a property before
its object is created, assigns this value. -/
inductive LastAssigned (done : List Statement) : String → Value → Prop where
  | ofVariable {name : String} {v : Value} {s : Statement}
      (hs : IsLast (fun earlier s => s.AssignsVariable name earlier) done s)
      (hc : s.command = .variable name v) : LastAssigned done name v
  | ofProperty {object property : String} {v : Value} {s : Statement}
      (hs : IsLast (fun earlier s => s.AssignsProperty object property earlier) done s)
      (hc : s.command = .set object property v) :
      LastAssigned done (Bindings.dotted object property) v

end Statement

/-- The names in a statement of a script are written as names are. -/
theorem Script.hasNames_of_mem {text : String} {s : Statement}
    (hs : s ∈ (Script.read text).statements) : s.command.HasNames := by
  rcases read_eq_or_isUnknown hs with ⟨hread, -⟩ | ⟨-, hunknown⟩
  · exact Statement.hasNames_of_read hread
  · rw [of_decide_eq_true hunknown]
    exact fun _ hname => absurd hname List.not_mem_nil

namespace Bindings

variable {b b' : Bindings} {step : Float} {c : Command} {done : List Statement} {s : Statement}
  {key : String} {v : Value}

/-! ### Names with and without a point -/

theorem point_mem_dotted (object property : String) : '.' ∈ (dotted object property).toList := by
  simp [dotted]

theorem dotted_inj {object property object' property' : String} (ho : '.' ∉ object.toList)
    (ho' : '.' ∉ object'.toList) (h : dotted object property = dotted object' property') :
    object = object' ∧ property = property' := by
  have hsplit := splitAtPoint?_dotted ho property
  rw [h, splitAtPoint?_dotted ho' property', Option.some.injEq, Prod.mk.injEq,
    String.toList_inj, String.toList_inj] at hsplit
  exact ⟨hsplit.1.symm, hsplit.2.symm⟩

theorem point_notMem_variable {name : String} (hs : s.command.HasNames)
    (hc : s.command = .variable name v) : '.' ∉ name.toList :=
  (hs name (by simp [hc, Command.names])).point_notMem

theorem point_notMem_object {object property : String} (hs : s.command.HasNames)
    (hc : s.command = .set object property v) : '.' ∉ object.toList :=
  (hs object (by simp [hc, Command.names])).point_notMem

/-! ### One command -/

/-- Only an assignment to a variable, or to a property of no object, changes the variables. -/
theorem values_execute_of_not (hvariable : ∀ name v, c ≠ .variable name v)
    (hset : ∀ object property v, c = .set object property v → b.objects.get? object ≠ none) :
    (b.execute step c).1.values = b.values := by
  rcases h : b.execute step c with ⟨b', _ | e⟩
  · cases c with
    | set object property v =>
        rcases set_cases h with ⟨ho, -⟩ | ⟨o, o', line, -, -, rfl⟩
        · exact absurd ho (hset object property v rfl)
        · rfl
    | propagate propagator spacecraft stop =>
        obtain ⟨s, s', seconds, line, -, -, rfl⟩ := propagate_cases h
        rfl
    | «variable» name v => exact absurd rfl (hvariable name v)
    | _ =>
        obtain rfl := (Prod.mk.inj h).1
        rfl
  · exact (execute_of_error h).1

/-- The objects after some statements are those that one of them creates. -/
theorem get?_objects_eq_none_iff (hexecutable : ∀ s ∈ done, s.isExecutable)
    (hdone : empty.executeAll step done = .ok b) {object : String} :
    b.objects.get? object = none ↔ object ∉ done.filterMap Statement.creates? := by
  rw [← List.filter_eq_self.2 hexecutable] at hdone
  rw [Table.get?_eq_none_iff, Scope.Describes.empty.executeAll hdone object,
    Scope.mem_objects_afterAll]

theorem get?_values_of_puts (hexecutable : ∀ s ∈ done, s.isExecutable)
    (hdone : empty.executeAll step done = .ok b) (h : b.execute step s.command = (b', none))
    (hputs : s.Puts key done) : b'.values.get? key = s.value? := by
  rcases hputs with ⟨v, hc⟩ | ⟨object, property, rfl, ⟨v, hc⟩, hnew⟩
  · rw [hc] at h
    obtain rfl := (Prod.mk.inj h).1
    rw [Statement.value?, hc]
    exact Table.get?_insert_self _ _ _
  · rw [hc] at h
    have hobject := (get?_objects_eq_none_iff hexecutable hdone).2 hnew
    rcases set_cases h with ⟨-, line, rfl⟩ | ⟨o, o', line, ho, -, -⟩
    · rw [Statement.value?, hc]
      exact Table.get?_insert_self _ _ _
    · cases hobject.symm.trans ho

theorem get?_values_of_not_puts (hexecutable : ∀ s ∈ done, s.isExecutable)
    (hdone : empty.executeAll step done = .ok b) (h : b.execute step s.command = (b', none))
    (hputs : ¬ s.Puts key done) : b'.values.get? key = b.values.get? key := by
  rw [Statement.Puts, not_or] at hputs
  cases hc : s.command with
  | «variable» name v =>
      have hname : name ≠ key := fun heq => hputs.1 ⟨v, heq ▸ hc⟩
      rw [hc] at h
      obtain rfl := (Prod.mk.inj h).1
      exact Table.get?_insert_of_ne _ _ hname
  | set object property v =>
      rw [hc] at h
      rcases set_cases h with ⟨ho, line, rfl⟩ | ⟨o, o', line, -, -, rfl⟩
      · have hnew := (get?_objects_eq_none_iff hexecutable hdone).1 ho
        have hname : dotted object property ≠ key := fun heq =>
          hputs.2 ⟨object, property, heq.symm, ⟨v, hc⟩, hnew⟩
        exact Table.get?_insert_of_ne _ _ hname
      · rfl
  | _ =>
      have hvalues : (b.execute step s.command).1.values = b.values :=
        values_execute_of_not (by simp [hc]) (by simp [hc])
      rw [h] at hvalues
      rw [hvalues]

/-! ### Any number of statements -/

/-- The value of a variable after some statements, if they all succeed. -/
def valueAfter? (step : Float) (key : String) (front : List Statement) : Option Value :=
  match empty.executeAll step front with
  | .ok b => b.values.get? key
  | .error _ => none

theorem valueAfter?_of_ok (h : empty.executeAll step done = .ok b) :
    valueAfter? step key done = b.values.get? key := by
  rw [valueAfter?, h]

section

variable {front rest : List Statement} (hdone : empty.executeAll step (front ++ s :: rest) = .ok b)

include hdone

/-- Of statements that all succeed, those before one of them and this one succeed, too. -/
theorem exists_execute_of_executeAll :
    ∃ c c', empty.executeAll step front = .ok c ∧ c.execute step s.command = (c', none) ∧
      empty.executeAll step (front ++ [s]) = .ok c' := by
  obtain ⟨c, hfront, hrest⟩ := executeAll_append_eq_ok_iff.1 hdone
  obtain ⟨c', hs, -⟩ := executeAll_cons_eq_ok_iff.1 hrest
  exact ⟨c, c', hfront, hs, executeAll_append_singleton hfront hs⟩

variable (hexecutable : ∀ s ∈ front, s.isExecutable)

include hexecutable

theorem valueAfter?_of_puts (hputs : s.Puts key front) :
    valueAfter? step key (front ++ [s]) = s.value? := by
  obtain ⟨c, c', hfront, hs, hnext⟩ := exists_execute_of_executeAll hdone
  rw [valueAfter?_of_ok hnext, get?_values_of_puts hexecutable hfront hs hputs]

theorem valueAfter?_of_not_puts (hputs : ¬ s.Puts key front) :
    valueAfter? step key (front ++ [s]) = valueAfter? step key front := by
  obtain ⟨c, c', hfront, hs, hnext⟩ := exists_execute_of_executeAll hdone
  rw [valueAfter?_of_ok hnext, valueAfter?_of_ok hfront,
    get?_values_of_not_puts hexecutable hfront hs hputs]

end

/-- A name stands for what the last statement has put there. -/
theorem get?_values_iff_isLast (hexecutable : ∀ s ∈ done, s.isExecutable)
    (hdone : empty.executeAll step done = .ok b) :
    b.values.get? key = some v ↔
      ∃ s, IsLast (fun earlier s => s.Puts key earlier) done s ∧ s.value? = some v := by
  have hset : ∀ front s rest, done = front ++ s :: rest → s.Puts key front →
      valueAfter? step key (front ++ [s]) = s.value? := by
    rintro front s rest rfl
    exact valueAfter?_of_puts hdone fun s hs => hexecutable s (List.mem_append_left _ hs)
  have hkeep : ∀ front s rest, done = front ++ s :: rest → ¬ s.Puts key front →
      valueAfter? step key (front ++ [s]) = valueAfter? step key front := by
    rintro front s rest rfl
    exact valueAfter?_of_not_puts hdone fun s hs => hexecutable s (List.mem_append_left _ hs)
  rw [← valueAfter?_of_ok hdone]
  constructor
  · intro h
    by_cases hcounts : Counts (fun earlier s => s.Puts key earlier) done
    · obtain ⟨s, hs⟩ := hcounts.exists_isLast
      exact ⟨s, hs, (eq_of_isLast hset hkeep hs).symm.trans h⟩
    · cases (eq_of_not_counts hkeep hcounts).symm.trans h
  · rintro ⟨s, hs, hv⟩
    exact (eq_of_isLast hset hkeep hs).trans hv

theorem puts_iff_assignsVariable {earlier : List Statement} (hkey : '.' ∉ key.toList) :
    s.Puts key earlier ↔ s.AssignsVariable key earlier := by
  refine or_iff_left ?_
  rintro ⟨object, property, rfl, -⟩
  exact hkey (point_mem_dotted object property)

theorem puts_dotted_iff_assignsProperty {object property : String} {earlier : List Statement}
    (hs : s.command.HasNames) (hobject : '.' ∉ object.toList) :
    s.Puts (dotted object property) earlier ↔ s.AssignsProperty object property earlier := by
  constructor
  · rintro (⟨v, hc⟩ | ⟨object', property', heq, hassigns⟩)
    · exact absurd (point_mem_dotted object property) (point_notMem_variable hs hc)
    · obtain ⟨v, hc⟩ := hassigns.1
      obtain ⟨rfl, rfl⟩ := dotted_inj hobject (point_notMem_object hs hc) heq
      exact hassigns
  · intro hassigns
    exact Or.inr ⟨object, property, rfl, hassigns⟩

theorem get?_values_iff (hnames : ∀ s ∈ done, s.command.HasNames)
    (hexecutable : ∀ s ∈ done, s.isExecutable) (hdone : empty.executeAll step done = .ok b) :
    b.values.get? key = some v ↔ Statement.LastAssigned done key v := by
  have hvariable : ∀ {key : String}, '.' ∉ key.toList → ∀ front s rest, done = front ++ s :: rest →
      (s.Puts key front ↔ s.AssignsVariable key front) :=
    fun hkey _ _ _ _ => puts_iff_assignsVariable hkey
  have hproperty : ∀ {object property : String}, '.' ∉ object.toList →
      ∀ front s rest, done = front ++ s :: rest →
        (s.Puts (dotted object property) front ↔ s.AssignsProperty object property front) :=
    fun hobject front s rest hsplit =>
      puts_dotted_iff_assignsProperty (hnames s (by simp [hsplit])) hobject
  rw [get?_values_iff_isLast hexecutable hdone]
  constructor
  · rintro ⟨s, hs, hv⟩
    have hname := hnames s hs.mem
    have hlast := hs
    obtain ⟨front, rest, -, hputs, -⟩ := hlast
    rcases hputs with ⟨w, hc⟩ | ⟨object, property, rfl, ⟨w, hc⟩, -⟩
    · obtain rfl : w = v := by simpa [Statement.value?, hc] using hv
      exact .ofVariable (hs.congr (hvariable (point_notMem_variable hname hc))) hc
    · obtain rfl : w = v := by simpa [Statement.value?, hc] using hv
      exact .ofProperty (hs.congr (hproperty (point_notMem_object hname hc))) hc
  · rintro (⟨hs, hc⟩ | ⟨hs, hc⟩)
    · have hkey := point_notMem_variable (hnames _ hs.mem) hc
      refine ⟨_, hs.congr fun front s rest hs => (hvariable hkey front s rest hs).symm, ?_⟩
      rw [Statement.value?, hc]
    · have hobject := point_notMem_object (hnames _ hs.mem) hc
      refine ⟨_, hs.congr fun front s rest hs => (hproperty hobject front s rest hs).symm, ?_⟩
      rw [Statement.value?, hc]

end Bindings

end FlightScript
