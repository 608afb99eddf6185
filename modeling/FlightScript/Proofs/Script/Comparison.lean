import FlightScript.Proofs.Decimal.ReadBack
import FlightScript.Proofs.Script.Reading
import FlightScript.Proofs.Value.Reading
import FlightScript.Script.Comparison

/-!
# Scripts compared with themselves

A script is equal to itself just if none of its literals is the number that is none
(`Script.isEqual_self_iff`): every part is equal to itself otherwise. A text is read as that
number if it is `nan` in any case of its letters, perhaps with a sign (`Value.read_eq_nan_iff`).
-/

namespace FlightScript

open Text

namespace Double

variable {x : Float}

theorem isNaN_nan : nan.isNaN := by
  decide +kernel

theorem eq_nan_iff : x = nan ↔ x.isNaN :=
  ⟨fun h => h ▸ isNaN_nan, eq_nan_of_isNaN⟩

/-- Only the number that is none is not equal to itself. -/
theorem beq_self_iff : (x == x) = true ↔ x ≠ nan := by
  rw [Ne, eq_nan_iff, isNaN_iff]
  change (x.toModel.unpack.compare x.toModel.unpack == some .eq) = true ↔ _
  cases x.toModel.unpack with
  | infinity s => cases s <;> exact ⟨fun _ => nofun, fun _ => rfl⟩
  | finite s m e h => cases s <;> simp [Float.Model.UnpackedFloat.compare]
  | _ => simp [Float.Model.UnpackedFloat.compare]

/-! ### Texts of the number that is none -/

/-- The text is `nan` in any case of its letters, with or without a sign. -/
def IsNanText (cs : List Char) : Prop :=
  ∃ sign name, cs = sign ++ name ∧ (sign = [] ∨ sign = ['-'] ∨ sign = ['+']) ∧
    name.map Char.toLower = "nan".toList

theorem infinity_ne_nan (negative : Bool) : ofMagnitudeBits negative infinityBits ≠ nan := by
  rw [Ne, eq_nan_iff]
  exact not_isNaN_ofMagnitudeBits negative (le_refl _)

theorem readUnsigned?_eq_nan_iff {negative : Bool} {cs : List Char} :
    readUnsigned? negative cs = some nan ↔ cs.map Char.toLower = "nan".toList := by
  constructor
  · intro h
    simp only [readUnsigned?] at h
    split at h
    · exact (infinity_ne_nan negative (Option.some.inj h)).elim
    · split at h
      · next hname => exact hname
      · obtain ⟨y, -, hy⟩ := Option.map_eq_some_iff.1 h
        rw [Decimal.toDouble, eq_nan_iff] at hy
        exact (not_isNaN_ofMagnitudeBits negative y.nearestBits_le hy).elim
  · intro h
    have hinf : ¬ ("nan".toList = "inf".toList ∨ "nan".toList = "infinity".toList) := by decide
    rw [readUnsigned?, h, if_neg hinf, if_pos rfl]

theorem read?_eq_nan_iff {cs : List Char} : read? cs = some nan ↔ IsNanText cs := by
  constructor
  · intro h
    unfold read? at h
    split at h
    · next cs => exact ⟨['-'], cs, rfl, Or.inr (Or.inl rfl), readUnsigned?_eq_nan_iff.1 h⟩
    · next cs => exact ⟨['+'], cs, rfl, Or.inr (Or.inr rfl), readUnsigned?_eq_nan_iff.1 h⟩
    · exact ⟨[], _, rfl, Or.inl rfl, readUnsigned?_eq_nan_iff.1 h⟩
  · rintro ⟨sign, name, rfl, rfl | rfl | rfl, hname⟩
    · have hunsigned : IsUnsigned name := by
        rintro c hc
        obtain ⟨rest, rfl⟩ := List.head?_eq_some_iff.1 hc
        have hlower : c.toLower = 'n' := (List.cons.inj hname).1
        constructor
        · rintro rfl
          cases hlower
        · rintro rfl
          cases hlower
      exact (read?_sign hunsigned false).trans (readUnsigned?_eq_nan_iff.2 hname)
    · exact readUnsigned?_eq_nan_iff.2 hname
    · exact readUnsigned?_eq_nan_iff.2 hname

end Double

namespace Value

theorem isEqual_self_iff {v : Value} : v.isEqual v ↔ v ≠ .number Double.nan := by
  cases v with
  | number x =>
      rw [isEqual, Double.beq_self_iff, Ne, Ne, number.injEq]
  | plain s => simp [isEqual]
  | quoted s => simp [isEqual]

theorem read_eq_nan_iff (r : String) :
    read r = .number Double.nan ↔ Double.IsNanText (trim r).toList := by
  rw [read, toList_trim, ← Double.read?_eq_nan_iff, ofChars]
  cases Double.read? (trimChars r.toList) with
  | some x => simp
  | none =>
      simp only [reduceCtorEq, iff_false]
      split <;> simp

end Value

namespace Command

def literals : Command → List Value
  | .set _ _ v => [v]
  | .propagate _ _ (some s) => [s.value]
  | .variable _ v => [v]
  | _ => []

theorem isEqual_self_iff {c : Command} : c.isEqual c ↔ .number Double.nan ∉ c.literals := by
  have hone : ∀ v : Value, v.isEqual v ↔ .number Double.nan ∉ [v] := fun v => by
    rw [Value.isEqual_self_iff, List.mem_singleton, ne_comm]
  cases c with
  | set target property v =>
      rw [literals, ← hone]
      simp [isEqual]
  | propagate propagator spacecraft stop =>
      cases stop with
      | none => simp [isEqual, literals]
      | some s =>
          rw [literals, ← hone]
          simp [isEqual, StopClause.isEqual]
  | «variable» name v =>
      rw [literals, ← hone]
      simp [isEqual]
  | _ => simp [isEqual, literals]

/-! ### Where the literals stand -/

variable {cs : List Char} {c : Command} {v : Value}

/-- The value is read from a part of the text. -/
def IsReadFrom (cs : List Char) (v : Value) : Prop :=
  ∃ raw, raw <:+: cs ∧ v = .read (String.ofList raw)

theorem IsReadFrom.mono {ds : List Char} (h : IsReadFrom cs v) (hcs : cs <:+: ds) :
    IsReadFrom ds v := by
  obtain ⟨raw, hraw, hread⟩ := h
  exact ⟨raw, hraw.trans hcs, hread⟩

theorem IsReadFrom.append_left (h : IsReadFrom cs v) (front : List Char) :
    IsReadFrom (front ++ cs) v :=
  h.mono (List.suffix_append front cs).isInfix

theorem isReadFrom_of_assigns (h : Assigns cs v) : IsReadFrom cs v := by
  cases h with
  | intro _ _ _ => exact ⟨_, (List.suffix_append _ _).isInfix, rfl⟩

theorem isReadFrom_of_stops {stop : StopClause} (h : Stops cs stop) :
    IsReadFrom cs stop.value := by
  cases h with
  | @intro _ _ _ _ _ raw _ _ _ _ _ _ _ _ _ _ _ =>
      refine ⟨raw, ?_, rfl⟩
      rw [List.append_assoc]
      exact List.infix_append _ _ _

theorem isReadFrom_of_denotes {shape : Shape} (h : shape.Denotes cs c) (hv : v ∈ c.literals) :
    IsReadFrom cs v := by
  cases h with
  | set _ _ hrest =>
      obtain rfl := List.mem_singleton.1 hv
      exact (isReadFrom_of_assigns hrest).append_left _
  | propagateUntil _ _ _ _ _ _ _ _ hclause =>
      obtain rfl := List.mem_singleton.1 hv
      exact (isReadFrom_of_stops hclause).append_left _
  | assigned _ hrest =>
      obtain rfl := List.mem_singleton.1 hv
      exact (isReadFrom_of_assigns hrest).append_left _
  | declared _ _ _ hrest =>
      obtain rfl := List.mem_singleton.1 hv
      exact (isReadFrom_of_assigns hrest).append_left _
  | _ => cases hv

end Command

namespace Statement

/-- A literal of a statement is read from a part of its line. -/
theorem isReadFrom_of_means {cs : List Char} {c : Command} {v : Value} (h : Means cs c)
    (hv : v ∈ c.literals) : Command.IsReadFrom cs v := by
  cases h with
  | comment _ _ => cases hv
  | command hcs _ ht hc =>
      obtain ⟨-, shape, -, -, hdenotes, -⟩ := hc
      refine (Command.isReadFrom_of_denotes hdenotes hv).mono
        (List.IsInfix.trans ?_ hcs.isInfix)
      cases ht with
      | dropped _ _ =>
          rw [List.append_assoc]
          exact (List.prefix_append _ _).isInfix
      | kept _ => exact List.infix_refl _

end Statement

namespace Script

theorem isEqv_self_iff {l : List Statement} :
    l.isEqv l Statement.isEqual ↔ ∀ s ∈ l, .number Double.nan ∉ s.command.literals := by
  induction l with
  | nil => simp [List.isEqv]
  | cons s l ih => simp [List.isEqv, ih, Statement.isEqual, Command.isEqual_self_iff]

theorem isEqual_self_iff {a : Script} :
    a.isEqual a ↔ ∀ s ∈ a.statements, .number Double.nan ∉ s.command.literals := by
  rw [← isEqv_self_iff]
  simp [isEqual]

/-- What is read from a text is equal to itself just if no literal in it is the number that is
none, and a literal is that number just if it is written as one of its texts. -/
theorem isEqual_read_self (text : String) :
    ((read text).isEqual (read text) ↔
        ∀ s ∈ (read text).statements, .number Double.nan ∉ s.command.literals) ∧
      ∀ s ∈ (read text).statements, ∀ v ∈ s.command.literals,
        ∃ raw, raw <:+: s.text.toList ∧ v = .read (String.ofList raw) ∧
          (v = .number Double.nan ↔ Double.IsNanText (trimChars raw)) := by
  refine ⟨isEqual_self_iff, fun s hs v hv => ?_⟩
  rcases read_eq_or_isUnknown hs with ⟨hread, -⟩ | ⟨-, hunknown⟩
  · obtain ⟨raw, hraw, rfl⟩ := Statement.isReadFrom_of_means (Statement.means_of_read hread) hv
    refine ⟨raw, hraw, rfl, ?_⟩
    rw [Value.read_eq_nan_iff, toList_trim, String.toList_ofList]
  · rw [of_decide_eq_true hunknown] at hv
    cases hv

/-- The literal of a variable, of a property and of a stop clause, each of them in another case
of its letters. -/
theorem isEqual_read_self_eq_false :
    (read "x = nan").isEqual (read "x = nan") = false ∧
      (read "Sat.X = -NaN").isEqual (read "Sat.X = -NaN") = false ∧
      (read "Propagate P(S) \x7bS.A = +NAN\x7d").isEqual
        (read "Propagate P(S) \x7bS.A = +NAN\x7d") = false := by
  refine ⟨by decide +kernel, by decide +kernel, by decide +kernel⟩

end Script

end FlightScript
