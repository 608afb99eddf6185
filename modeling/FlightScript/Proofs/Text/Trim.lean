import FlightScript.Text.Space
import Mathlib.Data.List.Induction
import Mathlib.Data.List.TakeWhile

/-!
# Trimming

What is removed from the ends of a list is described by what is left: a list that
begins, or ends, outside of the characters that are removed. `TrimsTo cs u` says that
`u` is `cs` without the white space around it, and there is exactly one such `u`,
`trimChars cs` (`trimsTo_iff`).
-/

namespace FlightScript

namespace Text

variable {α : Type} {p : α → Bool}

/-- The first element of a list, if there is one, fails a test. -/
def StartsOutside (p : α → Bool) (l : List α) : Prop :=
  ∀ a, l.head? = some a → p a = false

/-- The last element of a list, if there is one, fails a test. -/
def EndsOutside (p : α → Bool) (l : List α) : Prop :=
  ∀ a, l.getLast? = some a → p a = false

theorem startsOutside_nil : StartsOutside p [] :=
  fun _ h => by cases h

theorem startsOutside_cons {a : α} (h : p a = false) (l : List α) : StartsOutside p (a :: l) := by
  rintro b hb
  obtain rfl := Option.some.inj hb
  exact h

theorem StartsOutside.append {l : List α} (h : StartsOutside p l) (hl : l ≠ []) (m : List α) :
    StartsOutside p (l ++ m) := by
  obtain ⟨a, l, rfl⟩ := List.exists_cons_of_ne_nil hl
  exact startsOutside_cons (h a rfl) (l ++ m)

theorem StartsOutside.mono {q : α → Bool} {l : List α} (h : StartsOutside p l)
    (hq : ∀ a, q a → p a) : StartsOutside q l := by
  intro a ha
  cases hqa : q a with
  | false => rfl
  | true => rw [← hq a hqa, h a ha]

theorem EndsOutside.mono {q : α → Bool} {l : List α} (h : EndsOutside p l)
    (hq : ∀ a, q a → p a) : EndsOutside q l := by
  intro a ha
  cases hqa : q a with
  | false => rfl
  | true => rw [← hq a hqa, h a ha]

theorem startsOutside_dropWhile (l : List α) : StartsOutside p (l.dropWhile p) := by
  induction l with
  | nil => exact startsOutside_nil
  | cons a l ih =>
      cases ha : p a with
      | true => rwa [List.dropWhile_cons_of_pos ha]
      | false =>
          rw [List.dropWhile_cons_of_neg (by rw [ha]; decide)]
          exact startsOutside_cons ha l

theorem dropWhile_of_startsOutside {l : List α} (h : StartsOutside p l) : l.dropWhile p = l := by
  cases l with
  | nil => rfl
  | cons a l => exact List.dropWhile_cons_of_neg (by rw [h a rfl]; decide)

theorem dropWhile_append_of_startsOutside {front rest : List α} (hfront : ∀ a ∈ front, p a)
    (hrest : StartsOutside p rest) : (front ++ rest).dropWhile p = rest := by
  rw [List.dropWhile_append_of_pos hfront, dropWhile_of_startsOutside hrest]

theorem takeWhile_append_of_startsOutside {front rest : List α} (hfront : ∀ a ∈ front, p a)
    (hrest : StartsOutside p rest) : (front ++ rest).takeWhile p = front := by
  have hnil : rest.takeWhile p = [] := by
    cases rest with
    | nil => rfl
    | cons a rest => exact List.takeWhile_cons_of_neg (by rw [hrest a rfl]; decide)
  rw [List.takeWhile_append_of_pos hfront, hnil, List.append_nil]

/-- The longest front of a list that passes a test, if its first element does. -/
theorem exists_span {a : α} (h : p a) (l : List α) :
    ∃ front rest, a :: l = front ++ rest ∧ front ≠ [] ∧ (∀ b ∈ front, p b) ∧
      StartsOutside p rest := by
  refine ⟨(a :: l).takeWhile p, (a :: l).dropWhile p, List.takeWhile_append_dropWhile.symm,
    ?_, ?_, startsOutside_dropWhile (a :: l)⟩
  · rw [List.takeWhile_cons_of_pos h]
    exact List.cons_ne_nil _ _
  · intro b hb
    exact List.mem_takeWhile_imp hb

theorem EndsOutside.of_append {l m : List α} (h : EndsOutside p (l ++ m)) :
    EndsOutside p m := by
  intro a ha
  exact h a (by rw [List.getLast?_append, ha]; rfl)

theorem EndsOutside.append {m : List α} (h : EndsOutside p m) (hm : m ≠ []) (l : List α) :
    EndsOutside p (l ++ m) := by
  intro a ha
  rw [List.getLast?_append, Option.or_of_isSome (List.getLast?_isSome.2 hm)] at ha
  exact h a ha

theorem endsOutside_append_singleton {a : α} (h : p a = false) (l : List α) :
    EndsOutside p (l ++ [a]) := by
  intro b hb
  rw [List.getLast?_concat] at hb
  obtain rfl := Option.some.inj hb
  exact h

/-- A list that ends outside a test does not pass it throughout. -/
theorem EndsOutside.exists_mem {l : List α} (h : EndsOutside p l) (hl : l ≠ []) :
    ∃ a ∈ l, p a = false := by
  obtain ⟨a, ha⟩ := Option.isSome_iff_exists.1 (List.getLast?_isSome.2 hl)
  exact ⟨a, List.mem_of_getLast? ha, h a ha⟩

theorem EndsOutside.dropWhile_ne_nil {l : List α} (h : EndsOutside p l) (hl : l ≠ []) :
    l.dropWhile p ≠ [] := by
  intro hnil
  obtain ⟨a, ha, hp⟩ := h.exists_mem hl
  rw [List.dropWhile_eq_nil_iff.1 hnil a ha] at hp
  cases hp

theorem endsOutside_dropTrailing (l : List α) : EndsOutside p (dropTrailing p l) := by
  induction l using List.reverseRecOn with
  | nil => exact fun _ h => by cases h
  | append_singleton l a ih =>
      cases ha : p a with
      | true => rwa [dropTrailing_append_singleton_of_pos p l ha]
      | false =>
          rw [dropTrailing_append_singleton_of_not p l ha]
          exact endsOutside_append_singleton ha l

theorem dropTrailing_of_endsOutside {l : List α} (h : EndsOutside p l) :
    dropTrailing p l = l := by
  induction l using List.reverseRecOn with
  | nil => rfl
  | append_singleton l a _ =>
      exact dropTrailing_append_singleton_of_not p l (h a List.getLast?_concat)

theorem dropTrailing_append {l m : List α} (h : ∀ a ∈ m, p a) :
    dropTrailing p (l ++ m) = dropTrailing p l := by
  induction m using List.reverseRecOn with
  | nil => rw [List.append_nil]
  | append_singleton m a ih =>
      rw [← List.append_assoc,
        dropTrailing_append_singleton_of_pos p _ (h a (List.mem_append_right _ (by simp)))]
      exact ih fun b hb => h b (List.mem_append_left _ hb)

theorem trimChars_append_left {front : List Char} (h : ∀ c ∈ front, isSpace c)
    (cs : List Char) : trimChars (front ++ cs) = trimChars cs := by
  rw [trimChars, trimStartChars, List.dropWhile_append_of_pos h]
  rfl

/-- The list `u` is `cs` without the white space around it. -/
def TrimsTo (cs u : List Char) : Prop :=
  ∃ front back, cs = front ++ u ++ back ∧ (∀ c ∈ front, isSpace c) ∧ (∀ c ∈ back, isSpace c) ∧
    StartsOutside isSpace u ∧ EndsOutside isSpace u

theorem trimsTo_trimChars (cs : List Char) : TrimsTo cs (trimChars cs) := by
  obtain ⟨back, hback, hspace⟩ := exists_dropTrailing_append isSpace (trimStartChars cs)
  refine ⟨cs.takeWhile isSpace, back, ?_, ?_, hspace, ?_, endsOutside_dropTrailing _⟩
  · rw [List.append_assoc, trimChars, trimEndChars, ← hback]
    exact List.takeWhile_append_dropWhile.symm
  · intro c hc
    exact List.mem_takeWhile_imp hc
  · intro c hc
    have hstart : StartsOutside isSpace (trimStartChars cs) := startsOutside_dropWhile cs
    apply hstart c
    rw [hback, List.head?_append, ← trimEndChars, ← trimChars, hc]
    rfl

/-- There is one way to trim a list. -/
theorem trimsTo_iff {cs u : List Char} : TrimsTo cs u ↔ trimChars cs = u := by
  constructor
  · rintro ⟨front, back, rfl, hfront, hback, hstart, hend⟩
    rw [List.append_assoc, trimChars_append_left hfront, trimChars]
    rcases List.eq_nil_or_concat u with rfl | ⟨v, a, rfl⟩
    · rw [List.nil_append, trimStartChars, List.dropWhile_eq_nil_iff.2 hback]
      rfl
    · rw [List.concat_eq_append] at hstart hend ⊢
      have hne : v ++ [a] ≠ [] := by simp
      rw [trimStartChars, dropWhile_of_startsOutside (hstart.append hne back), trimEndChars,
        dropTrailing_append hback, dropTrailing_of_endsOutside hend]
  · rintro rfl
    exact trimsTo_trimChars cs

theorem trimChars_of_outside {cs : List Char} (hstart : StartsOutside isSpace cs)
    (hend : EndsOutside isSpace cs) : trimChars cs = cs :=
  trimsTo_iff.1 ⟨[], [], (List.append_nil _).symm, by simp, by simp, hstart, hend⟩

theorem trimChars_trimChars (cs : List Char) : trimChars (trimChars cs) = trimChars cs := by
  obtain ⟨-, -, -, -, -, hstart, hend⟩ := trimsTo_trimChars cs
  exact trimChars_of_outside hstart hend

theorem trimChars_surround {front back : List Char} (hfront : ∀ c ∈ front, isSpace c)
    (hback : ∀ c ∈ back, isSpace c) (cs : List Char) :
    trimChars (front ++ cs ++ back) = trimChars cs := by
  obtain ⟨front', back', hcs, hfront', hback', hstart, hend⟩ := trimsTo_trimChars cs
  refine trimsTo_iff.1 ⟨front ++ front', back' ++ back, ?_, ?_, ?_, hstart, hend⟩
  · conv_lhs => rw [hcs]
    simp only [List.append_assoc]
  · exact List.forall_mem_append.2 ⟨hfront, hfront'⟩
  · exact List.forall_mem_append.2 ⟨hback', hback⟩

theorem TrimsTo.isInfix {cs u : List Char} (h : TrimsTo cs u) : u <:+: cs := by
  obtain ⟨front, back, rfl, -⟩ := h
  exact List.infix_append front u back

end Text

end FlightScript
