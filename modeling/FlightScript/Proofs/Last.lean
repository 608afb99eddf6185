import Mathlib.Data.List.Induction

/-!
# The last entry that counts

Whether an entry of a list counts may depend on the entries before it. `IsLast p l a` says
that `a` is the last entry of `l` that counts. What is computed from a list, is set by every
entry that counts and left alone by every other one, is what the last one that counts has
set, or what it was for the empty list (`eq_of_isLast`, `eq_of_not_counts`).
-/

namespace FlightScript

variable {α β : Type*} {p : List α → α → Prop} {l : List α} {a b : α}

/-- In a list the last entry that counts; `p front a` says that `a` counts after the entries
`front`. -/
def IsLast (p : List α → α → Prop) (l : List α) (a : α) : Prop :=
  ∃ front rest, l = front ++ a :: rest ∧ p front a ∧
    ∀ middle b tail, rest = middle ++ b :: tail → ¬ p (front ++ a :: middle) b

/-- Some entry of a list counts. -/
def Counts (p : List α → α → Prop) (l : List α) : Prop :=
  ∃ front a rest, l = front ++ a :: rest ∧ p front a

/-- Where an entry stands in a list with one more entry at its end. -/
theorem append_cons_eq_append_singleton {front rest : List α} :
    front ++ a :: rest = l ++ [b] ↔
      (front = l ∧ a = b ∧ rest = []) ∨ ∃ tail, rest = tail ++ [b] ∧ front ++ a :: tail = l := by
  constructor
  · intro h
    cases rest using List.reverseRecOn with
    | nil =>
        obtain ⟨rfl, heq⟩ := List.append_inj' h rfl
        exact Or.inl ⟨rfl, List.singleton_inj.1 heq, rfl⟩
    | append_singleton tail c =>
        rw [← List.cons_append, ← List.append_assoc] at h
        obtain ⟨rfl, heq⟩ := List.append_inj' h rfl
        exact Or.inr ⟨tail, by rw [List.singleton_inj.1 heq], rfl⟩
  · rintro (⟨rfl, rfl, rfl⟩ | ⟨tail, rfl, rfl⟩)
    · rfl
    · rw [List.append_assoc, List.cons_append]

theorem not_counts_nil : ¬ Counts p ([] : List α) := by
  rintro ⟨front, a, rest, hnil, -⟩
  cases front <;> cases hnil

theorem IsLast.counts (h : IsLast p l a) : Counts p l := by
  obtain ⟨front, rest, hl, ha, -⟩ := h
  exact ⟨front, a, rest, hl, ha⟩

theorem IsLast.mem (h : IsLast p l a) : a ∈ l := by
  obtain ⟨front, rest, rfl, -⟩ := h
  exact List.mem_append_right _ List.mem_cons_self

theorem counts_append_singleton : Counts p (l ++ [b]) ↔ Counts p l ∨ p l b := by
  constructor
  · rintro ⟨front, a, rest, hsplit, ha⟩
    rcases append_cons_eq_append_singleton.1 hsplit.symm with ⟨rfl, rfl, -⟩ | ⟨tail, -, rfl⟩
    · exact Or.inr ha
    · exact Or.inl ⟨front, a, tail, rfl, ha⟩
  · rintro (⟨front, a, rest, rfl, ha⟩ | hb)
    · exact ⟨front, a, rest ++ [b], by simp, ha⟩
    · exact ⟨l, b, [], rfl, hb⟩

theorem isLast_append_singleton_of_pos (h : p l b) : IsLast p (l ++ [b]) a ↔ a = b := by
  constructor
  · rintro ⟨front, rest, hsplit, -, hlater⟩
    rcases append_cons_eq_append_singleton.1 hsplit.symm with ⟨-, rfl, -⟩ | ⟨tail, rfl, rfl⟩
    · rfl
    · exact absurd h (hlater tail b [] rfl)
  · rintro rfl
    refine ⟨l, [], rfl, h, fun middle b tail hnil => ?_⟩
    cases middle <;> cases hnil

theorem isLast_append_singleton_of_neg (h : ¬ p l b) :
    IsLast p (l ++ [b]) a ↔ IsLast p l a := by
  constructor
  · rintro ⟨front, rest, hsplit, ha, hlater⟩
    rcases append_cons_eq_append_singleton.1 hsplit.symm with ⟨rfl, rfl, -⟩ | ⟨tail, rfl, rfl⟩
    · exact absurd ha h
    · refine ⟨front, tail, rfl, ha, ?_⟩
      rintro middle c back rfl
      exact hlater middle c (back ++ [b]) (by simp)
  · rintro ⟨front, rest, rfl, ha, hlater⟩
    refine ⟨front, rest ++ [b], by simp, ha, fun middle c back hrest => ?_⟩
    rcases append_cons_eq_append_singleton.1 hrest.symm with ⟨rfl, rfl, -⟩ | ⟨tail, -, rfl⟩
    · exact h
    · exact hlater middle c tail rfl

theorem Counts.exists_isLast (h : Counts p l) : ∃ a, IsLast p l a := by
  induction l using List.reverseRecOn with
  | nil => exact absurd h not_counts_nil
  | append_singleton l b ih =>
      by_cases hb : p l b
      · exact ⟨b, (isLast_append_singleton_of_pos hb).2 rfl⟩
      · obtain ⟨a, ha⟩ := ih ((counts_append_singleton.1 h).resolve_right hb)
        exact ⟨a, (isLast_append_singleton_of_neg hb).2 ha⟩

theorem IsLast.congr {q : List α → α → Prop}
    (h : ∀ front a rest, l = front ++ a :: rest → (p front a ↔ q front a))
    (ha : IsLast p l a) : IsLast q l a := by
  obtain ⟨front, rest, rfl, hcounts, hlater⟩ := ha
  refine ⟨front, rest, rfl, (h front a rest rfl).1 hcounts, ?_⟩
  rintro middle b tail rfl
  exact mt (h (front ++ a :: middle) b tail (by simp)).2 (hlater middle b tail rfl)

section

variable {g : List α → β} {f : α → β}
  (hset : ∀ front a rest, l = front ++ a :: rest → p front a → g (front ++ [a]) = f a)
  (hkeep : ∀ front a rest, l = front ++ a :: rest → ¬ p front a → g (front ++ [a]) = g front)

include hset hkeep

theorem eq_of_isLast (h : IsLast p l a) : g l = f a := by
  induction l using List.reverseRecOn with
  | nil => exact absurd h.counts not_counts_nil
  | append_singleton l b ih =>
      by_cases hb : p l b
      · rw [hset l b [] rfl hb, (isLast_append_singleton_of_pos hb).1 h]
      · rw [hkeep l b [] rfl hb]
        refine ih ?_ ?_ ((isLast_append_singleton_of_neg hb).1 h)
        · rintro front a rest rfl
          exact hset front a (rest ++ [b]) (by simp)
        · rintro front a rest rfl
          exact hkeep front a (rest ++ [b]) (by simp)

omit hset in
theorem eq_of_not_counts (h : ¬ Counts p l) : g l = g [] := by
  induction l using List.reverseRecOn with
  | nil => rfl
  | append_singleton l b ih =>
      rw [counts_append_singleton, not_or] at h
      rw [hkeep l b [] rfl h.2]
      refine ih ?_ h.1
      rintro front a rest rfl
      exact hkeep front a (rest ++ [b]) (by simp)

end

end FlightScript
