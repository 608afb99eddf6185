/-!
# Tables

A table binds names to values, each name at most once. Its entries stand in the
order in which their names were first bound. What a table holds is read through
`Table.get?`; every operation has its law about `get?`, and no two entries have
one name, so that the entries and `get?` say the same.
-/

namespace FlightScript

namespace Entries

variable {α : Type}

def find? (name : String) : List (String × α) → Option α
  | [] => none
  | (k, a) :: rest => if k = name then some a else find? name rest

/-- The entries with a value bound to a name: in the place of the former value, or
at the end. -/
def bind (name : String) (a : α) : List (String × α) → List (String × α)
  | [] => [(name, a)]
  | (k, b) :: rest => if k = name then (k, a) :: rest else (k, b) :: bind name a rest

theorem find?_bind (name other : String) (a : α) (l : List (String × α)) :
    find? other (bind name a l) = if name = other then some a else find? other l := by
  induction l with
  | nil => rfl
  | cons e l ih =>
    obtain ⟨k, b⟩ := e
    by_cases hk : k = name
    · subst hk
      by_cases ho : k = other <;> simp [bind, find?, ho]
    · by_cases hn : name = other
      · subst hn
        simp [bind, find?, hk, ih]
      · simp [bind, find?, hk, hn, ih]

theorem mem_keys_bind (name other : String) (a : α) (l : List (String × α)) :
    other ∈ (bind name a l).map Prod.fst ↔ other = name ∨ other ∈ l.map Prod.fst := by
  induction l with
  | nil => simp [bind]
  | cons e l ih =>
    obtain ⟨k, b⟩ := e
    by_cases hk : k = name
    · subst hk
      simp [bind]
    · simp only [bind, if_neg hk, List.map_cons, List.mem_cons, ih]
      grind

theorem nodup_keys_bind (name : String) (a : α) (l : List (String × α))
    (h : (l.map Prod.fst).Nodup) : ((bind name a l).map Prod.fst).Nodup := by
  induction l with
  | nil => simp [bind]
  | cons e l ih =>
    obtain ⟨k, b⟩ := e
    rw [List.map_cons, List.nodup_cons] at h
    by_cases hk : k = name
    · rw [bind, if_pos hk, List.map_cons, List.nodup_cons]
      exact h
    · rw [bind, if_neg hk, List.map_cons, List.nodup_cons, mem_keys_bind]
      exact ⟨fun hm => hm.elim hk h.1, ih h.2⟩

theorem find?_eq_none_iff (name : String) (l : List (String × α)) :
    find? name l = none ↔ name ∉ l.map Prod.fst := by
  induction l with
  | nil => simp [find?]
  | cons e l ih =>
    obtain ⟨k, b⟩ := e
    by_cases hk : k = name
    · simp [find?, hk]
    · simp only [find?, if_neg hk, ih, List.map_cons, List.mem_cons]
      grind

theorem find?_eq_some_iff (name : String) (a : α) (l : List (String × α))
    (h : (l.map Prod.fst).Nodup) : find? name l = some a ↔ (name, a) ∈ l := by
  induction l with
  | nil => simp [find?]
  | cons e l ih =>
    obtain ⟨k, b⟩ := e
    rw [List.map_cons, List.nodup_cons] at h
    by_cases hk : k = name
    · subst hk
      have hne : ∀ c, (k, c) ∉ l := fun c hc => h.1 (List.mem_map.2 ⟨(k, c), hc, rfl⟩)
      simp [find?, hne, eq_comm]
    · have hne : name ≠ k := fun e => hk e.symm
      simp [find?, hk, ih h.2, hne]

def erase (name : String) (l : List (String × α)) : List (String × α) :=
  l.filter fun e => e.1 ≠ name

theorem find?_erase (name other : String) (l : List (String × α)) :
    find? other (erase name l) = if name = other then none else find? other l := by
  induction l with
  | nil => simp [erase, find?]
  | cons e l ih =>
    obtain ⟨k, b⟩ := e
    unfold erase at ih ⊢
    rw [List.filter_cons]
    grind [find?]

theorem nodup_keys_erase (name : String) (l : List (String × α))
    (h : (l.map Prod.fst).Nodup) : ((erase name l).map Prod.fst).Nodup :=
  h.sublist (List.filter_sublist.map Prod.fst)

end Entries

/-- Names bound to values, each at most once. -/
structure Table (α : Type) where
  entries : List (String × α)
  nodup : (entries.map Prod.fst).Nodup
  deriving DecidableEq

namespace Table

variable {α : Type}

def empty : Table α :=
  ⟨[], List.nodup_nil⟩

def names (t : Table α) : List String :=
  t.entries.map Prod.fst

def get? (t : Table α) (name : String) : Option α :=
  Entries.find? name t.entries

def contains (t : Table α) (name : String) : Bool :=
  (t.get? name).isSome

/-- The table with a value bound to a name, in place of a former one. -/
def insert (t : Table α) (name : String) (a : α) : Table α :=
  ⟨Entries.bind name a t.entries, Entries.nodup_keys_bind name a t.entries t.nodup⟩

def erase (t : Table α) (name : String) : Table α :=
  ⟨Entries.erase name t.entries, Entries.nodup_keys_erase name t.entries t.nodup⟩

@[simp] theorem get?_empty (name : String) : (empty : Table α).get? name = none := rfl

theorem get?_insert (t : Table α) (name other : String) (a : α) :
    (t.insert name a).get? other = if name = other then some a else t.get? other :=
  Entries.find?_bind name other a t.entries

@[simp] theorem get?_insert_self (t : Table α) (name : String) (a : α) :
    (t.insert name a).get? name = some a := by
  simp [get?_insert]

theorem get?_insert_of_ne (t : Table α) {name other : String} (a : α) (h : name ≠ other) :
    (t.insert name a).get? other = t.get? other := by
  simp [get?_insert, h]

theorem get?_erase (t : Table α) (name other : String) :
    (t.erase name).get? other = if name = other then none else t.get? other :=
  Entries.find?_erase name other t.entries

theorem mem_names_insert (t : Table α) (name other : String) (a : α) :
    other ∈ (t.insert name a).names ↔ other = name ∨ other ∈ t.names :=
  Entries.mem_keys_bind name other a t.entries

theorem get?_eq_none_iff (t : Table α) (name : String) : t.get? name = none ↔ name ∉ t.names :=
  Entries.find?_eq_none_iff name t.entries

theorem isSome_get?_iff (t : Table α) (name : String) :
    (t.get? name).isSome ↔ name ∈ t.names := by
  rw [Option.isSome_iff_ne_none, ne_eq, get?_eq_none_iff, Decidable.not_not]

theorem get?_eq_some_iff (t : Table α) (name : String) (a : α) :
    t.get? name = some a ↔ (name, a) ∈ t.entries :=
  Entries.find?_eq_some_iff name a t.entries t.nodup

end Table

end FlightScript
