import FlightScript.Problem
import FlightScript.Table

/-!
# Saved scripts

A library holds scripts under identifiers, each at most once. A script is added
under a new identifier only, and replaced or deleted under one that is there. A
user sees the public scripts and the own ones; they are listed by name.
-/

namespace FlightScript

/-- A script in a library. Times are as the clock shows them. -/
structure SavedScript where
  id : String
  name : String
  content : String
  description : String
  owner : String
  isPublic : Bool
  tags : List String
  createdAt : Int
  updatedAt : Int
  deriving DecidableEq, Repr

namespace SavedScript

def isVisibleTo (s : SavedScript) (user : String) : Bool :=
  s.isPublic || s.owner = user

/-- The script need not stand after the other one in a list. Names are compared
character by character, by code point. -/
def precedes (s t : SavedScript) : Bool :=
  s.name ≤ t.name

end SavedScript

inductive LibraryError where
  | keyNotFound (id : String)
  | alreadyExists (id : String)
  | other (detail : String)
  deriving DecidableEq, Repr

namespace LibraryError

def message : LibraryError → String
  | .keyNotFound id => "Key not found: " ++ id
  | .alreadyExists id => "Already exists: " ++ id
  | .other detail => "Unexpected error: " ++ detail

/-- How it is reported where scripts are run. -/
def problem : LibraryError → Problem
  | .keyNotFound id => ⟨.notFound, id⟩
  | e => ⟨.storage, e.message⟩

end LibraryError

structure Library where
  scripts : Table SavedScript
  deriving DecidableEq

namespace Library

def empty : Library :=
  ⟨.empty⟩

def get? (l : Library) (id : String) : Option SavedScript :=
  l.scripts.get? id

def put (l : Library) (s : SavedScript) : Library :=
  ⟨l.scripts.insert s.id s⟩

def add (l : Library) (s : SavedScript) : Except LibraryError Library :=
  match l.get? s.id with
  | some _ => .error (.alreadyExists s.id)
  | none => .ok (l.put s)

/-- Replace the script of the same identifier, at a given time. -/
def update (l : Library) (s : SavedScript) (now : Int) : Except LibraryError Library :=
  match l.get? s.id with
  | some _ => .ok (l.put { s with updatedAt := now })
  | none => .error (.keyNotFound s.id)

def delete (l : Library) (id : String) : Except LibraryError Library :=
  match l.get? id with
  | some _ => .ok ⟨l.scripts.erase id⟩
  | none => .error (.keyNotFound id)

/-- The scripts that a user may see, by name; those of one name stand in the order in
which they were put into the library. -/
def visibleTo (l : Library) (user : String) : List SavedScript :=
  ((l.scripts.entries.map Prod.snd).filter fun s => s.isVisibleTo user).mergeSort
    SavedScript.precedes

@[simp] theorem get?_empty (id : String) : empty.get? id = none := rfl

theorem get?_put (l : Library) (s : SavedScript) (id : String) :
    (l.put s).get? id = if s.id = id then some s else l.get? id :=
  Table.get?_insert l.scripts s.id id s

/-- A script is added exactly when its identifier is new. -/
theorem add_eq_ok_iff (l m : Library) (s : SavedScript) :
    l.add s = .ok m ↔ l.get? s.id = none ∧ m = l.put s := by
  unfold add
  cases l.get? s.id <;> simp [eq_comm]

/-- A script is replaced exactly when its identifier is there. -/
theorem update_eq_ok_iff (l m : Library) (s : SavedScript) (now : Int) :
    l.update s now = .ok m ↔ (l.get? s.id).isSome ∧ m = l.put { s with updatedAt := now } := by
  unfold update
  cases l.get? s.id <;> simp [eq_comm]

/-- After a deletion the identifier is free, and no other one is affected. -/
theorem get?_of_delete {l m : Library} {id : String} (h : l.delete id = .ok m) (other : String) :
    m.get? other = if id = other then none else l.get? other := by
  unfold delete at h
  split at h
  · cases h
    exact Table.get?_erase l.scripts id other
  · cases h

end Library

end FlightScript
