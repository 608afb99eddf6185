import FlightScript.Table

/-!
# Cancellation

A *signal* is raised once and for all. Signals are known by name; a name that is
given again stands for the new signal from then on, and what follows the old one
keeps to it. A job has a *token* of its own, which may follow a signal: the token is
cancelled when it was cancelled itself or when that signal is raised, whether that
happened before or after the token was made. Nothing goes the other way, from a
token to a signal or from one token to another.
-/

namespace FlightScript

/-- The signals made so far. -/
structure Signals where
  /-- Whether each signal is raised, the signals being numbered as they are made. -/
  states : List Bool
  /-- The number of the signal that a name stands for. -/
  named : Table Nat
  deriving DecidableEq

namespace Signals

def empty : Signals :=
  ⟨[], .empty⟩

def create (s : Signals) (name : String) : Signals :=
  ⟨s.states ++ [false], s.named.insert name s.states.length⟩

def find? (s : Signals) (name : String) : Option Nat :=
  s.named.get? name

def isRaised (s : Signals) (n : Nat) : Bool :=
  s.states.getD n false

def raise (s : Signals) (n : Nat) : Signals :=
  { s with states := s.states.set n true }

theorem isRaised_raise (s : Signals) (n m : Nat) :
    (s.raise n).isRaised m =
      (s.isRaised m || (decide (n = m) && decide (n < s.states.length))) := by
  unfold isRaised raise
  by_cases h : n = m
  · subst h
    by_cases hn : n < s.states.length <;> simp [List.getD_eq_getElem?_getD, hn]
  · simp [List.getD_eq_getElem?_getD, h]

theorem isRaised_create (s : Signals) (name : String) (n : Nat) :
    (s.create name).isRaised n = s.isRaised n := by
  unfold isRaised create
  rw [List.getD_eq_getElem?_getD, List.getD_eq_getElem?_getD, List.getElem?_append]
  grind

end Signals

/-- What tells a job to stop. -/
structure Token where
  /-- The token itself was cancelled. -/
  cancelled : Bool
  /-- The signal that it follows, if any. -/
  follows : Option Nat
  deriving DecidableEq, Repr

namespace Token

def create (follows : Option Nat) : Token :=
  ⟨false, follows⟩

def cancel (t : Token) : Token :=
  { t with cancelled := true }

/-- The token is cancelled, by itself or by the signal that it follows. -/
def isCancelled (t : Token) (signals : Signals) : Bool :=
  t.cancelled || t.follows.any signals.isRaised

@[simp] theorem isCancelled_cancel (t : Token) (signals : Signals) :
    t.cancel.isCancelled signals := rfl

@[simp] theorem follows_cancel (t : Token) : t.cancel.follows = t.follows := rfl

end Token

end FlightScript
