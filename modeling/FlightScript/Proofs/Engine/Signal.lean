import FlightScript.Proofs.Engine.Identity

/-!
# Who raises a signal

A signal is made under a name, and the name stands for it until it is given to another
signal. `Raises name history` says that operations raise the signal for which the name
stands at first, and nothing else raises it (`isRaised_after_iff`). A name stands for the
signal that was made last under it (`find?_after_eq_some_iff`). No job and no token has a
part in this.
-/

namespace FlightScript

namespace Signals

/-- Names stand for signals that were made. -/
def NamesMade (s : Signals) : Prop :=
  ∀ name n, s.find? name = some n → n < s.states.length

theorem find?_create (s : Signals) (name other : String) :
    (s.create name).find? other = if name = other then some s.states.length else s.find? other :=
  Table.get?_insert _ _ _ _

theorem length_create (s : Signals) (name : String) :
    (s.create name).states.length = s.states.length + 1 := by
  simp [create]

theorem isRaised_length (s : Signals) : s.isRaised s.states.length = false := by
  simp [isRaised]

theorem length_raise (s : Signals) (n : Nat) : (s.raise n).states.length = s.states.length := by
  simp [raise]

end Signals

/-- Operations raise the signal for which a name stands at first: they raise one under that
name before the name is given to another. -/
def Raises (name : String) (history : List Operation) : Prop :=
  ∃ between rest, history = between ++ .raiseSignal name :: rest ∧ .createSignal name ∉ between

theorem not_raises_nil (name : String) : ¬ Raises name [] := by
  simp [Raises]

theorem raises_cons_iff {name : String} {operation : Operation} {rest : List Operation} :
    Raises name (operation :: rest) ↔
      operation = .raiseSignal name ∨ (operation ≠ .createSignal name ∧ Raises name rest) := by
  rw [Raises, exists_split_cons_at_iff]
  simp [Raises, ne_comm, and_left_comm]

namespace Engine

variable {e : Engine} {name : String} {n : Nat}

theorem signals_move (e : Engine) {m : Move}
    (hm : ∀ signals library clock, m = .environment signals library clock → signals = e.signals) :
    (e.move m).signals = e.signals := by
  cases m with
  | round => rfl
  | submit text user script follows =>
      cases hv : (validate text).isValid with
      | false => rw [move, submit_of_not_valid hv]
      | true => rw [move, submit_of_valid hv]
  | cancel id => rw [move, cancel_fst]
  | collect id => rw [move, collect_fst]
  | environment signals library clock => exact hm signals library clock rfl

theorem signals_run (e : Engine) {moves : List Move}
    (h : ∀ m ∈ moves, ∀ signals library clock,
      m = .environment signals library clock → signals = e.signals) :
    (e.run moves).signals = e.signals := by
  induction moves generalizing e with
  | nil => rfl
  | cons m rest ih =>
      have hm := e.signals_move (h m List.mem_cons_self)
      have hrest : ((e.move m).run rest).signals = (e.move m).signals := by
        apply ih
        rw [hm]
        exact fun m' hm' => h m' (List.mem_cons_of_mem m hm')
      exact hrest.trans hm

theorem signals_apply (e : Engine) {operation : Operation}
    (hc : ∀ name, operation ≠ .createSignal name) (hr : ∀ name, operation ≠ .raiseSignal name) :
    (e.apply operation).1.signals = e.signals := by
  rw [← run_moves]
  apply signals_run
  intro m hm signals library clock hmove
  subst hmove
  cases operation with
  | createSignal name => exact absurd rfl (hc name)
  | raiseSignal name => exact absurd rfl (hr name)
  | wait id => simp [moves] at hm
  | submitSaved id user => cases hs : e.savedScript id user <;> simp [moves, hs] at hm
  | save s => cases hl : e.library.add s <;> simp_all [moves, libraryMoves]
  | resave s => cases hl : e.library.update s e.clock <;> simp_all [moves, libraryMoves]
  | unsave id => cases hl : e.library.delete id <;> simp_all [moves, libraryMoves]
  | _ => simp_all [moves]

theorem signals_apply_raiseSignal (e : Engine) (name : String) :
    (e.apply (.raiseSignal name)).1.signals = e.raise name := rfl

theorem find?_raise (e : Engine) (name other : String) :
    (e.raise name).find? other = e.signals.find? other := by
  rw [raise]
  split <;> rfl

theorem length_raise (e : Engine) (name : String) :
    (e.raise name).states.length = e.signals.states.length := by
  rw [raise]
  split
  · exact Signals.length_raise _ _
  · rfl

theorem isRaised_raise_iff (h : e.signals.NamesMade) :
    (e.raise name).isRaised n ↔ e.signals.isRaised n ∨ e.signals.find? name = some n := by
  rw [raise]
  cases hfind : e.signals.find? name with
  | none => simp
  | some m => simp [Signals.isRaised_raise, h name m hfind]

theorem find?_apply (e : Engine) (operation : Operation) (name : String) :
    (e.apply operation).1.signals.find? name =
      if operation = .createSignal name then some e.signals.states.length
      else e.signals.find? name := by
  cases operation with
  | createSignal other =>
      rw [apply, Signals.find?_create]
      simp
  | raiseSignal other => rw [apply, find?_raise, if_neg Operation.noConfusion]
  | _ => rw [signals_apply e (by simp) (by simp), if_neg (by simp)]

theorem length_apply (e : Engine) (operation : Operation) :
    e.signals.states.length ≤ (e.apply operation).1.signals.states.length := by
  cases operation with
  | createSignal other => simp [apply, Signals.length_create]
  | raiseSignal other => simp [apply, length_raise]
  | _ => simp [signals_apply]

theorem namesMade_apply (h : e.signals.NamesMade) (operation : Operation) :
    (e.apply operation).1.signals.NamesMade := by
  intro name n hn
  rw [find?_apply] at hn
  split at hn
  · next hop =>
      subst hop
      cases hn
      simp [apply, Signals.length_create]
  · exact Nat.lt_of_lt_of_le (h name n hn) (e.length_apply operation)

theorem namesMade_after (h : e.signals.NamesMade) (history : List Operation) :
    (e.after history).signals.NamesMade := by
  induction history generalizing e with
  | nil => exact h
  | cons operation rest ih => exact ih (namesMade_apply h operation)

theorem namesMade_create (step : Float) (publisher : Publisher) (usesLibrary : Bool) :
    (create step publisher usesLibrary).signals.NamesMade := by
  intro name n hn
  cases hn

/-- A signal is raised under the name that stands for it, and in no other way. -/
theorem isRaised_after_iff (h : e.signals.NamesMade) (hn : n < e.signals.states.length)
    (history : List Operation) :
    (e.after history).signals.isRaised n ↔
      e.signals.isRaised n ∨ ∃ name, e.signals.find? name = some n ∧ Raises name history := by
  induction history generalizing e with
  | nil => simp [not_raises_nil]
  | cons operation rest ih =>
      rw [after_cons, ih (namesMade_apply h operation)
        (Nat.lt_of_lt_of_le hn (e.length_apply operation))]
      simp only [find?_apply, raises_cons_iff]
      cases operation with
      | createSignal name =>
          rw [apply, Signals.isRaised_create]
          refine or_congr_right (exists_congr fun other => ?_)
          by_cases hname : name = other
          · simp [hname, Nat.ne_of_gt hn]
          · simp [hname]
      | raiseSignal name =>
          rw [signals_apply_raiseSignal, isRaised_raise_iff h, or_assoc]
          refine or_congr_right ?_
          simp only [reduceCtorEq, if_false, ne_eq, not_false_eq_true, true_and,
            Operation.raiseSignal.injEq, and_or_left, exists_or]
          simp
      | _ => rw [signals_apply e (by simp) (by simp)]; simp

theorem isRaised_of_createSignal (h : e.signals.NamesMade) (name : String)
    (rest : List Operation) :
    (e.after (.createSignal name :: rest)).signals.isRaised e.signals.states.length ↔
      Raises name rest := by
  have hfind : ∀ other, (e.signals.create name).find? other = some e.signals.states.length ↔
      name = other := by
    intro other
    rw [Signals.find?_create]
    by_cases hname : name = other
    · simp [hname]
    · simp only [hname, if_false, iff_false]
      exact fun hn => Nat.lt_irrefl _ (h other _ hn)
  have hlength : e.signals.states.length < (e.signals.create name).states.length := by
    rw [Signals.length_create]
    exact Nat.lt_succ_self _
  rw [after_cons, isRaised_after_iff (namesMade_apply h _) hlength, apply]
  simp only [hfind, Signals.isRaised_create, Signals.isRaised_length]
  simp

/-- A name stands for the signal that was made last under it. -/
theorem find?_after_eq_some_iff {history : List Operation} :
    (e.after history).signals.find? name = some n ↔
      (.createSignal name ∉ history ∧ e.signals.find? name = some n) ∨
      ∃ before rest, history = before ++ .createSignal name :: rest ∧
        .createSignal name ∉ rest ∧ n = (e.after before).signals.states.length := by
  induction history generalizing e with
  | nil => simp
  | cons operation rest ih =>
      rw [after_cons, ih, find?_apply, List.mem_cons, not_or, exists_split_cons_at_iff]
      by_cases hop : operation = .createSignal name
      · simp [hop, eq_comm]
      · simp [hop, eq_comm]

end Engine

end FlightScript
