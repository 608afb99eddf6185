/-!
# Rounding a quotient

`roundDiv tie num den` is the whole number nearest to `num / den`. Two whole
numbers are equally near exactly when the quotient ends in one half; `tie` says
which of them is taken.
-/

namespace FlightScript

/-- Which neighbour is taken of a quotient that lies half way between two. -/
inductive Tie where
  /-- The even one. -/
  | even
  /-- The greater one. -/
  | up
  deriving DecidableEq, Repr

/-- The whole number nearest to `num / den`, for `den` not zero. -/
def roundDiv (tie : Tie) (num den : Nat) : Nat :=
  let q := num / den
  let r := num % den
  if 2 * r < den then q
  else if den < 2 * r then q + 1
  else
    match tie with
    | .even => if q % 2 = 0 then q else q + 1
    | .up => q + 1

/-- A quotient without remainder is not rounded. -/
theorem roundDiv_mul_right (tie : Tie) (n : Nat) {den : Nat} (h : 0 < den) :
    roundDiv tie (n * den) den = n := by
  simp [roundDiv, Nat.mul_div_cancel _ h, h]

/-- The result is within one half of the quotient. -/
theorem roundDiv_close (tie : Tie) (num : Nat) {den : Nat} (h : 0 < den) :
    2 * num ≤ 2 * (roundDiv tie num den * den) + den ∧
      2 * (roundDiv tie num den * den) ≤ 2 * num + den := by
  have hdm := Nat.div_add_mod num den
  have hlt := Nat.mod_lt num h
  have hsucc : (num / den + 1) * den = den * (num / den) + den := by
    rw [Nat.succ_mul, Nat.mul_comm]
  have hself : num / den * den = den * (num / den) := Nat.mul_comm _ _
  have key : (roundDiv tie num den = num / den ∧ 2 * (num % den) ≤ den) ∨
      (roundDiv tie num den = num / den + 1 ∧ den ≤ 2 * (num % den)) := by
    unfold roundDiv
    grind
  rcases key with ⟨hk, hr⟩ | ⟨hk, hr⟩ <;> rw [hk] <;> omega

end FlightScript
