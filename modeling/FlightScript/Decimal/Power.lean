/-!
# Powers of two and of ten

The two bases between which numerals are converted.
-/

namespace FlightScript

abbrev twoPow (n : Nat) : Nat :=
  Nat.pow 2 n

abbrev tenPow (n : Nat) : Nat :=
  Nat.pow 10 n

theorem twoPow_pos (n : Nat) : 0 < twoPow n :=
  Nat.two_pow_pos n

theorem tenPow_pos (n : Nat) : 0 < tenPow n :=
  Nat.pow_pos (by decide)

end FlightScript
