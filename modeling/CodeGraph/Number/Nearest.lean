/-!
# Rounding to the nearest

A quotient is rounded to a whole number, or to one with a bounded number of binary digits before its
zeros. A half goes to the even neighbour.
-/

namespace CodeGraph

def roundDiv (num den : Nat) : Nat :=
  let quotient := num / den
  let rest := num % den
  if 2 * rest < den ∨ (2 * rest = den ∧ quotient % 2 = 0) then quotient else quotient + 1

/-- The quotient to `digits` binary digits. -/
def nearest (digits num den : Nat) : Nat :=
  let exponent := (num / den).log2 + 1 - digits
  roundDiv num (den * Nat.pow 2 exponent) * Nat.pow 2 exponent

theorem le_roundDiv (num den : Nat) : num / den ≤ roundDiv num den := by
  dsimp only [roundDiv]
  split <;> omega

theorem roundDiv_le (num den : Nat) : roundDiv num den ≤ num / den + 1 := by
  dsimp only [roundDiv]
  split <;> omega

/-- A quotient without remainder stays as it is. -/
theorem roundDiv_mul_self {den : Nat} (whole : Nat) (hden : 0 < den) :
    roundDiv (whole * den) den = whole := by
  simp [roundDiv, Nat.mul_div_cancel _ hden, hden]

end CodeGraph
