/-!
# The fewest decimal digits

The decimal numbers that a value can be told by are those that round to it. The one with the fewest
digits lies on the coarsest grid of powers of ten that has any of them.
-/

namespace CodeGraph

/-- A value with the numbers around it that round to it; the ends are among them when it is
`closed`. -/
structure Vicinity where
  low : Nat
  value : Nat
  high : Nat
  closed : Bool
  deriving DecidableEq, Repr

namespace Vicinity

def contains (vicinity : Vicinity) (number : Nat) : Bool :=
  (vicinity.low < number && number < vicinity.high) ||
    (vicinity.closed && (number = vicinity.low || number = vicinity.high))

/-- The multiple of `grid` that is nearest to the value, if one is near enough. A half goes up. -/
def onGrid? (vicinity : Vicinity) (grid : Nat) : Option Nat :=
  let below := vicinity.value / grid * grid
  let above := below + grid
  match vicinity.contains below, vicinity.contains above with
  | true, true => some (if 2 * (vicinity.value - below) < grid then below else above)
  | true, false => some below
  | false, true => some above
  | false, false => none

/-- The number to tell the value by: a multiple of `unit` with as many zeros as can be, but no more
than `zeros`. The value itself is a multiple of `unit`. -/
def shortest (vicinity : Vicinity) (unit : Nat) : Nat → Nat
  | 0 => vicinity.value
  | zeros + 1 =>
    (vicinity.onGrid? (Nat.pow 10 (zeros + 1) * unit)).getD (shortest vicinity unit zeros)

theorem contains_of_onGrid? {vicinity : Vicinity} {grid number : Nat}
    (hgrid : vicinity.onGrid? grid = some number) : vicinity.contains number := by
  unfold onGrid? at hgrid
  dsimp only at hgrid
  split at hgrid
  · split at hgrid <;> simp_all
  all_goals simp_all

/-- What is told of a value rounds to it. -/
theorem contains_shortest {vicinity : Vicinity} (unit zeros : Nat)
    (hlow : vicinity.low < vicinity.value) (hhigh : vicinity.value < vicinity.high) :
    vicinity.contains (vicinity.shortest unit zeros) := by
  induction zeros with
  | zero => simp [shortest, contains, hlow, hhigh]
  | succ zeros ih =>
    rw [shortest]
    cases hgrid : vicinity.onGrid? (Nat.pow 10 (zeros + 1) * unit) with
    | none => exact ih
    | some number => exact contains_of_onGrid? hgrid

end Vicinity

end CodeGraph
