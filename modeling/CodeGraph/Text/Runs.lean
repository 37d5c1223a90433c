/-!
# Character runs

A class of characters is a list of runs, each given by its first and last code point and the step
between its members.
-/

namespace CodeGraph.Text

structure Run where
  first : Nat
  last : Nat
  step : Nat
  deriving DecidableEq, Repr

def Run.contains (run : Run) (char : Char) : Bool :=
  run.first ≤ char.toNat && char.toNat ≤ run.last && (char.toNat - run.first) % run.step = 0

def inRuns (runs : List (Nat × Nat × Nat)) (char : Char) : Bool :=
  runs.any fun (first, last, step) => Run.contains ⟨first, last, step⟩ char

/-- White space: the blanks and line breaks of the Unicode property of that name. -/
def isBlank (char : Char) : Bool :=
  inRuns
    [(0x9, 0xD, 1), (0x20, 0x20, 1), (0x85, 0x85, 1), (0xA0, 0xA0, 1), (0x1680, 0x1680, 1),
     (0x2000, 0x200A, 1), (0x2028, 0x2029, 1), (0x202F, 0x202F, 1), (0x205F, 0x205F, 1),
     (0x3000, 0x3000, 1)]
    char

theorem isBlank_of_isWhitespace {char : Char} (hspace : char.isWhitespace) : isBlank char := by
  simp only [Char.isWhitespace, Bool.or_eq_true, decide_eq_true_eq] at hspace
  rcases hspace with ((rfl | rfl) | rfl) | rfl <;> decide

end CodeGraph.Text
