/-!
# Matchings

A matching gives some of the new items an old item each, by index. It grows by sweeps: each new item
without a partner takes the first old one that is free and fits.
-/

namespace CodeGraph

abbrev Matching := List (Option Nat)

namespace Matching

variable {α : Type}

def empty (count : Nat) : Matching :=
  List.replicate count none

/-- The old item that the new item at an index is matched with. -/
def partner? (matching : Matching) (index : Nat) : Option Nat :=
  matching[index]?.join

def isTaken (matching : Matching) (old : Nat) : Bool :=
  matching.contains (some old)

/-- The first old item that is free and fits. -/
def firstFree? (matching : Matching) (olds : List α) (fits : α → Bool) : Option Nat :=
  (olds.zipIdx.find? fun (old, index) => !matching.isTaken index && fits old).map Prod.snd

/-- Gives the new item at an index its partner, unless it has one. -/
def claim (olds : List α) (fits : Matching → α → α → Bool) (matching : Matching)
    (entry : α × Nat) : Matching :=
  let (new, index) := entry
  if (matching.partner? index).isSome then matching
  else match matching.firstFree? olds fun old => fits matching old new with
    | some old => matching.set index (some old)
    | none => matching

/-- One sweep over the new items, in order. Whether two items fit may depend on the matching so
far. -/
def sweep (matching : Matching) (olds news : List α) (fits : Matching → α → α → Bool) : Matching :=
  news.zipIdx.foldl (claim olds fits) matching

/-- The old items that were given to nobody. -/
def free {β : Type} (matching : Matching) (olds : List β) : List β :=
  (olds.zipIdx.filter fun (_, index) => !matching.isTaken index).map Prod.fst

/-- What each new item got, in terms of what the old items carry. -/
def carried {β : Type} (matching : Matching) (olds : List β) : List (Option β) :=
  matching.map fun partner => partner.bind (olds[·]?)

end Matching

end CodeGraph
