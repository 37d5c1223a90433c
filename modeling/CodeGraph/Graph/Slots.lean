/-!
# Slots

Values are kept in places. One that goes leaves its place vacant, and the next to come takes the
place that was vacated last, or a new one at the end.
-/

namespace CodeGraph

structure Slots (α : Type) where
  places : List (Option α) := []
  /-- The vacant places, the last vacated first. -/
  vacant : List Nat := []
  deriving DecidableEq, Repr

namespace Slots

variable {α : Type}

/-- The values in the order of their places. -/
def toList (slots : Slots α) : List α :=
  slots.places.filterMap id

def size (slots : Slots α) : Nat :=
  slots.toList.length

def get? (slots : Slots α) (place : Nat) : Option α :=
  slots.places[place]?.join

/-- The place that the next value takes. -/
def next (slots : Slots α) : Nat :=
  slots.vacant.headD slots.places.length

def insert (slots : Slots α) (value : α) : Slots α :=
  match slots.vacant with
  | [] => { slots with places := slots.places ++ [some value] }
  | place :: rest => ⟨slots.places.set place (some value), rest⟩

/-- Changes the value in a place, if there is one. -/
def modify (slots : Slots α) (place : Nat) (change : α → α) : Slots α :=
  { slots with places := slots.places.modify place (Option.map change) }

/-- Leaves a place vacant. -/
def vacate (slots : Slots α) (place : Nat) : Slots α :=
  match slots.get? place with
  | none => slots
  | some _ => ⟨slots.places.set place none, place :: slots.vacant⟩

def erase [DecidableEq α] (slots : Slots α) (value : α) : Slots α :=
  match slots.places.idxOf? (some value) with
  | none => slots
  | some place => ⟨slots.places.set place none, place :: slots.vacant⟩

theorem mem_toList {slots : Slots α} {value : α} :
    value ∈ slots.toList ↔ some value ∈ slots.places := by
  simp [toList]

theorem mem_of_mem_insert {slots : Slots α} {value other : α}
    (hmem : other ∈ (slots.insert value).toList) : other = value ∨ other ∈ slots.toList := by
  rw [mem_toList] at hmem ⊢
  unfold insert at hmem
  split at hmem
  · rcases List.mem_append.1 hmem with hold | hnew
    · exact .inr hold
    · exact .inl (by simpa using hnew)
  · rcases List.mem_or_eq_of_mem_set hmem with hold | hnew
    · exact .inr hold
    · exact .inl (by simpa using hnew)

theorem mem_of_mem_erase [DecidableEq α] {slots : Slots α} {value other : α}
    (hmem : other ∈ (slots.erase value).toList) : other ∈ slots.toList := by
  rw [mem_toList] at hmem ⊢
  unfold erase at hmem
  split at hmem
  · exact hmem
  · rcases List.mem_or_eq_of_mem_set hmem with hold | hnew
    · exact hold
    · cases hnew

end Slots

end CodeGraph
