/-!
# Tables

Finite maps as lists of entries. A table is read through `get?`; every operation is described by
what it does to that view.
-/

namespace CodeGraph

structure Table (κ : Type) (α : Type) where
  entries : List (κ × α) := []
  deriving DecidableEq, Repr

namespace Table

variable {κ α : Type} [DecidableEq κ]

def empty : Table κ α := {}

def get? (table : Table κ α) (key : κ) : Option α :=
  (table.entries.find? fun entry => entry.1 = key).map Prod.snd

def contains (table : Table κ α) (key : κ) : Bool :=
  (table.get? key).isSome

def erase (table : Table κ α) (key : κ) : Table κ α :=
  ⟨table.entries.filter fun entry => entry.1 ≠ key⟩

def put (table : Table κ α) (key : κ) (value : α) : Table κ α :=
  ⟨(table.erase key).entries ++ [(key, value)]⟩

/-- Keeps the value a key already has. -/
def putNew (table : Table κ α) (key : κ) (value : α) : Table κ α :=
  if table.contains key then table else table.put key value

def keys (table : Table κ α) : List κ :=
  table.entries.map Prod.fst

def size (table : Table κ α) : Nat :=
  table.entries.length

omit [DecidableEq κ] in
theorem find?_filter_of_imp {entries : List (κ × α)} {keep wanted : κ × α → Bool}
    (himp : ∀ entry, wanted entry → keep entry) :
    (entries.filter keep).find? wanted = entries.find? wanted := by
  induction entries with
  | nil => rfl
  | cons entry rest ih =>
    by_cases hkeep : keep entry
    · simp [hkeep, List.find?_cons, ih]
    · have hwanted : wanted entry = false := by
        cases hw : wanted entry
        · rfl
        · exact absurd (himp entry hw) hkeep
      simp [hkeep, hwanted, ih]

theorem get?_empty (key : κ) : (empty : Table κ α).get? key = none := rfl

@[simp]
theorem get?_erase_self (table : Table κ α) (key : κ) : (table.erase key).get? key = none := by
  simp only [get?, erase, Option.map_eq_none_iff, List.find?_eq_none]
  intro entry hentry
  simpa using (List.mem_filter.1 hentry).2

theorem get?_erase_of_ne (table : Table κ α) {key other : κ} (hne : other ≠ key) :
    (table.erase key).get? other = table.get? other := by
  simp only [get?, erase]
  rw [find?_filter_of_imp]
  intro entry hwanted
  have heq : entry.1 = other := by simpa using hwanted
  simp [heq, hne]

@[simp]
theorem get?_put_self (table : Table κ α) (key : κ) (value : α) :
    (table.put key value).get? key = some value := by
  have hnone : (table.erase key).entries.find? (fun entry => entry.1 = key) = none := by
    have := get?_erase_self table key
    simpa [get?] using this
  simp only [get?, put, List.find?_append, hnone]
  simp

theorem get?_put_of_ne (table : Table κ α) {key other : κ} (value : α) (hne : other ≠ key) :
    (table.put key value).get? other = table.get? other := by
  rw [← get?_erase_of_ne table hne]
  have hother : ¬ key = other := fun h => hne h.symm
  simp [get?, put, List.find?_append, hother]

end Table

end CodeGraph
