/-!
# Sets of numbers

Sets of ids and of indices as strictly increasing lists, so that listing one is reading it off.
-/

namespace CodeGraph

abbrev IdSet := List Nat

namespace IdSet

def insert (id : Nat) : IdSet → IdSet
  | [] => [id]
  | head :: rest =>
    if id < head then id :: head :: rest
    else if id = head then head :: rest
    else head :: insert id rest

def remove (id : Nat) (ids : IdSet) : IdSet :=
  ids.filter (· ≠ id)

def ofList (ids : List Nat) : IdSet :=
  ids.foldl (fun set id => insert id set) []

theorem mem_insert {id other : Nat} {ids : IdSet} :
    other ∈ insert id ids ↔ other = id ∨ other ∈ ids := by
  induction ids with
  | nil => simp [insert]
  | cons head rest ih =>
    simp only [insert]
    split
    · simp
    · split
      · rename_i heq; subst heq; simp
      · simp only [List.mem_cons, ih]
        constructor
        · rintro (h | h | h) <;> simp [h]
        · rintro (h | h | h) <;> simp [h]

theorem mem_remove {id other : Nat} {ids : IdSet} :
    other ∈ remove id ids ↔ other ∈ ids ∧ other ≠ id := by
  simp [remove]

end IdSet

end CodeGraph
