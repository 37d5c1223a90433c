import CodeGraph.Path

/-!
# Sets of paths

Sets of paths as lists in path order without repetition, so that listing one is reading it off.
-/

namespace CodeGraph

abbrev PathSet := List Path

namespace PathSet

def insert (path : Path) : PathSet → PathSet
  | [] => [path]
  | other :: rest =>
    if other = path then other :: rest
    else if other.le path then other :: insert path rest
    else path :: other :: rest

def remove (path : Path) (set : PathSet) : PathSet :=
  set.filter (· ≠ path)

def insertAll (paths : List Path) (set : PathSet) : PathSet :=
  paths.foldl (fun set path => insert path set) set

def ofList (paths : List Path) : PathSet :=
  insertAll paths []

theorem mem_insert {path other : Path} {set : PathSet} :
    other ∈ insert path set ↔ other = path ∨ other ∈ set := by
  induction set with
  | nil => simp [insert]
  | cons first rest ih =>
    unfold insert
    split
    · rename_i hsame
      simp [hsame]
    · split
      · simp only [List.mem_cons, ih]
        exact or_left_comm
      · simp only [List.mem_cons]

theorem mem_remove {path other : Path} {set : PathSet} :
    other ∈ remove path set ↔ other ∈ set ∧ other ≠ path := by
  simp [remove]

theorem mem_insertAll {paths : List Path} {other : Path} {set : PathSet} :
    other ∈ insertAll paths set ↔ other ∈ paths ∨ other ∈ set := by
  induction paths generalizing set with
  | nil => simp [insertAll]
  | cons path rest ih =>
    have hstep : insertAll (path :: rest) set = insertAll rest (insert path set) := rfl
    rw [hstep, ih, mem_insert, List.mem_cons]
    constructor
    · rintro (h | h | h) <;> simp [h]
    · rintro ((h | h) | h) <;> simp [h]

end PathSet

end CodeGraph
