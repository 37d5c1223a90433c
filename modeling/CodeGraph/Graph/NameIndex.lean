import CodeGraph.Graph.IdSet
import CodeGraph.Table
import CodeGraph.Text.Bytes

/-!
# Name index

Which nodes carry a name. A name without nodes is not kept.
-/

namespace CodeGraph

structure NameIndex where
  table : Table String IdSet := {}
  deriving DecidableEq, Repr

namespace NameIndex

def empty : NameIndex := {}

/-- The nodes of that name, in increasing order. -/
def lookup (index : NameIndex) (name : String) : IdSet :=
  (index.table.get? name).getD []

def put (index : NameIndex) (name : String) (ids : IdSet) : NameIndex :=
  ⟨if ids.isEmpty then index.table.erase name else index.table.put name ids⟩

def insert (index : NameIndex) (name : String) (id : Nat) : NameIndex :=
  index.put name (IdSet.insert id (index.lookup name))

def remove (index : NameIndex) (name : String) (id : Nat) : NameIndex :=
  index.put name (IdSet.remove id (index.lookup name))

/-- The index with the node under the name that it has, if it has one. -/
def insertSome (index : NameIndex) (given : Option String) (id : Nat) : NameIndex :=
  given.elim index fun name => index.insert name id

/-- The index without the node under the name that it has, if it has one. -/
def removeSome (index : NameIndex) (given : Option String) (id : Nat) : NameIndex :=
  given.elim index fun name => index.remove name id

/-- The index once a node has another name, or none. -/
def rename (index : NameIndex) (id : Nat) (old new : Option String) : NameIndex :=
  if old = new then index else (index.removeSome old id).insertSome new id

def names (index : NameIndex) : List String :=
  index.table.keys.mergeSort fun left right => Text.compare left right != .gt

def size (index : NameIndex) : Nat :=
  index.table.size

def isEmpty (index : NameIndex) : Bool :=
  index.size = 0

theorem lookup_put (index : NameIndex) (name other : String) (ids : IdSet) :
    (index.put name ids).lookup other = if other = name then ids else index.lookup other := by
  by_cases heq : other = name
  · subst heq
    by_cases hempty : ids.isEmpty
    · simp [put, lookup, List.isEmpty_iff.1 hempty]
    · simp [put, lookup, hempty]
  · by_cases hempty : ids.isEmpty
    · simp [put, lookup, hempty, heq, Table.get?_erase_of_ne _ heq]
    · simp [put, lookup, hempty, heq, Table.get?_put_of_ne _ _ heq]

end NameIndex

end CodeGraph
