import CodeGraph.Text.Range

/-!
# Syntax trees

A tree carries, at every node, the kind the grammar gives it, its bytes, the role it plays in its
parent, and whether the parser failed there. A parser is any function from texts to trees.
-/

namespace CodeGraph

structure Tree where
  kind : String
  named : Bool
  isError : Bool
  isMissing : Bool
  /-- An error below this node that none of its children shows. -/
  hidesError : Bool
  range : ByteRange
  field : Option String
  children : List Tree
  deriving Repr, Inhabited

namespace Tree

def isFault (node : Tree) : Bool :=
  node.isError || node.isMissing

mutual

def hasError : Tree → Bool
  | ⟨_, _, isError, isMissing, hidesError, _, _, children⟩ =>
    isError || isMissing || hidesError || anyError children

def anyError : List Tree → Bool
  | [] => false
  | node :: rest => hasError node || anyError rest

end

mutual

/-- Levels of the tree; a leaf has one. -/
def height : Tree → Nat
  | ⟨_, _, _, _, _, _, _, children⟩ => heights children + 1

def heights : List Tree → Nat
  | [] => 0
  | node :: rest => max (height node) (heights rest)

end

mutual

/-- Nodes of the tree, itself counted. -/
def size : Tree → Nat
  | ⟨_, _, _, _, _, _, _, children⟩ => sizes children + 1

def sizes : List Tree → Nat
  | [] => 0
  | node :: rest => size node + sizes rest

end

theorem size_eq (node : Tree) : node.size = sizes node.children + 1 := by
  cases node
  rfl

theorem sizes_append (front back : List Tree) : sizes (front ++ back) = sizes front + sizes back := by
  induction front with
  | nil => exact (Nat.zero_add _).symm
  | cons node front ih => rw [List.cons_append, sizes, sizes, ih, Nat.add_assoc]

theorem sizes_reverse (nodes : List Tree) : sizes nodes.reverse = sizes nodes := by
  induction nodes with
  | nil => rfl
  | cons node nodes ih =>
    rw [List.reverse_cons, sizes_append, ih, sizes, sizes, sizes, Nat.add_zero, Nat.add_comm]

/-- The ranges of the faults that a walk finds with these nodes on its stack, the next one first. It
does not look into a fault, nor into a subtree that has none. -/
def faultsOn : List Tree → List ByteRange
  | [] => []
  | node :: stack =>
    if node.isFault then node.range :: faultsOn stack
    else if node.hasError then faultsOn (node.children.reverse ++ stack)
    else faultsOn stack
termination_by stack => sizes stack
decreasing_by
  · rw [sizes, size_eq]
    omega
  · rw [sizes, sizes_append, List.unattach_reverse, List.unattach_attach, sizes_reverse, size_eq]
    omega
  · rw [sizes, size_eq]
    omega

/-- The ranges of the outermost faults in the order of the text. -/
def errorRanges (root : Tree) : List ByteRange :=
  (faultsOn [root]).mergeSort ByteRange.before

def child? (node : Tree) (field : String) : Option Tree :=
  node.children.find? fun child => child.field = some field

def childrenIn (node : Tree) (field : String) : List Tree :=
  node.children.filter fun child => child.field = some field

def namedChildren (node : Tree) : List Tree :=
  node.children.filter fun child => child.named

mutual

/-- The first node of a kind, going down through named nodes. -/
def findKind? (wanted : String) : Tree → Option Tree
  | ⟨kind, named, isError, isMissing, hidesError, range, field, children⟩ =>
    if kind = wanted then some ⟨kind, named, isError, isMissing, hidesError, range, field, children⟩
    else findKindIn? wanted children

def findKindIn? (wanted : String) : List Tree → Option Tree
  | [] => none
  | node :: rest =>
    if node.named then (findKind? wanted node).or (findKindIn? wanted rest)
    else findKindIn? wanted rest

end

/-- A child the search for an offset passes over. -/
def endsBefore (node : Tree) (offset : Nat) : Bool :=
  node.range.stop < offset || (node.range.start ≠ node.range.stop && node.range.stop ≤ offset)

/-- Goes down to the node at an offset and keeps the last named node on the way. -/
def descend (offset : Nat) : Nat → Tree → Tree → Tree
  | 0, _, last => last
  | fuel + 1, node, last =>
    match node.children.find? fun child => !child.endsBefore offset with
    | none => last
    | some child =>
      if offset < child.range.start then last
      else descend offset fuel child (if child.named then child else last)

/-- The kind of the smallest named node at an offset of the text. -/
def kindAt (root : Tree) (text : String) (offset : Nat) : Option String :=
  if Text.size text < offset then none
  else some (descend offset root.height root root).kind

/-- The children in which a pattern binds names: not its default values and annotations. -/
def patternChildren (node : Tree) : List Tree :=
  let values := if node.kind = "pair_pattern" then [] else ["value"]
  let skipped := ["right", "type", "default"] ++ values
  (skipped.foldl (fun children field => children.eraseP fun child => child.field = some field)
    node.children).filter fun child => child.named

def patternNamesWithin (identifiers : List String) : Nat → Tree → List Tree
  | 0, _ => []
  | fuel + 1, node =>
    if node.kind ∈ identifiers then [node]
    else node.patternChildren.flatMap (patternNamesWithin identifiers fuel)

/-- The identifiers that a pattern binds, from left to right. -/
def patternNames (identifiers : List String) (node : Tree) : List Tree :=
  patternNamesWithin identifiers node.height node

def chainRootWithin (members : List String) (object : String) : Nat → Tree → Tree
  | 0, node => node
  | fuel + 1, node =>
    if node.kind ∈ members then
      match node.child? object with
      | some inner => chainRootWithin members object fuel inner
      | none => node
    else node

/-- The innermost object of a member chain, such as the call in `f().x.y`. -/
def chainRoot (members : List String) (object : String) (node : Tree) : Tree :=
  chainRootWithin members object node.height node

def leavesWithin (branches : List String) : Nat → Tree → List Tree
  | 0, _ => []
  | fuel + 1, node =>
    if node.kind ∈ branches then node.namedChildren.flatMap (leavesWithin branches fuel) else [node]

/-- The nodes reached by going through nodes of the given kinds only. -/
def leaves (branches : List String) (node : Tree) : List Tree :=
  leavesWithin branches node.height node

end Tree

inductive Grammar where
  | python
  | javascript
  | typescript
  | tsx
  | go
  | rust
  | java
  deriving DecidableEq, Repr

abbrev Parser := Grammar → String → Tree

end CodeGraph
