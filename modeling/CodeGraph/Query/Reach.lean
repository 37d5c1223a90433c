import CodeGraph.Workspace.Basic

/-!
# Dependencies

What a node depends on, and what depends on it, through imports and references, up to a distance.
-/

namespace CodeGraph

structure Reached where
  distance : Nat
  id : NodeId
  deriving DecidableEq, Repr

/-- The nearest first, and those at one distance by their ids. -/
def Reached.le (left right : Reached) : Bool :=
  left.distance < right.distance || (left.distance = right.distance && left.id ≤ right.id)

def Edge.isDependency (edge : Edge) : Bool :=
  edge.kind = .imports || edge.kind = .references

namespace Graph

def dependencies (graph : Graph) (id : NodeId) : List NodeId :=
  ((graph.edgesFrom id).filter Edge.isDependency).map Edge.target

def dependents (graph : Graph) (id : NodeId) : List NodeId :=
  ((graph.edgesTo id).filter Edge.isDependency).map Edge.source

/-- Takes the nodes that wait in turn, those that were reached first before the others. The nodes next
to one that were not seen before are reached a step further away and wait behind all others. Nodes at
distance `depth` are not gone on from. -/
def visit (next : NodeId → List NodeId) (depth : Nat) :
    Nat → List NodeId → List Reached → List Reached
  | 0, _, _ => []
  | _ + 1, _, [] => []
  | turns + 1, seen, current :: waiting =>
    if current.distance = depth then visit next depth turns seen waiting
    else
      let fresh := ((next current.id).filter (· ∉ seen)).eraseDups
      let reached := fresh.map (Reached.mk (current.distance + 1))
      reached ++ visit next depth turns (seen ++ fresh) (waiting ++ reached)

/-- The nodes within `depth` steps of a live node. Apart from the start every node that gets its turn was
reached over an edge of its own. -/
def reachFrom (graph : Graph) (next : NodeId → List NodeId) (start : NodeId) (depth : Nat) :
    List Reached :=
  if graph.contains start then
    (visit next depth (graph.edges.length + 1) [start] [⟨0, start⟩]).mergeSort Reached.le
  else []

def dependenciesOf (graph : Graph) (id : NodeId) (depth : Nat) : List Reached :=
  graph.reachFrom graph.dependencies id depth

def blastRadius (graph : Graph) (id : NodeId) (depth : Nat) : List Reached :=
  graph.reachFrom graph.dependents id depth

end Graph

end CodeGraph
