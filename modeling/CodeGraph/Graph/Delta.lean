import CodeGraph.Graph.Edge
import CodeGraph.Graph.IdSet

/-!
# Deltas

The record of what happened to a graph while it was watched.
-/

namespace CodeGraph

structure Delta where
  addedNodes : List NodeId := []
  removedNodes : List NodeId := []
  modifiedNodes : List NodeId := []
  addedEdges : List EdgeKey := []
  removedEdges : List EdgeKey := []
  modifiedEdges : List EdgeKey := []
  deriving DecidableEq, Repr

namespace Delta

def empty : Delta := {}

def mutationCount (delta : Delta) : Nat :=
  delta.addedNodes.length + delta.removedNodes.length + delta.modifiedNodes.length +
    delta.addedEdges.length + delta.removedEdges.length + delta.modifiedEdges.length

def isEmpty (delta : Delta) : Bool :=
  delta.mutationCount = 0

/-- The record of two stretches, one after the other. -/
def merge (first second : Delta) : Delta where
  addedNodes := first.addedNodes ++ second.addedNodes
  removedNodes := first.removedNodes ++ second.removedNodes
  modifiedNodes := first.modifiedNodes ++ second.modifiedNodes
  addedEdges := first.addedEdges ++ second.addedEdges
  removedEdges := first.removedEdges ++ second.removedEdges
  modifiedEdges := first.modifiedEdges ++ second.modifiedEdges

/-- Every node that was touched, with both ends of every touched edge. -/
def changedNodes (delta : Delta) : IdSet :=
  let nodes := delta.addedNodes ++ delta.removedNodes ++ delta.modifiedNodes
  let edges := delta.addedEdges ++ delta.removedEdges ++ delta.modifiedEdges
  IdSet.ofList (nodes ++ edges.flatMap fun key => [key.source, key.target])

/-- The same record with every list in order. -/
def sorted (delta : Delta) : Delta where
  addedNodes := delta.addedNodes.mergeSort
  removedNodes := delta.removedNodes.mergeSort
  modifiedNodes := delta.modifiedNodes.mergeSort
  addedEdges := delta.addedEdges.mergeSort EdgeKey.before
  removedEdges := delta.removedEdges.mergeSort EdgeKey.before
  modifiedEdges := delta.modifiedEdges.mergeSort EdgeKey.before

theorem mutationCount_merge (first second : Delta) :
    (first.merge second).mutationCount = first.mutationCount + second.mutationCount := by
  simp only [mutationCount, merge, List.length_append]
  omega

end Delta

end CodeGraph
