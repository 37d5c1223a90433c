import CodeGraph.Graph.Edge
import CodeGraph.Graph.Slots

/-!
# Arenas

Where the nodes and the edges of a graph are stored. Both are known by their places, which are taken
again once they are vacant. Every node keeps the places of the edges at either end of it, the newest
first. What an arena is asked about a vacant place it answers with nothing.
-/

namespace CodeGraph

/-- A stored node with the places of the edges that leave it and of those that enter it. -/
structure Cell where
  node : Node
  leaving : List Nat := []
  entering : List Nat := []
  deriving DecidableEq, Repr

/-- A stored edge with the places of the nodes that it joins. -/
structure Link where
  source : Nat
  target : Nat
  edge : Edge
  deriving DecidableEq, Repr

namespace Cell

def setNode (cell : Cell) (node : Node) : Cell :=
  { cell with node }

def leave (cell : Cell) (place : Nat) : Cell :=
  { cell with leaving := place :: cell.leaving }

def enter (cell : Cell) (place : Nat) : Cell :=
  { cell with entering := place :: cell.entering }

/-- The cell without the edge at that place. -/
def unlink (cell : Cell) (place : Nat) : Cell :=
  { cell with
    leaving := cell.leaving.filter (· ≠ place)
    entering := cell.entering.filter (· ≠ place) }

end Cell

structure Arena where
  cells : Slots Cell := {}
  links : Slots Link := {}
  deriving DecidableEq, Repr

namespace Arena

def node? (arena : Arena) (place : Nat) : Option Node :=
  (arena.cells.get? place).map Cell.node

def edge? (arena : Arena) (place : Nat) : Option Edge :=
  (arena.links.get? place).map Link.edge

/-- The nodes in the order of their places. -/
def nodes (arena : Arena) : List Node :=
  arena.cells.toList.map Cell.node

/-- The edges in the order of their places. -/
def edges (arena : Arena) : List Edge :=
  arena.links.toList.map Link.edge

/-- The places on a list of the node at that place, if there is a node. -/
def listAt (arena : Arena) (list : Cell → List Nat) (place : Nat) : Option (List Nat) :=
  (arena.cells.get? place).map list

/-- The edges on a list of the node at that place. -/
def edgesAt (arena : Arena) (list : Cell → List Nat) (place : Nat) : List Edge :=
  ((arena.listAt list place).getD []).filterMap arena.edge?

/-- The edges that leave the node at that place, the newest first. -/
def edgesFrom (arena : Arena) (place : Nat) : List Edge :=
  arena.edgesAt Cell.leaving place

/-- The edges that enter the node at that place, the newest first. -/
def edgesTo (arena : Arena) (place : Nat) : List Edge :=
  arena.edgesAt Cell.entering place

/-- Stores a node and answers its place. -/
def addNode (arena : Arena) (node : Node) : Nat × Arena :=
  (arena.cells.next, { arena with cells := arena.cells.insert { node } })

def setNode (arena : Arena) (place : Nat) (node : Node) : Arena :=
  { arena with cells := arena.cells.modify place fun cell => cell.setNode node }

/-- Stores an edge between the nodes at two places and answers its own place. -/
def addEdge (arena : Arena) (source target : Nat) (edge : Edge) : Nat × Arena :=
  let place := arena.links.next
  let cells := (arena.cells.modify source fun cell => cell.leave place).modify target
    fun cell => cell.enter place
  (place, ⟨cells, arena.links.insert ⟨source, target, edge⟩⟩)

def setEdge (arena : Arena) (place : Nat) (edge : Edge) : Arena :=
  { arena with links := arena.links.modify place fun link => { link with edge } }

/-- Takes an edge out of its place and off the lists of the nodes that it joined. -/
def removeEdge (arena : Arena) (place : Nat) : Option Edge × Arena :=
  match arena.links.get? place with
  | none => (none, arena)
  | some link =>
    let cells := (arena.cells.modify link.source fun cell => cell.unlink place).modify link.target
      fun cell => cell.unlink place
    (some link.edge, ⟨cells, arena.links.vacate place⟩)

def removeEdges (arena : Arena) (places : List Nat) : Arena :=
  places.foldl (fun arena place => (arena.removeEdge place).2) arena

/-- Takes a node out of its place, after the edges that leave it and those that enter it. -/
def removeNode (arena : Arena) (place : Nat) : Option Node × Arena :=
  match arena.cells.get? place with
  | none => (none, arena)
  | some cell =>
    let arena := arena.removeEdges cell.leaving
    let arena := match arena.cells.get? place with
      | none => arena
      | some cell => arena.removeEdges cell.entering
    (some cell.node, { arena with cells := arena.cells.vacate place })

end Arena

end CodeGraph
