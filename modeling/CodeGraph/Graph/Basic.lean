import CodeGraph.Graph.Delta
import CodeGraph.Graph.NameIndex
import CodeGraph.Graph.Slots

/-!
# The graph

Nodes and edges with an index of names and an index of files. Ids are given out in increasing order
and never again, and at most one edge joins two nodes in one kind. Nodes are listed by their ids,
and each has a slot of its own, which another node may take once it is gone. A journal, when one is
kept, records every change.
-/

namespace CodeGraph

structure Graph where
  nodes : List Node := []
  slots : Slots NodeId := {}
  edges : List Edge := []
  names : NameIndex := {}
  files : Table Path NodeId := {}
  nextId : NodeId := 1
  journal : Option Delta := none
  deriving DecidableEq, Repr

inductive GraphError where
  | nodeNotFound (id : NodeId)
  | danglingEdge (key : EdgeKey)
  | fileExists (path : Path)
  | staleFileIndex (path : Path)
  | removedMember (path : Path) (id : NodeId)
  | removedParent (qualifiedName : String) (parent : NodeId)
  | removedTarget (id target : NodeId)
  /-- The place of a node holds none. -/
  | emptyNodePlace (id : NodeId)
  /-- The place of an edge holds none. -/
  | emptyEdgePlace (key : EdgeKey)
  | vanished (id : NodeId)
  | wrongPlace (id : NodeId)
  | unindexedEdge (key : EdgeKey)
  | idCount (ids nodes : Nat)
  | edgeCount (keys edges : Nat)
  deriving DecidableEq, Repr

def GraphError.message : GraphError → String
  | nodeNotFound id => "node #" ++ toString id ++ " does not exist"
  | danglingEdge key => "edge " ++ key.text ++ " references a missing node"
  | fileExists path =>
    "invalid graph operation: file " ++ path.display ++ " is already in the graph"
  | staleFileIndex path =>
    "index out of sync: path index for " ++ path.display ++ " is stale"
  | removedMember path id =>
    "invalid graph operation: " ++ path.display ++ " lists removed node #" ++ toString id
  | removedParent qualifiedName parent =>
    "invalid graph operation: " ++ qualifiedName ++ " has removed parent #" ++ toString parent
  | removedTarget id target =>
    "invalid graph operation: import #" ++ toString id ++ " is bound to removed node #" ++
      toString target
  | emptyNodePlace id => "index out of sync: #" ++ toString id ++ " has no weight"
  | emptyEdgePlace key => "index out of sync: " ++ key.text ++ " has no weight"
  | vanished id => "index out of sync: #" ++ toString id ++ " vanished during removal"
  | wrongPlace id => "index out of sync: #" ++ toString id ++ " points at the wrong slot"
  | unindexedEdge key => "index out of sync: " ++ key.text ++ " is not indexed"
  | idCount ids nodes =>
    "index out of sync: " ++ toString ids ++ " ids for " ++ toString nodes ++ " nodes"
  | edgeCount keys edges =>
    "index out of sync: " ++ toString keys ++ " edge keys for " ++ toString edges ++ " edges"

namespace Graph

def empty : Graph := {}

def node? (graph : Graph) (id : NodeId) : Option Node :=
  graph.nodes.find? fun node => node.id = id

def contains (graph : Graph) (id : NodeId) : Bool :=
  (graph.node? id).isSome

/-- The nodes in the order of their slots. -/
def nodesBySlot (graph : Graph) : List Node :=
  graph.slots.toList.filterMap graph.node?

def edge? (graph : Graph) (key : EdgeKey) : Option Edge :=
  graph.edges.find? fun edge => edge.key = key

def hasEdge (graph : Graph) (key : EdgeKey) : Bool :=
  (graph.edge? key).isSome

def fileNode? (graph : Graph) (path : Path) : Option NodeId :=
  graph.files.get? path.tidy

def edgesFrom (graph : Graph) (source : NodeId) : List Edge :=
  graph.edges.filter fun edge => edge.source = source

def edgesTo (graph : Graph) (target : NodeId) : List Edge :=
  graph.edges.filter fun edge => edge.target = target

def nodesOfKind (graph : Graph) (kind : NodeKind) : List Node :=
  graph.nodes.filter fun node => node.kind = kind

def named (graph : Graph) (name : String) : List NodeId :=
  graph.names.lookup name

def sortedEdges (edges : List Edge) : List Edge :=
  edges.mergeSort fun left right => left.key.before right.key

def summary (graph : Graph) : String :=
  "Graph \x7b node_count: " ++ toString graph.nodes.length ++ ", edge_count: " ++
    toString graph.edges.length ++ ", next_id: " ++ toString graph.nextId ++ " \x7d"

/-! ### The journal -/

def beginJournal (graph : Graph) : Graph :=
  { graph with journal := some {} }

/-- What was recorded since the journal began, and the graph without a journal. -/
def takeJournal (graph : Graph) : Delta × Graph :=
  (graph.journal.getD {}, { graph with journal := none })

def record (graph : Graph) (entry : Delta) : Graph :=
  { graph with journal := graph.journal.map fun delta => delta.merge entry }

/-! ### Nodes -/

/-- Adds a node under the next id, whatever id it came with. -/
def insertNode (graph : Graph) (node : Node) : Except GraphError (NodeId × Graph) :=
  if node.kind = .file ∧ graph.files.contains node.path.tidy then
    .error (.fileExists node.path)
  else
    let id := graph.nextId
    let names := match node.name with
      | some name => graph.names.insert name id
      | none => graph.names
    let files := if node.kind = .file then graph.files.put node.path.tidy id else graph.files
    let nodes := graph.nodes ++ [{ node with id }]
    let slots := graph.slots.insert id
    .ok (id, ({ graph with nodes, slots, names, files, nextId := id + 1 }).record
      { addedNodes := [id] })

def setNode (graph : Graph) (node : Node) : Graph :=
  { graph with nodes := graph.nodes.map fun old => if old.id = node.id then node else old }

def renameNode (graph : Graph) (id : NodeId) (old new : Option String) : Graph :=
  if old = new then graph
  else
    let names := match old with
      | some name => graph.names.remove name id
      | none => graph.names
    { graph with names := match new with
      | some name => names.insert name id
      | none => names }

/-- Changes a node in place; its id and kind stay. The answer tells whether anything changed, and
only then is the change recorded. A file that would take another file's path is refused, but only
after the node itself has changed. -/
def updateNode (graph : Graph) (id : NodeId) (change : Node → Node) :
    Graph × Except GraphError Bool :=
  match graph.node? id with
  | none => (graph, .error (.nodeNotFound id))
  | some before =>
    let after := { change before with id, kind := before.kind }
    let graph := graph.setNode after
    if after.same before then (graph, .ok false)
    else
      let graph := graph.renameNode id before.name after.name
      if before.kind = .file ∧ ¬ before.path.same after.path then
        if graph.files.contains after.path.tidy then (graph, .error (.fileExists after.path))
        else
          let files := (graph.files.erase before.path.tidy).put after.path.tidy id
          (({ graph with files }).record { modifiedNodes := [id] }, .ok true)
      else (graph.record { modifiedNodes := [id] }, .ok true)

/-- The change alone, for changes that keep the path and so cannot be refused. -/
def modifyNode (graph : Graph) (id : NodeId) (change : Node → Node) : Graph :=
  (graph.updateNode id change).1

/-! ### Removal -/

/-- What goes when the node goes: the nodes a file lists and the symbols a symbol contains. -/
def owned (graph : Graph) (node : Node) : List NodeId :=
  node.listed ++
    ((graph.edgesFrom node.id).filter fun edge => edge.kind = .contains).map Edge.target

/-- The imports that stand for the node. -/
def boundTo (graph : Graph) (id : NodeId) : List NodeId :=
  ((graph.edgesTo id).filter fun edge => edge.kind = .imports).map Edge.source
    |>.filter fun source =>
      ((graph.node? source).bind Node.binding?).bind Binding.target? = some id

/-- Unbinds the imports that stand for the node. -/
def unbind (graph : Graph) (node : Node) : Graph :=
  let reason := node.shownName ++ " was removed"
  (graph.boundTo node.id).foldl
    (fun graph id => graph.modifyNode id fun source => source.rebind (.unresolved reason)) graph

/-- Takes the node off the lists of its file. This fails where the file index is stale and names a
file that is gone. -/
def unlist (graph : Graph) (node : Node) : Graph × Except GraphError Unit :=
  match if node.kind = .file then none else graph.fileNode? node.path with
  | none => (graph, .ok ())
  | some file =>
    if file = node.id then (graph, .ok ())
    else
      let (graph, outcome) := graph.updateNode file fun owner => owner.unlist node.id
      (graph, outcome.map fun _ => ())

/-- Drops the node with every edge at either end of it. -/
def discard (graph : Graph) (node : Node) : Graph :=
  let touching := (graph.edgesFrom node.id ++ graph.edgesTo node.id).map Edge.key
  let nodes := graph.nodes.filter fun other => other.id ≠ node.id
  let edges := graph.edges.filter fun edge => !edge.touches node.id
  let names := match node.name with
    | some name => graph.names.remove name node.id
    | none => graph.names
  let files := if node.kind = .file then graph.files.erase node.path.tidy else graph.files
  let slots := graph.slots.erase node.id
  ({ graph with nodes, slots, edges, names, files }).record
    { removedEdges := touching, removedNodes := [node.id] }

/-- Goes through the live nodes of a list until a removal fails. -/
def removeEach (remove : Graph → NodeId → Graph × Except GraphError Node) :
    List NodeId → Graph → Graph × Except GraphError Unit
  | [], graph => (graph, .ok ())
  | id :: rest, graph =>
    if graph.contains id then
      match remove graph id with
      | (graph, .ok _) => removeEach remove rest graph
      | (graph, .error error) => (graph, .error error)
    else removeEach remove rest graph

/-- Removes a node once everything it owned is gone. -/
def removeLast (graph : Graph) (node : Node) : Graph × Except GraphError Node :=
  match (graph.unbind node).unlist node with
  | (graph, .error error) => (graph, .error error)
  | (graph, .ok ()) =>
    match graph.node? node.id with
    | none => (graph, .error (.nodeNotFound node.id))
    | some last => (graph.discard last, .ok last)

def removeWithin : Nat → Graph → NodeId → Graph × Except GraphError Node
  | 0, graph, id => (graph, .error (.nodeNotFound id))
  | depth + 1, graph, id =>
    match graph.node? id with
    | none => (graph, .error (.nodeNotFound id))
    | some node =>
      match removeEach (removeWithin depth) (graph.owned node) graph with
      | (graph, .error error) => (graph, .error error)
      | (graph, .ok ()) => graph.removeLast node

/-- Removes a node after everything it owns, and answers the node as it was last. Ownership is never
deeper than the number of nodes. -/
def removeNode (graph : Graph) (id : NodeId) : Graph × Except GraphError Node :=
  removeWithin graph.nodes.length graph id

/-! ### Edges -/

/-- Adds an edge or replaces the one with its key; the answer tells whether anything changed. -/
def insertEdge (graph : Graph) (edge : Edge) : Except GraphError (Bool × Graph) :=
  if ¬ graph.contains edge.source ∨ ¬ graph.contains edge.target then
    .error (.danglingEdge edge.key)
  else match graph.edge? edge.key with
    | some old =>
      if old.same edge then .ok (false, graph)
      else
        let edges := graph.edges.map fun other => if other.key = edge.key then edge else other
        .ok (true, ({ graph with edges }).record { modifiedEdges := [edge.key] })
    | none =>
      .ok (true, ({ graph with edges := edge :: graph.edges }).record { addedEdges := [edge.key] })

def removeEdge (graph : Graph) (key : EdgeKey) : Option Edge × Graph :=
  match graph.edge? key with
  | none => (none, graph)
  | some edge =>
    let edges := graph.edges.filter fun other => other.key ≠ key
    (some edge, ({ graph with edges }).record { removedEdges := [key] })

end Graph

end CodeGraph
