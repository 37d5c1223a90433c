import CodeGraph.Graph.Arena
import CodeGraph.Graph.Consistency

/-!
# Graphs as they are stored

Nodes and edges are stored in places that are taken again, so no place is ever handed out: an index
leads from an id to the place of its node, another from a key to the place of its edge. Every change
keeps the two in step with what is stored. Where an index leads to a place that is vacant or holds
something else, that is an error of its own.
-/

namespace CodeGraph

structure StoredGraph where
  arena : Arena := {}
  /-- The place of every node. -/
  ids : Table NodeId Nat := {}
  /-- The place of every edge. -/
  edges : Table EdgeKey Nat := {}
  names : NameIndex := {}
  files : Table Path NodeId := {}
  nextId : NodeId := 1
  journal : Option Delta := none
  deriving DecidableEq, Repr

namespace StoredGraph

def empty : StoredGraph := {}

/-! ### Reading -/

def node? (stored : StoredGraph) (id : NodeId) : Option Node :=
  (stored.ids.get? id).bind stored.arena.node?

def contains (stored : StoredGraph) (id : NodeId) : Bool :=
  stored.ids.contains id

def edge? (stored : StoredGraph) (key : EdgeKey) : Option Edge :=
  (stored.edges.get? key).bind stored.arena.edge?

def hasEdge (stored : StoredGraph) (key : EdgeKey) : Bool :=
  stored.edges.contains key

def fileNode? (stored : StoredGraph) (path : Path) : Option NodeId :=
  stored.files.get? path.tidy

def edgesFrom (stored : StoredGraph) (source : NodeId) : List Edge :=
  (stored.ids.get? source).elim [] stored.arena.edgesFrom

def edgesTo (stored : StoredGraph) (target : NodeId) : List Edge :=
  (stored.ids.get? target).elim [] stored.arena.edgesTo

def nodesOfKind (stored : StoredGraph) (kind : NodeKind) : List Node :=
  stored.arena.nodes.filter fun node => node.kind = kind

def named (stored : StoredGraph) (name : String) : List NodeId :=
  stored.names.lookup name

def summary (stored : StoredGraph) : String :=
  "Graph \x7b node_count: " ++ toString stored.arena.cells.size ++ ", edge_count: " ++
    toString stored.arena.links.size ++ ", next_id: " ++ toString stored.nextId ++ " \x7d"

/-! ### The journal -/

def beginJournal (stored : StoredGraph) : StoredGraph :=
  { stored with journal := some {} }

def takeJournal (stored : StoredGraph) : StoredGraph × Delta :=
  ({ stored with journal := none }, stored.journal.getD {})

def record (stored : StoredGraph) (entry : Delta) : StoredGraph :=
  { stored with journal := stored.journal.map fun delta => delta.merge entry }

/-! ### Nodes -/

/-- Adds a node under the next id, whatever id it came with. -/
def insertNode (stored : StoredGraph) (node : Node) : StoredGraph × Except GraphError NodeId :=
  if node.kind = .file ∧ stored.files.contains node.path.tidy then
    (stored, .error (.fileExists node.path))
  else
    let id := stored.nextId
    let names := stored.names.insertSome node.name id
    let files := if node.kind = .file then stored.files.put node.path.tidy id else stored.files
    let (place, arena) := stored.arena.addNode { node with id }
    let ids := stored.ids.put id place
    (({ stored with arena, ids, names, files, nextId := id + 1 }).record { addedNodes := [id] },
      .ok id)

/-- Changes a node in place; its id and kind stay. The answer tells whether anything changed, and
only then is the change recorded. A file that would take another file's path is refused, but only
after the node itself has changed. -/
def updateNode (stored : StoredGraph) (id : NodeId) (change : Node → Node) :
    StoredGraph × Except GraphError Bool :=
  match stored.ids.get? id with
  | none => (stored, .error (.nodeNotFound id))
  | some place =>
    match stored.arena.node? place with
    | none => (stored, .error (.emptyNodePlace id))
    | some before =>
      let after := { change before with id, kind := before.kind }
      let stored := { stored with arena := stored.arena.setNode place after }
      if after.same before then (stored, .ok false)
      else
        let stored := { stored with names := stored.names.rename id before.name after.name }
        if before.kind = .file ∧ ¬ before.path.same after.path then
          if stored.files.contains after.path.tidy then
            (stored, .error (.fileExists after.path))
          else
            let files := (stored.files.erase before.path.tidy).put after.path.tidy id
            (({ stored with files }).record { modifiedNodes := [id] }, .ok true)
        else (stored.record { modifiedNodes := [id] }, .ok true)

/-! ### Removal -/

/-- What goes when the node goes: the nodes a file lists and the symbols a symbol contains. -/
def owned (stored : StoredGraph) (node : Node) : List NodeId :=
  node.listed ++
    ((stored.edgesFrom node.id).filter fun edge => edge.kind = .contains).map Edge.target

/-- The imports that stand for the node. -/
def boundTo (stored : StoredGraph) (id : NodeId) : List NodeId :=
  ((stored.edgesTo id).filter fun edge => edge.kind = .imports).map Edge.source
    |>.filter fun source =>
      ((stored.node? source).bind Node.binding?).bind Binding.target? = some id

/-- Changes nodes one by one until a change fails. -/
def updateEach (change : Node → Node) :
    List NodeId → StoredGraph → StoredGraph × Except GraphError Unit
  | [], stored => (stored, .ok ())
  | id :: rest, stored =>
    match stored.updateNode id change with
    | (stored, .ok _) => updateEach change rest stored
    | (stored, .error error) => (stored, .error error)

/-- Unbinds the imports that stand for the node. -/
def unbind (stored : StoredGraph) (node : Node) : StoredGraph × Except GraphError Unit :=
  let reason := node.shownName ++ " was removed"
  updateEach (fun source => source.rebind (.unresolved reason)) (stored.boundTo node.id) stored

/-- Takes the node off the lists of its file. -/
def unlist (stored : StoredGraph) (node : Node) : StoredGraph × Except GraphError Unit :=
  match if node.kind = .file then none else stored.fileNode? node.path with
  | none => (stored, .ok ())
  | some file =>
    if file = node.id then (stored, .ok ())
    else
      let (stored, outcome) := stored.updateNode file fun owner => owner.unlist node.id
      (stored, outcome.map fun _ => ())

/-- The keys of the edges at either end of the node in a place. -/
def touching (stored : StoredGraph) (place : Nat) : List EdgeKey :=
  (stored.arena.edgesFrom place ++ stored.arena.edgesTo place).map Edge.key

/-- Drops the keys of edges from their index. -/
def forget (stored : StoredGraph) (keys : List EdgeKey) : StoredGraph :=
  keys.foldl (fun stored key =>
    ({ stored with edges := stored.edges.erase key }).record { removedEdges := [key] }) stored

/-- Drops a node with every edge at either end of it: first from the indices, then from the arena,
then from the names and the files. -/
def discard (stored : StoredGraph) (id : NodeId) : StoredGraph × Except GraphError Node :=
  match stored.ids.get? id with
  | none => (stored, .error (.nodeNotFound id))
  | some place =>
    let stored := stored.forget (stored.touching place)
    let stored := { stored with ids := stored.ids.erase id }
    match stored.arena.removeNode place with
    | (none, _) => (stored, .error (.vanished id))
    | (some node, arena) =>
      let names := stored.names.removeSome node.name id
      let files := if node.kind = .file then stored.files.erase node.path.tidy else stored.files
      (({ stored with arena, names, files }).record { removedNodes := [id] }, .ok node)

/-- Goes through the live nodes of a list until a removal fails. -/
def removeEach (remove : StoredGraph → NodeId → StoredGraph × Except GraphError Node) :
    List NodeId → StoredGraph → StoredGraph × Except GraphError Unit
  | [], stored => (stored, .ok ())
  | id :: rest, stored =>
    if stored.contains id then
      match remove stored id with
      | (stored, .ok _) => removeEach remove rest stored
      | (stored, .error error) => (stored, .error error)
    else removeEach remove rest stored

/-- Removes a node once everything it owned is gone. -/
def removeLast (stored : StoredGraph) (node : Node) : StoredGraph × Except GraphError Node :=
  match stored.unbind node with
  | (stored, .error error) => (stored, .error error)
  | (stored, .ok ()) =>
    match stored.unlist node with
    | (stored, .error error) => (stored, .error error)
    | (stored, .ok ()) => stored.discard node.id

def removeWithin : Nat → StoredGraph → NodeId → StoredGraph × Except GraphError Node
  | 0, stored, id => (stored, .error (.nodeNotFound id))
  | depth + 1, stored, id =>
    match stored.node? id with
    | none => (stored, .error (.nodeNotFound id))
    | some node =>
      match removeEach (removeWithin depth) (stored.owned node) stored with
      | (stored, .error error) => (stored, .error error)
      | (stored, .ok ()) => stored.removeLast node

/-- Removes a node after everything it owns, and answers the node as it was last. -/
def removeNode (stored : StoredGraph) (id : NodeId) : StoredGraph × Except GraphError Node :=
  removeWithin stored.arena.cells.size stored id

/-! ### Edges -/

/-- Adds an edge or replaces the one with its key; the answer tells whether anything changed. -/
def insertEdge (stored : StoredGraph) (edge : Edge) : StoredGraph × Except GraphError Bool :=
  match stored.ids.get? edge.source, stored.ids.get? edge.target with
  | some source, some target =>
    match stored.edges.get? edge.key with
    | some place =>
      match stored.arena.edge? place with
      | none => (stored, .error (.emptyEdgePlace edge.key))
      | some old =>
        if old.same edge then (stored, .ok false)
        else
          (({ stored with arena := stored.arena.setEdge place edge }).record
            { modifiedEdges := [edge.key] }, .ok true)
    | none =>
      let (place, arena) := stored.arena.addEdge source target edge
      (({ stored with arena, edges := stored.edges.put edge.key place }).record
        { addedEdges := [edge.key] }, .ok true)
  | _, _ => (stored, .error (.danglingEdge edge.key))

def removeEdge (stored : StoredGraph) (key : EdgeKey) : StoredGraph × Option Edge :=
  match stored.edges.get? key with
  | none => (stored, none)
  | some place =>
    let stored := { stored with edges := stored.edges.erase key }
    match stored.arena.removeEdge place with
    | (none, _) => (stored, none)
    | (some edge, arena) => (({ stored with arena }).record { removedEdges := [key] }, some edge)

/-! ### Consistency -/

def checkId (stored : StoredGraph) (entry : NodeId × Nat) : Except GraphError Unit :=
  match stored.arena.node? entry.2 with
  | some node => if node.id = entry.1 then .ok () else .error (.wrongPlace entry.1)
  | none => .error (.wrongPlace entry.1)

def checkEdge (stored : StoredGraph) (edge : Edge) : Except GraphError Unit :=
  if !stored.contains edge.source || !stored.contains edge.target then
    .error (.danglingEdge edge.key)
  else if stored.hasEdge edge.key then .ok ()
  else .error (.unindexedEdge edge.key)

/-- The two indices lead to what is stored and to nothing else, and edges join live nodes. -/
def checkIndices (stored : StoredGraph) : Except GraphError Unit := do
  if stored.ids.size ≠ stored.arena.cells.size then
    throw (.idCount stored.ids.size stored.arena.cells.size)
  if stored.edges.size ≠ stored.arena.links.size then
    throw (.edgeCount stored.edges.size stored.arena.links.size)
  stored.ids.entries.forM stored.checkId
  stored.arena.edges.forM stored.checkEdge

/-- Checks the indices, then the files and the nodes as `Graph.check` does. -/
def check (stored : StoredGraph) : Except GraphError Unit := do
  stored.checkIndices
  stored.files.entries.forM (Graph.checkFile stored.node?)
  stored.arena.nodes.forM (Graph.checkNode stored.contains)

end StoredGraph

end CodeGraph
