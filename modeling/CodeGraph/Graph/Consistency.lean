import CodeGraph.Graph.Basic

/-!
# Consistency of a graph

The check made after every pass: edges, lists, parents and bindings name live nodes only, and the
file index agrees with the nodes. Nodes are looked at slot by slot, and the first fault is the one
reported.
-/

namespace CodeGraph.Graph

/-- An entry of an index of files names a node at its path. -/
def checkFile (node? : NodeId → Option Node) (entry : Path × NodeId) : Except GraphError Unit :=
  match node? entry.2 with
  | some node => if node.path.same entry.1 then .ok () else .error (.staleFileIndex entry.1)
  | none => .error (.staleFileIndex entry.1)

/-- A node names live nodes only. -/
def checkNode (contains : NodeId → Bool) (node : Node) : Except GraphError Unit :=
  match node.detail with
  | .file symbols imports _ =>
    match (symbols ++ imports).find? fun id => !contains id with
    | some missing => .error (.removedMember node.path missing)
    | none => .ok ()
  | .symbol (some parent) _ =>
    if contains parent then .ok () else .error (.removedParent node.qualifiedName parent)
  | .symbol none _ => .ok ()
  | .importDecl detail =>
    match detail.binding with
    | .resolved target =>
      if contains target then .ok () else .error (.removedTarget node.id target)
    | .unresolved _ | .external _ => .ok ()
  | .external => .ok ()

def checkEdge (graph : Graph) (edge : Edge) : Except GraphError Unit :=
  if graph.contains edge.source && graph.contains edge.target then .ok ()
  else .error (.danglingEdge edge.key)

def check (graph : Graph) : Except GraphError Unit := do
  graph.edges.forM graph.checkEdge
  graph.files.entries.forM (checkFile graph.node?)
  graph.nodesBySlot.forM (checkNode graph.contains)

end CodeGraph.Graph
