import CodeGraph.Workspace.Resolve

/-!
# Binding imports

Every import of a file gets the binding that its resolution gives, and one edge to the node that the
binding stands for. Modules outside the project have one node for each language and name, as long as
something imports them.
-/

namespace CodeGraph

/-- A node that stands for a module outside the project. -/
def Node.ofExternal (language : Language) (name : String) : Node where
  id := 0
  kind := .external
  name := some name
  qualifiedName := name
  path := ⟨""⟩
  range := default
  language := language
  detail := .external

namespace Graph

/-- The update, which has to find the node and meet no path conflict. -/
def update (graph : Graph) (id : NodeId) (change : Node → Node) : Except GraphError Graph :=
  match graph.updateNode id change with
  | (graph, .ok _) => .ok graph
  | (_, .error error) => .error error

def insertEdges (graph : Graph) (edges : List Edge) : Except GraphError Graph :=
  edges.foldlM (fun graph edge => return (← graph.insertEdge edge).2) graph

def removeEdges (graph : Graph) (keys : List EdgeKey) : Graph :=
  keys.foldl (fun graph key => (graph.removeEdge key).2) graph

def remove (graph : Graph) (id : NodeId) : Except GraphError Graph :=
  match graph.removeNode id with
  | (graph, .ok _) => .ok graph
  | (_, .error error) => .error error

end Graph

namespace Workspace

/-- The node of an outside module, made when there is none yet. -/
def externalNode (workspace : Workspace) (language : Language) (name : String) :
    Except GraphError (NodeId × Workspace) :=
  match workspace.externals.get? (language, name) with
  | some id => .ok (id, workspace)
  | none => do
    let (id, graph) ← workspace.graph.insertNode (Node.ofExternal language name)
    return (id, { workspace with
      graph, externals := workspace.externals.put (language, name) id })

/-- The order of outside modules: by language, and by name within a language. -/
def externalBefore (left right : (Language × String) × NodeId) : Bool :=
  left.1.1.rank < right.1.1.rank ||
    (left.1.1.rank = right.1.1.rank && Text.compare left.1.2 right.1.2 != .gt)

/-- The outside modules that nothing imports. -/
def unusedExternals (workspace : Workspace) : List ((Language × String) × NodeId) :=
  (workspace.externals.entries.filter fun (_, id) =>
    (workspace.graph.edgesTo id).isEmpty).mergeSort externalBefore

/-- Removes the nodes of outside modules that nothing imports any more, in order. -/
def collectExternals (workspace : Workspace) : Except GraphError Workspace :=
  workspace.unusedExternals.foldlM (fun workspace (key, id) => do
    let graph ← workspace.graph.remove id
    return { workspace with graph, externals := workspace.externals.erase key }) workspace

/-- The node a binding stands for. -/
def bindingNode (workspace : Workspace) (language : Language) :
    Binding → Except GraphError (Option NodeId × Workspace)
  | .resolved target => .ok (some target, workspace)
  | .unresolved _ => .ok (none, workspace)
  | .external name => do
    let (id, workspace) ← workspace.externalNode language name
    return (some id, workspace)

/-- The import edges that leave an import for another node than the wanted one. -/
def strayEdges (graph : Graph) (id : NodeId) (target : Option NodeId) : List EdgeKey :=
  ((graph.edgesFrom id).filter fun edge =>
    edge.kind = .imports && some edge.target ≠ target).map Edge.key

/-- Gives an import its binding and the edge that goes with it. -/
def bindImport (language : Language) (workspace : Workspace) (id : NodeId) (binding : Binding) :
    Except GraphError Workspace := do
  let (target, workspace) ← workspace.bindingNode language binding
  let graph ← workspace.graph.update id fun node => node.rebind binding
  let graph := graph.removeEdges (strayEdges graph id target)
  let edges := target.toList.map fun target => Edge.structural id target .imports
  return { workspace with graph := ← graph.insertEdges edges }

/-- What each import of a file stands for now. -/
def resolutions (workspace : Workspace) (file : SourceFile) : List (NodeId × Binding) :=
  (file.imports.zip (file.facts.imports.zip file.plans)).map fun (id, fact, plan) =>
    (id, workspace.resolveImport file.language fact plan)

/-- Binds every import of the file at the path, if there is one. -/
def bindFile (workspace : Workspace) (path : Path) : Except GraphError Workspace :=
  match workspace.file? path with
  | none => .ok workspace
  | some file =>
    (workspace.resolutions file).foldlM
      (fun workspace (id, binding) => bindImport file.language workspace id binding) workspace

end Workspace

end CodeGraph
