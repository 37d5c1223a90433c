import CodeGraph.Workspace.Basic

/-!
# Consistency of a workspace

The check made before a pass is committed: the graph is consistent, every file has its node, owns
the nodes it lists, and no import points to two places.
-/

namespace CodeGraph

inductive Violation where
  | graph (error : GraphError)
  | unmatchedFile (path : Path)
  | lostNode (path : Path) (id : NodeId)
  | manyTargets (path : Path) (id : NodeId) (count : Nat)
  | fileCount
  deriving DecidableEq, Repr

def Violation.message : Violation → String
  | graph error => error.message
  | unmatchedFile path => path.display ++ " has no matching file node"
  | lostNode path id => path.display ++ " lost node #" ++ toString id
  | manyTargets path id count =>
    "import #" ++ toString id ++ " in " ++ path.display ++ " has " ++ toString count ++ " targets"
  | fileCount => "file nodes and sources disagree"

namespace Workspace

def ownsNode (workspace : Workspace) (file : SourceFile) (id : NodeId) : Bool :=
  (workspace.graph.node? id).any fun node => node.path = file.path

def targetCount (workspace : Workspace) (id : NodeId) : Nat :=
  ((workspace.graph.edgesFrom id).filter fun edge => edge.kind = .imports).length

def checkFile (workspace : Workspace) (file : SourceFile) : Except Violation Unit := do
  if workspace.graph.fileNode? file.path ≠ some file.node then
    throw (.unmatchedFile file.path)
  let listed := file.symbols ++ file.imports
  if let some lost := listed.find? fun id => !workspace.ownsNode file id then
    throw (.lostNode file.path lost)
  if let some id := file.imports.find? fun id => 1 < workspace.targetCount id then
    throw (.manyTargets file.path id (workspace.targetCount id))

def check (workspace : Workspace) : Except Violation Unit := do
  workspace.graph.check.mapError Violation.graph
  workspace.files.forM workspace.checkFile
  if (workspace.graph.nodesOfKind .file).length ≠ workspace.files.length then
    throw .fileCount

end Workspace

end CodeGraph
