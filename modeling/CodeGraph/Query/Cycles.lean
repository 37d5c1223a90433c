import CodeGraph.Workspace.Basic

/-!
# Import cycles

The elementary cycles of the graph of files, each written from its smallest path.
-/

namespace CodeGraph.Workspace

/-- The files in which the resolved imports of a file land. -/
def importedFiles (workspace : Workspace) (file : SourceFile) : PathSet :=
  PathSet.ofList (file.imports.filterMap fun id => do
    let node ← workspace.graph.node? id
    let target ← node.binding?.bind Binding.target?
    return (← workspace.owner? target).path)

/-- The files with those that each of them imports. -/
def importGraph (workspace : Workspace) : Table Path PathSet :=
  ⟨workspace.files.map fun file => (file.path, workspace.importedFiles file)⟩

/-- The cycles that begin with `trail`, given from its last path back to `start`, and go on through
paths after `start` only. -/
def cyclesFrom (next : Path → PathSet) (start : Path) : Nat → List Path → List (List Path)
  | 0, _ => []
  | _, [] => []
  | steps + 1, current :: trail =>
    (next current).flatMap fun path =>
      if path = start then [(current :: trail).reverse]
      else if start.compare path = .lt && path ∉ current :: trail then
        cyclesFrom next start steps (path :: current :: trail)
      else []

def compareCycles : List Path → List Path → Ordering
  | [], [] => .eq
  | [], _ :: _ => .lt
  | _ :: _, [] => .gt
  | left :: lefts, right :: rights => (left.compare right).then (compareCycles lefts rights)

/-- A cycle visits each file once, so no trail is longer than the workspace. -/
def importCycles (workspace : Workspace) : List (List Path) :=
  let imports := workspace.importGraph
  let found := workspace.paths.flatMap fun start =>
    cyclesFrom (fun path => (imports.get? path).getD []) start (workspace.files.length + 1) [start]
  (found.mergeSort fun left right => compareCycles left right != .gt).eraseReps

end CodeGraph.Workspace
