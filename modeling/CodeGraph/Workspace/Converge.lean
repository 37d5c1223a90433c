import CodeGraph.Workspace.Move

/-!
# Working off a pass

Files that changed are passed on to their importers, whose imports are bound again; a file that
exposes its imports counts as changed once they were bound. When nothing is left to bind, the uses
of every file that may see a difference are linked again and the result is checked.
-/

namespace CodeGraph.Pass

/-- The other files of the package around a path, present or gone. -/
def siblingsOf (pass : Pass) (path : Path) : List Path :=
  let language := ((pass.workspace.file? path).map SourceFile.language).orElse fun _ =>
    pass.removed.get? path
  match language, path.parent? with
  | some language, some directory =>
    if language.sharesPackage then
      ((pass.workspace.packageFiles directory language).map SourceFile.path).filter (· ≠ path)
    else []
  | _, _ => []

/-- Passes a changed file on to those that may see a difference. -/
def spread (pass : Pass) (path : Path) : Pass :=
  let importers := pass.workspace.importersOf path
  { pass with
    bind := PathSet.insertAll importers pass.bind
    link := PathSet.insertAll (importers ++ pass.siblingsOf path) pass.link }

/-- Binds the imports of one file, which then counts as changed if it exposes them. -/
def rebind (pass : Pass) (path : Path) : Except GraphError Pass := do
  let pass := { pass with workspace := ← pass.workspace.bindFile path }
  if (pass.workspace.file? path).any SourceFile.exposesImports then
    return pass.noteChanged path
  else return pass

/-- Passes changes on and binds, in turns, until nothing is left to bind. `propagated` holds the
files passed on so far. -/
def settle : Nat → Pass → PathSet → Except GraphError Pass
  | 0, pass, _ => .ok pass
  | rounds + 1, pass, propagated => do
    let fresh := pass.changed.filter (· ∉ propagated)
    let pass := fresh.foldl spread { pass with changed := [] }
    if pass.bind.isEmpty then return pass
    else
      let pass ← pass.bind.foldlM rebind { pass with bind := [] }
      settle rounds pass (PathSet.insertAll fresh propagated)

/-- After the first round only files present are passed on, each once, and the last round finds
nothing to bind. -/
def enoughRounds (pass : Pass) : Nat :=
  pass.workspace.files.length + 2

/-- What a finished pass made: the next workspace, the record of the changes, and the changes to
make on disk. -/
structure Outcome where
  workspace : Workspace
  delta : Delta
  disk : List DiskChange

def relink (pass : Pass) : Except GraphError Workspace := do
  let workspace ← pass.link.foldlM Workspace.linkFile pass.workspace
  workspace.collectExternals

/-- Finishes the pass. -/
def converge (pass : Pass) : Except SyncError Outcome := do
  let pass ← (settle pass.enoughRounds pass []).mapError SyncError.graph
  let workspace ← pass.relink.mapError SyncError.graph
  workspace.check.mapError SyncError.violated
  let (delta, graph) := workspace.graph.takeJournal
  return ⟨{ workspace with graph, sequence := pass.sequence }, delta, pass.disk⟩

end CodeGraph.Pass
