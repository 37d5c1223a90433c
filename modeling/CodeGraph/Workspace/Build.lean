import CodeGraph.Workspace.Converge

/-!
# Building a workspace

A workspace made from a set of sources in one pass.
-/

namespace CodeGraph

structure Source where
  path : Path
  text : String
  deriving DecidableEq, Repr

namespace Workspace

/-- The sources that make up the project: at a path inside it, in a supported language, in path
order, and of several at one path the first. -/
def chosenSources (config : Config) (sources : List Source) : List Source :=
  let inside := sources.filterMap fun source =>
    (Path.inProject? config.root source.path).map fun path => { source with path }
  let supported := inside.filter fun source => (Language.ofPath source.path).isSupported
  (supported.mergeSort fun left right => left.path.le right.path).foldr
    (fun head rest => head :: rest.dropWhile fun next => next.path = head.path) []

def ofSources (environment : Environment) (sources : List Source) :
    Except SyncError Workspace := do
  let pass ← (chosenSources environment.config sources).foldlM
    (fun pass source => pass.applyText environment source.path source.text [])
    (Pass.ofWorkspace .empty)
  return (← pass.converge).workspace

end Workspace

end CodeGraph
