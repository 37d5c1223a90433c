import CodeGraph.Config.Validate
import CodeGraph.Transaction.Queue
import CodeGraph.Workspace.Build

/-!
# The engine

The settings and the parser of a project together with its transactions and what they made.
-/

namespace CodeGraph

structure Engine where
  environment : Environment
  manager : Manager := {}

inductive EngineError where
  | config (error : ConfigError)
  | sync (error : SyncError)
  deriving DecidableEq, Repr

namespace Engine

def config (engine : Engine) : Config :=
  engine.environment.config

/-- The workspace as last committed. -/
def workspace (engine : Engine) : Workspace :=
  engine.manager.store.workspace

/-- An engine without files. -/
def empty (environment : Environment) : Except ConfigError Engine := do
  environment.config.validate
  return { environment }

/-- An engine for a set of sources on a disk. -/
def ofSources (environment : Environment) (sources : List Source) (disk : Disk) :
    Except EngineError Engine := do
  environment.config.validate.mapError EngineError.config
  let workspace ← (Workspace.ofSources environment sources).mapError EngineError.sync
  return { environment, manager := { store := { workspace, disk } } }

def summary (engine : Engine) : String :=
  "Engine \x7b root: " ++ Text.quote engine.config.root.text ++ ", sequence: " ++
    toString engine.workspace.sequence ++ " \x7d"

end Engine

end CodeGraph
