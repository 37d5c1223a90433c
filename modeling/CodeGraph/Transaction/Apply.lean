import CodeGraph.Transaction.Validate

/-!
# Applying a change

A validated change is one pass over the workspace. The pass is committed when it succeeds and, if
the disk is to follow, when the disk could follow.
-/

namespace CodeGraph

namespace Change

/-- The step of the pass that concerns the changed file itself. -/
def steps (environment : Environment) (pass : Pass) : Change → Except SyncError Pass
  | edit path range text _ =>
    match pass.workspace.file? path with
    | none => .error (.unknownFile path)
    | some file =>
      match Text.splice? file.text range.start range.stop text with
      | none => .error (.unknownFile path)
      | some content => do
        let edit := TextEdit.replace range (Text.size text)
        return (← pass.applyText environment path content [edit]).writeBack (.write path content)
  | add path content => do
    return (← pass.applyText environment path content []).writeBack (.write path content)
  | remove path => do
    return (← pass.remove path).writeBack (.remove path)
  | rename source target => pass.rename environment source target

/-- The whole pass. -/
def run (environment : Environment) (workspace : Workspace) (change : Change) :
    Except SyncError Pass.Outcome := do
  (← change.steps environment (Pass.ofWorkspace workspace)).converge

end Change

/-- What is committed: the workspace, and the disk as the engine knows it. -/
structure Store where
  workspace : Workspace := {}
  disk : Disk := {}

namespace Store

def commitOf (outcome : Pass.Outcome) : Commit where
  sequence := outcome.workspace.sequence
  changed := outcome.delta.changedNodes
  mutations := outcome.delta.mutationCount

/-- Applies a validated change. A rejected one leaves the workspace as it was. -/
def apply (environment : Environment) (store : Store) (change : Change) :
    Store × TransactionResult :=
  match change.run environment store.workspace with
  | .error error => (store, .rejected (.failed error))
  | .ok outcome =>
    let commit := TransactionResult.committed (commitOf outcome)
    if environment.config.writeThrough then
      match store.disk.makeChanges environment.config.root outcome.disk with
      | (disk, some error) => ({ store with disk }, .rejected (.disk error))
      | (disk, none) => (⟨outcome.workspace, disk⟩, commit)
    else ({ store with workspace := outcome.workspace }, commit)

/-- Validates and applies a change that was queued after commit `queuedAt`. -/
def process (environment : Environment) (store : Store) (queuedAt : Nat) (change : Change) :
    Store × TransactionResult :=
  match change.validate environment.config store.workspace queuedAt with
  | .error rejection => (store, .rejected rejection)
  | .ok change => store.apply environment change

/-- Brings a file up to date with its own text. What that changes is published, if anything. -/
def resync (environment : Environment) (store : Store) (path : Path) :
    Except SyncError (Nat × Store) := do
  match (Path.inProject? environment.config.root path).map fun found =>
      (found, store.workspace.file? found) with
  | none => throw (.unknownFile path)
  | some (found, none) => throw (.unknownFile found)
  | some (found, some file) =>
    let pass ← (Pass.ofWorkspace store.workspace).applyText environment found file.text []
    let outcome ← pass.converge
    let mutations := outcome.delta.mutationCount
    if mutations = 0 then return (0, store)
    else return (mutations, { store with workspace := outcome.workspace })

end Store

end CodeGraph
