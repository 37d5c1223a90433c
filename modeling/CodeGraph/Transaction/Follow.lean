import CodeGraph.Transaction.Basic

/-!
# Following the disk

When a file changes on disk behind the engine's back, a transaction brings the workspace in line.
-/

namespace CodeGraph.Workspace

/-- The change that brings a file in line with its content on disk, or with its absence there; none
when nothing has to change. -/
def changeToFollow? (workspace : Workspace) (path : Path) (content : Option String) :
    Option Change :=
  match workspace.file? path.tidy, content with
  | none, none => none
  | none, some content => some (.add path content)
  | some _, none => some (.remove path)
  | some file, some content =>
    if file.text = content then none
    else some (.edit path ⟨0, Text.size file.text⟩ content (some workspace.sequence))

end CodeGraph.Workspace
