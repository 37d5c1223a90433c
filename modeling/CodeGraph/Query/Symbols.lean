import CodeGraph.Workspace.Basic

/-!
# Looking up symbols

Symbols by name, the uses of a symbol, and the imports of a file.
-/

namespace CodeGraph

/-- Where to look for a name. -/
inductive SearchScope where
  | file (path : Path)
  | directory (path : Path)
  | language (language : Language)
  | within (parent : NodeId)
  deriving DecidableEq, Repr

def SearchScope.admits (node : Node) : SearchScope → Bool
  | file path => node.path.same path
  | directory path => node.path.startsWith path
  | language wanted => node.language = wanted
  | within parent => node.parent? = some parent

/-- One use of a symbol. -/
structure Usage where
  user : NodeId
  evidence : Evidence
  confidence : Confidence
  deriving DecidableEq, Repr

def Usage.isDynamic (usage : Usage) : Bool :=
  usage.evidence = .dynamic

namespace Workspace

/-- The file a caller means, however the path is spelled. -/
def source? (workspace : Workspace) (path : Path) : Option SourceFile :=
  workspace.file? path.tidy

def fileNode? (workspace : Workspace) (path : Path) : Option Node := do
  workspace.graph.node? (← workspace.graph.fileNode? path)

def symbolWithId? (workspace : Workspace) (id : NodeId) : Option Node :=
  (workspace.graph.node? id).filter fun node => node.kind.isSymbol

/-- The symbols of a name, in the order of their ids. -/
def findByName (workspace : Workspace) (name : String) (scope : Option SearchScope) : List Node :=
  ((workspace.graph.named name).filterMap workspace.symbolWithId?).filter fun node =>
    scope.all (·.admits node)

/-- The references to a node, in the order of their users. -/
def usagesOf (workspace : Workspace) (id : NodeId) : List Usage :=
  let uses := (workspace.graph.edgesTo id).filter fun edge => edge.kind = .references
  (uses.map fun edge => Usage.mk edge.source edge.evidence edge.confidence).mergeSort
    fun left right => left.user ≤ right.user

/-- Whether nothing uses a symbol, inside the project or, being exported, outside. -/
def isDead? (workspace : Workspace) (id : NodeId) : Option Bool :=
  (workspace.symbolWithId? id).map fun node =>
    !node.isExported && (workspace.usagesOf id).isEmpty

def importDetail? (workspace : Workspace) (id : NodeId) : Option ImportDetail := do
  match (← workspace.graph.node? id).detail with
  | .importDecl detail => some detail
  | _ => none

def binding? (workspace : Workspace) (id : NodeId) : Option Binding := do
  (← workspace.graph.node? id).binding?

/-- The imports of a file, in the order of the text. -/
def importsOf (workspace : Workspace) (path : Path) : List (NodeId × ImportDetail) :=
  match workspace.source? path with
  | none => []
  | some file => file.imports.filterMap fun id =>
    (workspace.importDetail? id).map fun detail => (id, detail)

end Workspace

end CodeGraph
