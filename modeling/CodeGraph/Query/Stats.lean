import CodeGraph.Workspace.Basic

/-!
# The workspace as a whole

Counts of what there is, and a view of the edges that does not depend on ids.
-/

namespace CodeGraph

structure Stats where
  files : Nat
  functions : Nat
  classes : Nat
  variableDefs : Nat
  imports : Nat
  unresolvedImports : Nat
  externalModules : Nat
  edges : Nat
  dynamicEdges : Nat
  filesWithErrors : Nat
  deriving DecidableEq, Repr

/-- An edge by what it joins and not by ids, so that two builds of one project can be compared. -/
structure EdgeTriple where
  kind : EdgeKind
  source : String
  target : String
  deriving DecidableEq, Repr

def EdgeTriple.compare (left right : EdgeTriple) : Ordering :=
  (Ord.compare left.kind.rank right.kind.rank).then
    ((Text.compare left.source right.source).then (Text.compare left.target right.target))

def Node.isUnresolved (node : Node) : Bool :=
  match node.binding? with
  | some (.unresolved _) => true
  | _ => false

namespace Workspace

def stats (workspace : Workspace) : Stats :=
  let count := fun kind => (workspace.graph.nodesOfKind kind).length
  { files := count .file
    functions := count .functionDef
    classes := count .classDef
    variableDefs := count .variableDef
    imports := count .importDecl
    unresolvedImports := (workspace.graph.nodesOfKind .importDecl).countP Node.isUnresolved
    externalModules := count .external
    edges := workspace.graph.edges.length
    dynamicEdges := workspace.graph.edges.countP Edge.isDynamic
    filesWithErrors := workspace.files.countP SourceFile.hasErrors }

/-- The edges by what they join, in order and without repetition. -/
def edgeTriples (workspace : Workspace) : List EdgeTriple :=
  let triples := workspace.graph.edges.filterMap fun edge => do
    let source ← workspace.graph.node? edge.source
    let target ← workspace.graph.node? edge.target
    return EdgeTriple.mk edge.kind source.stableKey target.stableKey
  triples.eraseDups.mergeSort fun left right => left.compare right != .gt

end Workspace

end CodeGraph
