import CodeGraph.Document.Facts
import CodeGraph.Query.Cycles
import CodeGraph.Query.Reach
import CodeGraph.Query.Search
import CodeGraph.Query.Stats
import CodeGraph.Query.Symbols
import CodeGraph.Transaction.Basic

/-!
# Documents of a workspace

The answers to queries, the results of transactions, and reports on the whole workspace.
-/

namespace CodeGraph

open Document

def Usage.document (usage : Usage) : Document :=
  list [nat usage.user, usage.evidence.document, string usage.confidence.text,
    truth usage.isDynamic]

def Reached.document (reached : Reached) : Document :=
  list [nat reached.distance, nat reached.id]

def SearchHit.document (hit : SearchHit) : Document :=
  record [("id", nat hit.node.id), ("kind", hit.node.kind.document),
    ("qualified_name", string hit.node.qualifiedName), ("path", hit.node.path.document),
    ("score", number hit.score)]

def Stats.document (stats : Stats) : Document :=
  record [("files", nat stats.files), ("functions", nat stats.functions),
    ("classes", nat stats.classes), ("variables", nat stats.variableDefs),
    ("imports", nat stats.imports), ("unresolved_imports", nat stats.unresolvedImports),
    ("external_modules", nat stats.externalModules), ("edges", nat stats.edges),
    ("dynamic_edges", nat stats.dynamicEdges), ("files_with_errors", nat stats.filesWithErrors)]

def EdgeTriple.document (triple : EdgeTriple) : Document :=
  list [triple.kind.document, string triple.source, string triple.target]

def SourceFile.document (file : SourceFile) : Document :=
  record [("path", file.path.document), ("language", file.language.document),
    ("id", nat file.node), ("text", string file.text), ("symbols", nats file.symbols),
    ("imports", nats file.imports), ("has_errors", truth file.hasErrors),
    ("root", string file.parsed.rootKind)]

def ImportDetail.view (id : NodeId) (detail : ImportDetail) : Document :=
  record (("id", nat id) :: detail.fields)

def Commit.document (id : TransactionId) (commit : Commit) : Document :=
  record [("committed", record [("id", nat id), ("sequence", nat commit.sequence),
    ("changed", nats commit.changed), ("mutations", nat commit.mutations)])]

def Rejection.document (id : TransactionId) (rejection : Rejection) : Document :=
  let message := rejection.message?.toList.map fun message => ("message", string message)
  record [("rejected", record ([("id", nat id), ("reason", string rejection.code)] ++ message))]

def TransactionResult.document (id : TransactionId) : TransactionResult → Document
  | committed commit => commit.document id
  | rejected rejection => rejection.document id

def SyncError.kind : SyncError → String
  | graph _ => "Graph"
  | parse _ => "Syntax"
  | violated _ => "Inconsistent"
  | unknownFile _ => "UnknownFile"

def SyncError.document (error : SyncError) : Document :=
  failure error.kind (some error.message)

def TransactionState.title : TransactionState → String
  | queued => "Queued"
  | validating => "Validating"
  | applying => "Applying"
  | committed => "Committed"
  | rejected => "Rejected"

/-- A planned change; it has no priority of its own. -/
def Change.plan (change : Change) : Document :=
  let common := fun kind (path : Path) =>
    [("kind", string kind), ("path", path.document), ("priority", nat 0)]
  match change with
  | edit path range content base =>
    record (common "edit" path ++
      [("range", range.document), ("text", string content), ("base", optionalNat base)])
  | add path content => record (common "add" path ++ [("content", string content)])
  | remove path => record (common "remove" path)
  | rename source _ => record (common "rename" source)

namespace Graph

def sortedNodes (graph : Graph) : List Node :=
  graph.nodes.mergeSort fun left right => left.id ≤ right.id

def document (graph : Graph) : List (String × Document) :=
  [("nodes", each Node.document graph.sortedNodes),
    ("edges", each Edge.document (sortedEdges graph.edges))]

end Graph

namespace Workspace

def importsDocument (workspace : Workspace) (path : Path) : Document :=
  each (fun (id, detail) => detail.view id) (workspace.importsOf path)

def cyclesDocument (workspace : Workspace) : Document :=
  each (each Path.document) workspace.importCycles

/-- The whole graph. -/
def document (workspace : Workspace) : Document :=
  record (("sequence", nat workspace.sequence) :: workspace.graph.document)

def nodeReport (workspace : Workspace) (depth : Nat) (node : Node) : Document :=
  record [("id", nat node.id), ("key", string node.stableKey),
    ("usages", each Usage.document (workspace.usagesOf node.id)),
    ("deps", each Reached.document (workspace.graph.dependenciesOf node.id depth)),
    ("blast", each Reached.document (workspace.graph.blastRadius node.id depth)),
    ("dead", optional truth (workspace.isDead? node.id))]

/-- What the queries say of every node and every file. -/
def report (workspace : Workspace) (depth : Nat) : Document :=
  record [("nodes", each (workspace.nodeReport depth) workspace.graph.sortedNodes),
    ("imports", each (fun path => list [path.document, workspace.importsDocument path])
      workspace.paths),
    ("cycles", workspace.cyclesDocument), ("stats", workspace.stats.document),
    ("sequence", nat workspace.sequence)]

end Workspace

end CodeGraph
