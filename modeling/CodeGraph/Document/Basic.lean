import CodeGraph.Graph.Basic

/-!
# Documents

The form in which values are handed to other tools: texts, numbers, lists and records of named
fields. This module has the documents of the graph's parts.
-/

namespace CodeGraph

inductive Document where
  | null
  | truth (value : Bool)
  | number (value : Int)
  | string (value : String)
  | list (items : List Document)
  | record (fields : List (String × Document))
  deriving Repr, Inhabited

namespace Document

def nat (value : Nat) : Document :=
  number value

def each {α : Type} (write : α → Document) (items : List α) : Document :=
  list (items.map write)

def optional {α : Type} (write : α → Document) (value : Option α) : Document :=
  (value.map write).getD null

def nats (values : List Nat) : Document := each nat values

def strings (values : List String) : Document := each string values

def optionalNat (value : Option Nat) : Document := optional nat value

def optionalString (value : Option String) : Document := optional string value

/-- A failure by its kind, with its cause in words where there are any. -/
def failure (kind : String) (message : Option String) : Document :=
  record (("error", string kind) :: message.toList.map fun message => ("message", string message))

end Document

open Document

def ByteRange.document (range : ByteRange) : Document :=
  record [("start", nat range.start), ("end", nat range.stop)]

def Point.document (point : Point) : Document :=
  record [("row", nat point.row), ("column", nat point.column)]

def SourceRange.document (range : SourceRange) : Document :=
  record [("start_byte", nat range.bytes.start), ("end_byte", nat range.bytes.stop),
    ("start", range.first.document), ("end", range.last.document)]

def Path.document (path : Path) : Document := string path.text

def Language.document (language : Language) : Document := string language.name

namespace NodeKind

def all : List NodeKind := [file, functionDef, classDef, variableDef, importDecl, external]

/-- The name of the kind in documents. -/
def title : NodeKind → String
  | file => "File"
  | functionDef => "Function"
  | classDef => "Class"
  | variableDef => "Variable"
  | importDecl => "Import"
  | external => "ExternalModule"

def document (kind : NodeKind) : Document := string kind.title

end NodeKind

def Binding.document : Binding → Document
  | resolved target => record [("Resolved", nat target)]
  | unresolved reason => record [("Unresolved", string reason)]
  | external name => record [("External", string name)]

def ImportDetail.fields (detail : ImportDetail) : List (String × Document) :=
  [("module", string detail.specifier), ("member", optionalString detail.member),
    ("alias", optionalString detail.renamed), ("wildcard", truth detail.wildcard),
    ("binding", detail.binding.document)]

def NodeDetail.document : NodeDetail → Document
  | file symbols imports errors =>
    record [("File", record [("symbols", nats symbols), ("imports", nats imports),
      ("error_ranges", each ByteRange.document errors)])]
  | symbol parent exported =>
    record [("Symbol", record [("parent", optionalNat parent), ("exported", truth exported)])]
  | importDecl detail => record [("Import", record detail.fields)]
  | external => string "External"

def Node.document (node : Node) : Document :=
  record [("id", nat node.id), ("kind", node.kind.document), ("name", optionalString node.name),
    ("qualified_name", string node.qualifiedName), ("file_path", node.path.document),
    ("range", node.range.document), ("language", node.language.document),
    ("detail", node.detail.document)]

/-- A node with everything that can be asked of it alone. -/
def Node.view (node : Node) : Document :=
  record [("node", node.document), ("name", string node.shownName),
    ("binding", optional Binding.document node.binding?),
    ("target", optionalNat (node.binding?.bind Binding.target?)),
    ("resolved", optional (fun binding => truth binding.isResolved) node.binding?),
    ("parent", optionalNat node.parent?), ("exported", truth node.isExported),
    ("stable_key", string node.stableKey), ("is_symbol", truth node.kind.isSymbol),
    ("kind", string node.kind.label)]

def EdgeKind.all : List EdgeKind := [defines, references, imports, inherits, contains]

def EdgeKind.document (kind : EdgeKind) : Document := string kind.label

def EdgeKey.document (key : EdgeKey) : Document :=
  record [("source", nat key.source), ("target", nat key.target), ("kind", key.kind.document)]

def Evidence.document : Evidence → Document
  | structural => string "Structural"
  | dynamic => string "Dynamic"

def Edge.document (edge : Edge) : Document :=
  list [nat edge.source, nat edge.target, edge.kind.document, edge.evidence.document,
    string edge.confidence.text]

def Delta.document (delta : Delta) : Document :=
  record [("added_nodes", nats delta.addedNodes), ("removed_nodes", nats delta.removedNodes),
    ("modified_nodes", nats delta.modifiedNodes),
    ("added_edges", each EdgeKey.document delta.addedEdges),
    ("removed_edges", each EdgeKey.document delta.removedEdges),
    ("modified_edges", each EdgeKey.document delta.modifiedEdges)]

/-- A delta in order, with what can be asked of it. -/
def Delta.view (delta : Delta) : Document :=
  record [("delta", delta.sorted.document), ("mutations", nat delta.mutationCount),
    ("empty", truth delta.isEmpty), ("changed", nats delta.changedNodes)]

def GraphError.kind : GraphError → String
  | nodeNotFound _ => "NodeNotFound"
  | danglingEdge _ => "DanglingEdge"
  | staleFileIndex _ | emptyNodePlace _ | emptyEdgePlace _ | vanished _ | wrongPlace _
  | unindexedEdge _ | idCount .. | edgeCount .. => "IndexMismatch"
  | fileExists _ | removedMember .. | removedParent .. | removedTarget .. => "InvalidOperation"

def GraphError.document (error : GraphError) : Document :=
  failure error.kind (some error.message)

end CodeGraph
