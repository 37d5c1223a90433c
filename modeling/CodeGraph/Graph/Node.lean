import CodeGraph.Language
import CodeGraph.Text.Range

/-!
# Nodes

What the graph knows of a file, a definition, an import or a module outside the project.
-/

namespace CodeGraph

abbrev NodeId := Nat

inductive NodeKind where
  | file
  | functionDef
  | classDef
  | variableDef
  | importDecl
  | external
  deriving DecidableEq, Repr

namespace NodeKind

def isSymbol : NodeKind → Bool
  | functionDef | classDef | variableDef => true
  | file | importDecl | external => false

def label : NodeKind → String
  | file => "file"
  | functionDef => "function"
  | classDef => "class"
  | variableDef => "variable"
  | importDecl => "import"
  | external => "external"

end NodeKind

/-- What an import stands for: a node of the project, nothing yet, or a module outside. -/
inductive Binding where
  | resolved (target : NodeId)
  | unresolved (reason : String)
  | external (name : String)
  deriving DecidableEq, Repr

namespace Binding

def target? : Binding → Option NodeId
  | resolved target => some target
  | unresolved _ | external _ => none

def isResolved (binding : Binding) : Bool :=
  binding.target?.isSome

end Binding

/-- An import as the statement spells it, with what it stands for. -/
structure ImportDetail where
  specifier : String
  member : Option String
  renamed : Option String
  wildcard : Bool
  binding : Binding
  deriving DecidableEq, Repr

inductive NodeDetail where
  | file (symbols imports : List NodeId) (errors : List ByteRange)
  | symbol (parent : Option NodeId) (exported : Bool)
  | importDecl (detail : ImportDetail)
  | external
  deriving DecidableEq, Repr

structure Node where
  id : NodeId
  kind : NodeKind
  name : Option String
  qualifiedName : String
  path : Path
  range : SourceRange
  language : Language
  detail : NodeDetail
  deriving DecidableEq, Repr

namespace Node

def shownName (node : Node) : String :=
  node.name.getD ""

def binding? (node : Node) : Option Binding :=
  match node.detail with
  | .importDecl detail => some detail.binding
  | _ => none

def parent? (node : Node) : Option NodeId :=
  match node.detail with
  | .symbol parent _ => parent
  | _ => none

def isExported (node : Node) : Bool :=
  match node.detail with
  | .symbol _ exported => exported
  | _ => false

/-- The nodes a file lists as its own. -/
def listed (node : Node) : List NodeId :=
  match node.detail with
  | .file symbols imports _ => symbols ++ imports
  | _ => []

/-- A name for the node that does not depend on the order in which the project was read. -/
def stableKey (node : Node) : String :=
  match node.kind with
  | .external => "external:" ++ node.language.name ++ ":" ++ node.shownName
  | .file => "file:" ++ node.path.display
  | kind =>
    kind.label ++ ":" ++ node.path.display ++ ":" ++ node.qualifiedName ++ "@" ++
      toString node.range.bytes.start

/-- Nodes that differ at most in how their path is spelled. -/
def same (left right : Node) : Bool :=
  left.path.same right.path && { left with path := right.path } = right

def rebind (node : Node) (binding : Binding) : Node :=
  match node.detail with
  | .importDecl detail => { node with detail := .importDecl { detail with binding } }
  | _ => node

/-- The node without `id` among the nodes it lists. -/
def unlist (node : Node) (id : NodeId) : Node :=
  match node.detail with
  | .file symbols imports errors =>
    { node with detail := .file (symbols.filter (· ≠ id)) (imports.filter (· ≠ id)) errors }
  | _ => node

end Node

end CodeGraph
