import CodeGraph.Graph.Confidence
import CodeGraph.Graph.Node

/-!
# Edges

An edge is known by its two ends and its kind; it carries how it was found and how sure that is.
-/

namespace CodeGraph

inductive EdgeKind where
  | defines
  | references
  | imports
  | inherits
  | contains
  deriving DecidableEq, Repr

namespace EdgeKind

def rank : EdgeKind → Nat
  | defines => 0
  | references => 1
  | imports => 2
  | inherits => 3
  | contains => 4

def label : EdgeKind → String
  | defines => "Defines"
  | references => "References"
  | imports => "Imports"
  | inherits => "Inherits"
  | contains => "Contains"

end EdgeKind

inductive Evidence where
  | structural
  | dynamic
  deriving DecidableEq, Repr

structure EdgeKey where
  source : NodeId
  target : NodeId
  kind : EdgeKind
  deriving DecidableEq, Repr

namespace EdgeKey

def before (left right : EdgeKey) : Bool :=
  left.source < right.source ||
    (left.source = right.source &&
      (left.target < right.target ||
        (left.target = right.target && left.kind.rank ≤ right.kind.rank)))

def text (key : EdgeKey) : String :=
  "EdgeKey \x7b source: NodeId(" ++ toString key.source ++ "), target: NodeId(" ++
    toString key.target ++ "), kind: " ++ key.kind.label ++ " \x7d"

end EdgeKey

structure Edge where
  source : NodeId
  target : NodeId
  kind : EdgeKind
  evidence : Evidence
  confidence : Confidence
  deriving DecidableEq, Repr

namespace Edge

def structural (source target : NodeId) (kind : EdgeKind) : Edge :=
  ⟨source, target, kind, .structural, .certain⟩

def dynamic (source target : NodeId) (confidence : Confidence) : Edge :=
  ⟨source, target, .references, .dynamic, confidence⟩

def key (edge : Edge) : EdgeKey :=
  ⟨edge.source, edge.target, edge.kind⟩

def isDynamic (edge : Edge) : Bool :=
  edge.evidence = .dynamic

/-- Edges that differ at most in the sign of a confidence that is zero. -/
def same (left right : Edge) : Bool :=
  left.confidence.value = right.confidence.value &&
    { left with confidence := right.confidence } = right

def touches (edge : Edge) (id : NodeId) : Bool :=
  edge.source = id || edge.target = id

end Edge

end CodeGraph
