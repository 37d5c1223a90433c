import CodeGraph.Facts.Basic

/-!
# Signatures

What other files can see of a file. As long as the signature stays, they need not be looked at
again.
-/

namespace CodeGraph

structure SymbolSignature where
  kind : NodeKind
  qualifiedName : String
  bases : List String
  deriving DecidableEq, Repr

structure ImportSignature where
  specifier : String
  member : Option String
  localName : Option String
  wildcard : Bool
  reexport : Bool
  deriving DecidableEq, Repr

structure Signature where
  symbols : List SymbolSignature
  surface : List String
  imports : List ImportSignature
  package : Option String
  deriving DecidableEq, Repr

def NameRef.dotted (target : NameRef) : String :=
  Text.join "." (target.name :: target.path)

def FileFacts.signature (facts : FileFacts) : Signature where
  symbols := facts.symbols.map fun symbol =>
    ⟨symbol.kind, symbol.qualifiedName, symbol.bases.map NameRef.dotted⟩
  surface := facts.surface
  imports := facts.imports.map fun fact =>
    ⟨fact.specifier, fact.member, fact.localName, fact.wildcard, fact.reexport⟩
  package := facts.package

end CodeGraph
