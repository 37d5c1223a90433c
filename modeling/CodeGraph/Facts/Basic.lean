import CodeGraph.Facts.Scope
import CodeGraph.Graph.Node

/-!
# Facts about a file

What one file declares, imports and uses, read from its tree alone. Symbols, imports and references
are listed in the order of the text and known by their index.
-/

namespace CodeGraph

/-- A name as written at a use: `a.b.c` has name `a` and path `b`, `c`. -/
structure NameRef where
  name : String
  path : List String
  range : ByteRange
  deriving DecidableEq, Repr

structure SymbolFact where
  kind : NodeKind
  name : String
  qualifiedName : String
  range : SourceRange
  nameRange : ByteRange
  parent : Option Nat
  scope : ScopeId
  exported : Bool
  /-- The text of the whole definition. -/
  body : String
  /-- The text before and after the name. -/
  shape : String × String
  bases : List NameRef
  deriving DecidableEq, Repr

namespace SymbolFact

def sameBody (left right : SymbolFact) : Bool :=
  left.kind = right.kind && left.body = right.body

def sameShape (left right : SymbolFact) : Bool :=
  left.kind = right.kind && left.shape = right.shape

end SymbolFact

structure ImportFact where
  specifier : String
  member : Option String := none
  renamed : Option String := none
  localName : Option String := none
  wildcard : Bool := false
  reexport : Bool := false
  range : SourceRange
  specifierRange : ByteRange
  scope : ScopeId := ScopeTree.root
  deriving DecidableEq, Repr

/-- The name shown for the import. -/
def ImportFact.displayName (fact : ImportFact) : String :=
  match fact.localName with
  | some name => name
  | none => if fact.wildcard then fact.specifier ++ ".*" else fact.member.getD fact.specifier

inductive RefKind where
  | name
  | selfMember
  | stringLookup
  deriving DecidableEq, Repr

structure ReferenceFact where
  target : NameRef
  kind : RefKind
  scope : ScopeId
  owner : Option Nat
  deriving DecidableEq, Repr

structure FileFacts where
  language : Language
  symbols : List SymbolFact := []
  imports : List ImportFact := []
  references : List ReferenceFact := []
  scopes : ScopeTree
  exports : List String := []
  defaultExport : Option String := none
  package : Option String := none
  errorRanges : List ByteRange := []
  deriving DecidableEq, Repr

namespace FileFacts

def empty (language : Language) (length : Nat) : FileFacts where
  language := language
  scopes := ScopeTree.ofRange ⟨0, length⟩

/-- The symbols declared directly in the module, with their indices. -/
def topLevel (facts : FileFacts) : List (SymbolFact × Nat) :=
  facts.symbols.zipIdx.filter fun (symbol, _) =>
    symbol.parent.isNone && symbol.scope = ScopeTree.root

/-- What a name means at module level, when that is a symbol. -/
def topLevelSymbol? (facts : FileFacts) (name : String) : Option Nat :=
  match facts.scopes.rootScope?.bind fun scope => scope.definition? name with
  | some (.symbol index) => some index
  | _ => none

def rootImports (facts : FileFacts) : List ImportFact :=
  facts.imports.filter fun fact => fact.scope = ScopeTree.root

/-- The names importers can see, in order and without repetition. -/
def surface (facts : FileFacts) : List String :=
  let names := facts.topLevel.map (fun (symbol, _) => symbol.name) ++
    facts.rootImports.filterMap ImportFact.localName ++
    facts.defaultExport.toList.map ("default=" ++ ·)
  names.eraseDups.mergeSort fun left right => Text.compare left right != .gt

/-- The last symbol of that name declared directly in `parent`. -/
def member? (facts : FileFacts) (parent : Nat) (name : String) : Option Nat :=
  (facts.symbols.zipIdx.reverse.find? fun (symbol, _) =>
    symbol.parent = some parent && symbol.name = name).map Prod.snd

def enclosingClassWithin (facts : FileFacts) : Nat → Nat → Option Nat
  | 0, _ => none
  | fuel + 1, index =>
    match facts.symbols[index]? with
    | none => none
    | some symbol =>
      if symbol.kind = .classDef then some index
      else match symbol.parent with
        | none => none
        | some parent => enclosingClassWithin facts fuel parent

/-- The innermost class that encloses the symbol or is it. -/
def enclosingClass? (facts : FileFacts) (index : Nat) : Option Nat :=
  facts.enclosingClassWithin (facts.symbols.length) index

/-- Symbols at the top whose names stand in the export list are exported. -/
def markExports (facts : FileFacts) : FileFacts :=
  { facts with symbols := facts.symbols.map fun symbol =>
      if symbol.parent.isNone && symbol.name ∈ facts.exports then { symbol with exported := true }
      else symbol }

end FileFacts

end CodeGraph
