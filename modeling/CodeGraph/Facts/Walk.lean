import CodeGraph.Facts.Basic
import CodeGraph.Text.Alphanumeric
import CodeGraph.Text.Quoted
import CodeGraph.Tree

/-!
# Walking a tree

A walk collects facts while it goes down a tree. Where it stands, that is its scope, the symbol it
belongs to and the names of the receiver, is known from above and never outlives the subtree.
-/

namespace CodeGraph

structure Place where
  text : String
  scope : ScopeId := ScopeTree.root
  owner : Option Nat := none
  selfNames : List String := []

abbrev Walk := ReaderT Place (StateM FileFacts)

abbrev Visit := Tree → Walk Unit

def ImportFact.ofSpecifier (specifier : String) (range : SourceRange) (specifierRange : ByteRange) :
    ImportFact :=
  { specifier, range, specifierRange }

def ImportFact.asWildcard (fact : ImportFact) : ImportFact :=
  { fact with wildcard := true, localName := none }

namespace Walk

def textOf (node : Tree) : Walk String := do
  return (Text.slice? (← read).text node.range.start node.range.stop).getD ""

def sourceRange (node : Tree) : Walk SourceRange := do
  return SourceRange.ofBytes (← read).text node.range

def visitChildren (visit : Visit) (node : Tree) : Walk Unit :=
  node.namedChildren.forM visit

def visitField (visit : Visit) (node : Tree) (field : String) : Walk Unit :=
  match node.child? field with
  | some child => visit child
  | none => pure ()

def scope? : Walk (Option Scope) := do
  return (← get).scopes.scope? (← read).scope

def inFunction : Walk Bool := do
  return (← scope?).map Scope.kind = some .functionBody

def inClass : Walk Bool := do
  return (← scope?).map Scope.kind = some .classBody

def atModuleRoot : Walk Bool := do
  return (← read).scope = ScopeTree.root

def enclosingClass? : Walk (Option Nat) := do
  return (← read).owner.bind (← get).enclosingClass?

/-- Whether the name stands for the enclosing instance, inside a class. -/
def isSelf (name : String) : Walk Bool := do
  return (← enclosingClass?).isSome && (← read).selfNames.contains name

def withSelfName (name : String) (walk : Walk Unit) : Walk Unit :=
  withReader (fun place => { place with selfNames := place.selfNames ++ [name] }) walk

/-- Whether the name is a symbol of the present scope already. -/
def declaredHere (name : String) : Walk Bool := do
  match (← scope?).bind fun scope => scope.definition? name with
  | some (.symbol _) => return true
  | _ => return false

/-- The text of a definition before and after its name. -/
def shapeOf (body : String) (start : Nat) (nameRange : ByteRange) : String × String :=
  let length := Text.size body
  let first := min (nameRange.start - start) length
  let last := min (nameRange.stop - start) length
  ((Text.slice? body 0 first).getD "", (Text.slice? body last length).getD "")

def defineNamed (kind : NodeKind) (name : String) (nameRange : ByteRange) (definition : Tree)
    (exported : Bool) : Walk Nat := do
  let place ← read
  let facts ← get
  let qualifiedName := match place.owner.bind fun owner => facts.symbols[owner]? with
    | some owner => owner.qualifiedName ++ "." ++ name
    | none => name
  let body ← textOf definition
  let symbol : SymbolFact := {
    kind, name, qualifiedName, nameRange, exported, body
    range := ← sourceRange definition
    parent := place.owner
    scope := place.scope
    shape := shapeOf body definition.range.start nameRange
    bases := [] }
  let index := facts.symbols.length
  set { facts with
    symbols := facts.symbols ++ [symbol]
    scopes := facts.scopes.define place.scope name (.symbol index) }
  return index

/-- Records a definition that is named by a node. -/
def define (kind : NodeKind) (nameNode definition : Tree) (exported : Bool) : Walk Nat := do
  defineNamed kind (← textOf nameNode) nameNode.range definition exported

/-- Opens a scope below the present one. -/
def openScope (kind : ScopeKind) (range : ByteRange) (owner : Option Nat) : Walk ScopeId := do
  let place ← read
  let facts ← get
  set { facts with scopes := facts.scopes.push kind place.scope range owner }
  return facts.scopes.nextId

/-- Walks the body of a symbol, in a scope of its own. -/
def inSymbol (symbol : Nat) (kind : ScopeKind) (node : Tree) (walk : Walk Unit) : Walk Unit := do
  let scope ← openScope kind node.range (some symbol)
  withReader (fun place => { place with scope, owner := some symbol }) walk

/-- Walks in a scope that belongs to no symbol. -/
def inAnonymous (kind : ScopeKind) (node : Tree) (walk : Walk Unit) : Walk Unit := do
  let scope ← openScope kind node.range none
  withReader (fun place => { place with scope }) walk

/-- Attributes what the walk finds to a symbol, without a scope. -/
def withOwner (symbol : Nat) (walk : Walk Unit) : Walk Unit :=
  withReader (fun place => { place with owner := some symbol }) walk

def bindLocal (name : String) : Walk Unit := do
  let place ← read
  if name ≠ "" then
    modify fun facts => { facts with scopes := facts.scopes.define place.scope name .plain }

/-- Binds every identifier of a pattern. -/
def bindPattern (identifiers : List String) (node : Tree) : Walk Unit :=
  (node.patternNames identifiers).forM fun name => do bindLocal (← textOf name)

def pushReference (target : NameRef) (kind : RefKind) : Walk Unit := do
  let place ← read
  let reference : ReferenceFact := { target, kind, scope := place.scope, owner := place.owner }
  modify fun facts => { facts with references := facts.references ++ [reference] }

def referencePath (target : NameRef) : Walk Unit :=
  if target.name = "" then pure () else pushReference target .name

/-- A use of a plain identifier. -/
def reference (node : Tree) : Walk Unit := do
  referencePath ⟨← textOf node, [], node.range⟩

/-- A use of a member of the enclosing class. -/
def selfMember (member : String) (range : ByteRange) : Walk Unit :=
  pushReference ⟨member, [], range⟩ .selfMember

/-- A member looked up by a text that could be its name. -/
def stringLookup (name : String) (range : ByteRange) : Walk Unit :=
  if name ≠ "" ∧ name.toList.all Text.isIdentifierPart then
    pushReference ⟨name, [], range⟩ .stringLookup
  else pure ()

/-- Records an import in the present scope and binds its name there. -/
def importing (fact : ImportFact) : Walk Unit := do
  let place ← read
  modify fun facts =>
    let index := facts.imports.length
    let scopes := if fact.wildcard then facts.scopes.bindWildcard place.scope index
      else match fact.localName with
        | some name => facts.scopes.bindImport place.scope name index
        | none => facts.scopes
    { facts with scopes, imports := facts.imports ++ [{ fact with scope := place.scope }] }

def addBase (symbol : Nat) (base : NameRef) : Walk Unit :=
  if base.name = "" then pure ()
  else modify fun facts => { facts with symbols := facts.symbols.modify symbol fun fact =>
    { fact with bases := fact.bases ++ [base] } }

def markExported (name : String) : Walk Unit :=
  modify fun facts =>
    if name ∈ facts.exports then facts else { facts with exports := facts.exports ++ [name] }

def setDefaultExport (name : String) : Walk Unit := do
  modify fun facts => { facts with defaultExport := some name }
  markExported name

def setPackage (package : String) : Walk Unit :=
  modify fun facts => { facts with package := some package }

/-- How a grammar spells member access. -/
structure MemberShape where
  members : List String
  object : String
  property : String
  identifiers : List String
  /-- Words for the instance that name nothing where there is none. -/
  receivers : List String := []

def memberChainWithin (text : String) (shape : MemberShape) (range : ByteRange) :
    Nat → Tree → List String → Option NameRef
  | 0, _, _ => none
  | fuel + 1, node, path =>
    if node.kind ∈ shape.members then do
      let property ← node.child? shape.property
      let name ← Text.slice? text property.range.start property.range.stop
      let object ← node.child? shape.object
      memberChainWithin text shape range fuel object (name :: path)
    else if node.kind ∈ shape.identifiers then do
      let name ← Text.slice? text node.range.start node.range.stop
      return ⟨name, path, range⟩
    else none

/-- A member chain such as `a.b.c` as a name, when it starts at an identifier. -/
def memberChain? (shape : MemberShape) (node : Tree) : Walk (Option NameRef) := do
  return memberChainWithin (← read).text shape node.range node.height node []

/-- A use through a member chain. Members of the instance are uses of the class; a chain that starts
at something else than a name is a use of whatever stands at its start. -/
def memberUse (visit : Visit) (shape : MemberShape) (node : Tree) : Walk Unit := do
  match ← memberChain? shape node with
  | none => visit (node.chainRoot shape.members shape.object)
  | some chain =>
    match chain.path.head?, ← isSelf chain.name with
    | some member, true => selfMember member chain.range
    | _, _ => if chain.name ∈ shape.receivers then pure () else referencePath chain

/-- Ties the knot: `step` says what happens at a node, given how to go on below it. -/
def unroll (step : Visit → Visit) : Nat → Visit
  | 0 => fun _ => pure ()
  | fuel + 1 => step (unroll step fuel)

end Walk

end CodeGraph
