import CodeGraph.Table
import CodeGraph.Text.Range

/-!
# Lexical scopes

The scopes of a file as a tree under the module, each with the names declared and imported in it.
-/

namespace CodeGraph

inductive ScopeKind where
  | moduleBody
  | classBody
  | functionBody
  deriving DecidableEq, Repr

/-- What a declared name stands for: a symbol of the file, by index, or a local. -/
inductive Decl where
  | symbol (index : Nat)
  | plain
  deriving DecidableEq, Repr

abbrev ScopeId := Nat

structure Scope where
  kind : ScopeKind
  parent : Option ScopeId
  range : ByteRange
  owner : Option Nat
  definitions : Table String Decl := {}
  imports : Table String Nat := {}
  wildcards : List Nat := []
  deriving DecidableEq, Repr

namespace Scope

def definition? (scope : Scope) (name : String) : Option Decl :=
  scope.definitions.get? name

def import? (scope : Scope) (name : String) : Option Nat :=
  scope.imports.get? name

/-- The declared names in order. -/
def sortedDefinitions (scope : Scope) : List (String × Decl) :=
  scope.definitions.entries.mergeSort fun left right => Text.compare left.1 right.1 != .gt

/-- A symbol replaces what the name meant; a local gives way to it. -/
def define (scope : Scope) (name : String) : Decl → Scope
  | .symbol index => { scope with definitions := scope.definitions.put name (.symbol index) }
  | .plain => { scope with definitions := scope.definitions.putNew name .plain }

def bindImport (scope : Scope) (name : String) (index : Nat) : Scope :=
  { scope with imports := scope.imports.put name index }

def bindWildcard (scope : Scope) (index : Nat) : Scope :=
  { scope with wildcards := scope.wildcards ++ [index] }

end Scope

structure ScopeTree where
  scopes : List Scope
  deriving DecidableEq, Repr

namespace ScopeTree

def root : ScopeId := 0

def ofRange (range : ByteRange) : ScopeTree :=
  ⟨[{ kind := .moduleBody, parent := none, range, owner := none }]⟩

def scope? (tree : ScopeTree) (id : ScopeId) : Option Scope :=
  tree.scopes[id]?

def rootScope? (tree : ScopeTree) : Option Scope :=
  tree.scope? root

def size (tree : ScopeTree) : Nat :=
  tree.scopes.length

def isEmpty (tree : ScopeTree) : Bool :=
  tree.scopes.isEmpty

/-- The id that the next scope gets. -/
def nextId (tree : ScopeTree) : ScopeId :=
  tree.scopes.length

def push (tree : ScopeTree) (kind : ScopeKind) (parent : ScopeId) (range : ByteRange)
    (owner : Option Nat) : ScopeTree :=
  ⟨tree.scopes ++ [{ kind, parent := some parent, range, owner }]⟩

def modify (tree : ScopeTree) (id : ScopeId) (change : Scope → Scope) : ScopeTree :=
  ⟨tree.scopes.modify id change⟩

def define (tree : ScopeTree) (id : ScopeId) (name : String) (decl : Decl) : ScopeTree :=
  tree.modify id fun scope => scope.define name decl

def bindImport (tree : ScopeTree) (id : ScopeId) (name : String) (index : Nat) : ScopeTree :=
  tree.modify id fun scope => scope.bindImport name index

def bindWildcard (tree : ScopeTree) (id : ScopeId) (index : Nat) : ScopeTree :=
  tree.modify id fun scope => scope.bindWildcard index

def chainWithin (tree : ScopeTree) : Nat → ScopeId → List (ScopeId × Scope)
  | 0, _ => []
  | fuel + 1, id =>
    match tree.scope? id with
    | none => []
    | some scope =>
      (id, scope) :: match scope.parent with
        | none => []
        | some parent => chainWithin tree fuel parent

/-- The scopes from `id` outwards, innermost first. -/
def chain (tree : ScopeTree) (id : ScopeId) : List (ScopeId × Scope) :=
  tree.chainWithin tree.size id

end ScopeTree

end CodeGraph
