import CodeGraph.Facts.Basic
import CodeGraph.Matching

/-!
# Pairing the facts of two versions of a file

Symbols and imports that are the same thing before and after a change keep their nodes. What counts
as the same is decided here.
-/

namespace CodeGraph

namespace SymbolFact

/-- What a symbol is called in its file. -/
def key (fact : SymbolFact) : NodeKind × String :=
  (fact.kind, fact.qualifiedName)

def sameKey (old new : SymbolFact) : Bool :=
  old.kind = new.kind && old.qualifiedName = new.qualifiedName

/-- Both stand at the top, or their parents are paired. -/
def sameParent (matching : Matching) (old new : SymbolFact) : Bool :=
  match old.parent, new.parent with
  | none, none => true
  | some oldParent, some newParent => matching.partner? newParent = some oldParent
  | _, _ => false

def sameName (old new : SymbolFact) : Bool :=
  old.kind = new.kind && old.name = new.name

/-- Symbols are paired by kind and qualified name in order of appearance, then under paired parents
by unchanged text apart from the name, then under paired parents by name. -/
def pair (olds news : List SymbolFact) : Matching :=
  let byKey := (Matching.empty news.length).sweep olds news fun _ old new => old.sameKey new
  let byShape := byKey.sweep olds news fun matching old new =>
    sameParent matching old new && old.sameShape new
  byShape.sweep olds news fun matching old new =>
    sameParent matching old new && old.sameName new

end SymbolFact

namespace ImportFact

def sameKey (old new : ImportFact) : Bool :=
  old.specifier = new.specifier && old.member = new.member && old.localName = new.localName &&
    old.wildcard = new.wildcard

/-- Imports are paired by what they say, in order of appearance. -/
def pair (olds news : List ImportFact) : Matching :=
  (Matching.empty news.length).sweep olds news fun _ old new => old.sameKey new

end ImportFact

end CodeGraph
