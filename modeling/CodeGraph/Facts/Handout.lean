import CodeGraph.Facts.Pairing
import CodeGraph.Table

/-!
# Handing ids on

The pairing of symbols as it is carried out on ids: beside what each new symbol is given it is noted
which of the old ones are taken. Old symbols of one kind and qualified name wait in a queue; after
that each new symbol left over looks for the first old one that is not taken and is like it.
-/

namespace CodeGraph

/-- What each new symbol is given, and which of the old ones are taken. -/
structure Handout where
  given : List (Option NodeId)
  taken : List Bool
  deriving DecidableEq, Repr

namespace Handout

/-- The queues of old symbols by what they are called. -/
abbrev Queues := Table (NodeKind × String) (List Nat)

def start (olds news : List SymbolFact) : Handout :=
  ⟨.replicate news.length none, .replicate olds.length false⟩

/-- What the new symbol at an index was given. -/
def given? (handout : Handout) (index : Nat) : Option NodeId :=
  handout.given[index]?.join

def isTaken (handout : Handout) (old : Nat) : Bool :=
  handout.taken.getD old false

/-- Gives the id of an old symbol to a new one. -/
def give (handout : Handout) (ids : List NodeId) (old index : Nat) : Handout :=
  ⟨handout.given.set index ids[old]?, handout.taken.set old true⟩

def enqueue (queues : Queues) (entry : SymbolFact × Nat) : Queues :=
  queues.put entry.1.key ((queues.get? entry.1.key).getD [] ++ [entry.2])

def queuesOf (olds : List SymbolFact) : Queues :=
  olds.zipIdx.foldl enqueue .empty

/-- Gives a new symbol the first in its queue. -/
def serve (ids : List NodeId) (state : Handout × Queues) (entry : SymbolFact × Nat) :
    Handout × Queues :=
  match state.2.get? entry.1.key with
  | some (old :: rest) => (state.1.give ids old entry.2, state.2.put entry.1.key rest)
  | _ => state

/-- Both stand at the top, or the new parent was given the id of the old one. -/
def sameParent (handout : Handout) (ids : List NodeId) (old new : SymbolFact) : Bool :=
  old.parent.map (ids[·]?) = new.parent.map handout.given?

/-- Gives a new symbol that was given none the first that is like it. -/
def offer (olds : List SymbolFact) (ids : List NodeId) (same : SymbolFact → SymbolFact → Bool)
    (handout : Handout) (entry : SymbolFact × Nat) : Handout :=
  let (new, index) := entry
  if (handout.given? index).isSome then handout
  else match olds.zipIdx.find? fun (old, place) =>
      !handout.isTaken place && (handout.sameParent ids old new && same old new) with
    | some (_, place) => handout.give ids place index
    | none => handout

def offerAll (olds news : List SymbolFact) (ids : List NodeId)
    (same : SymbolFact → SymbolFact → Bool) (handout : Handout) : Handout :=
  news.zipIdx.foldl (offer olds ids same) handout

end Handout

/-- Hands the ids of old symbols on to new ones. -/
def SymbolFact.handOn (olds news : List SymbolFact) (ids : List NodeId) : Handout :=
  let served := news.zipIdx.foldl (Handout.serve ids) (.start olds news, Handout.queuesOf olds)
  let byShape := served.1.offerAll olds news ids sameShape
  byShape.offerAll olds news ids sameName

end CodeGraph
