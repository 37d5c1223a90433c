import CodeGraph.Graph.Stored
import CodeGraph.Proofs.Disk.Place
import CodeGraph.Proofs.Graph.Indices

/-!
# Graphs in use

A graph is asked for any number of operations, some of which fail. It may be put aside and taken up
again later. What every operation keeps holds after any number of them, and what only some updates
break holds as long as no reply reports one.
-/

namespace CodeGraph

/-! ### Requests and replies -/

namespace Graph

variable {graph after : Graph} {id : NodeId} {α : Type}

/-- What a graph is asked to do. -/
inductive Request where
  | insertNode (node : Node)
  | updateNode (id : NodeId) (change : Node → Node)
  | removeNode (id : NodeId)
  | insertEdge (edge : Edge)
  | removeEdge (key : EdgeKey)
  | beginJournal
  | takeJournal

inductive Reply where
  | inserted (result : Except GraphError NodeId)
  | updated (result : Except GraphError Bool)
  | removed (result : Except GraphError Node)
  | linked (result : Except GraphError Bool)
  | unlinked (edge : Option Edge)
  | taken (delta : Delta)
  | done

/-- An update would have given a file the path of another. -/
def Reply.refused : Reply → Bool
  | .updated (.error (.fileExists _)) => true
  | _ => false

/-- An operation that leaves the graph as it was where it fails. -/
def settle (graph : Graph) : Except GraphError (α × Graph) → Graph × Except GraphError α
  | .ok (answer, after) => (after, .ok answer)
  | .error error => (graph, .error error)

/-- What an operation leaves behind, whether it succeeds or not, and its reply. -/
def respond (graph : Graph) : Request → Graph × Reply
  | .insertNode node =>
    let (graph, result) := graph.settle (graph.insertNode node)
    (graph, .inserted result)
  | .updateNode id change =>
    let (graph, result) := graph.updateNode id change
    (graph, .updated result)
  | .removeNode id =>
    let (graph, result) := graph.removeNode id
    (graph, .removed result)
  | .insertEdge edge =>
    let (graph, result) := graph.settle (graph.insertEdge edge)
    (graph, .linked result)
  | .removeEdge key =>
    let (edge, graph) := graph.removeEdge key
    (graph, .unlinked edge)
  | .beginJournal => (graph.beginJournal, .done)
  | .takeJournal =>
    let (delta, graph) := graph.takeJournal
    (graph, .taken delta)

end Graph

namespace StoredGraph

def respond (stored : StoredGraph) : Graph.Request → StoredGraph × Graph.Reply
  | .insertNode node =>
    let (stored, result) := stored.insertNode node
    (stored, .inserted result)
  | .updateNode id change =>
    let (stored, result) := stored.updateNode id change
    (stored, .updated result)
  | .removeNode id =>
    let (stored, result) := stored.removeNode id
    (stored, .removed result)
  | .insertEdge edge =>
    let (stored, result) := stored.insertEdge edge
    (stored, .linked result)
  | .removeEdge key =>
    let (stored, edge) := stored.removeEdge key
    (stored, .unlinked edge)
  | .beginJournal => (stored.beginJournal, .done)
  | .takeJournal =>
    let (stored, delta) := stored.takeJournal
    (stored, .taken delta)

end StoredGraph

/-! ### Sessions -/

/-- A graph in use, and the copies of it that were put aside. -/
structure Session (γ : Type) where
  graph : γ
  clones : List γ := []

namespace Session

variable {γ δ : Type}

inductive Operation where
  | ask (request : Graph.Request)
  /-- Puts a copy of the graph aside. -/
  | clone
  /-- Takes up a copy that was put aside. -/
  | restore (index : Nat)

section Perform

variable (respond : γ → Graph.Request → γ × Graph.Reply)

def perform (session : Session γ) : Operation → Session γ × Graph.Reply
  | .ask request =>
    let (graph, reply) := respond session.graph request
    ({ session with graph }, reply)
  | .clone => ({ session with clones := session.clones ++ [session.graph] }, .done)
  | .restore index => ({ session with graph := session.clones[index]?.getD session.graph }, .done)

def performAll (session : Session γ) (operations : List Operation) : Session γ :=
  operations.foldl (fun session operation => (session.perform respond operation).1) session

/-- The replies in the order of the operations. -/
def replies : Session γ → List Operation → List Graph.Reply
  | _, [] => []
  | session, operation :: rest =>
    let (session, reply) := session.perform respond operation
    reply :: session.replies rest

/-- No update would have given a file the path of another. -/
def Unrefused (session : Session γ) (operations : List Operation) : Prop :=
  ∀ reply ∈ session.replies respond operations, reply.refused = false

instance (session : Session γ) (operations : List Operation) :
    Decidable (session.Unrefused respond operations) :=
  inferInstanceAs (Decidable (∀ reply ∈ session.replies respond operations, _))

end Perform

/-! ### What a session keeps -/

/-- A property of the graph in use and of those put aside. -/
def All (holds : γ → Prop) (session : Session γ) : Prop :=
  holds session.graph ∧ ∀ clone ∈ session.clones, holds clone

variable {respond : γ → Graph.Request → γ × Graph.Reply} {holds : γ → Prop} {session : Session γ}

theorem all_new {graph : γ} (hgraph : holds graph) : All holds { graph } :=
  ⟨hgraph, fun _ hclone => by cases hclone⟩

theorem All.perform (hall : session.All holds) {operation : Operation}
    (hrespond : ∀ request, operation = .ask request → holds (respond session.graph request).1) :
    (session.perform respond operation).1.All holds := by
  cases operation with
  | ask request => exact ⟨hrespond request rfl, hall.2⟩
  | clone =>
    refine ⟨hall.1, fun clone hclone => ?_⟩
    obtain hold | hnew := List.mem_append.1 hclone
    · exact hall.2 clone hold
    · exact List.mem_singleton.1 hnew ▸ hall.1
  | restore index =>
    refine ⟨?_, hall.2⟩
    rw [Session.perform]
    cases hclone : session.clones[index]? with
    | none => exact hall.1
    | some clone => exact hall.2 clone (List.mem_of_getElem? hclone)

/-- What is kept unless an update is refused holds as long as none is. -/
theorem All.performAll_of_unrefused (hall : session.All holds)
    (hrespond : ∀ graph request, holds graph → (respond graph request).2.refused = false →
      holds (respond graph request).1)
    {operations : List Operation} (hunrefused : session.Unrefused respond operations) :
    (session.performAll respond operations).All holds := by
  induction operations generalizing session with
  | nil => exact hall
  | cons operation rest ih =>
    obtain ⟨hfirst, hrest⟩ := List.forall_mem_cons.1 hunrefused
    refine ih (hall.perform fun request hrequest => hrespond _ request hall.1 ?_) hrest
    subst hrequest
    exact hfirst

theorem All.performAll (hall : session.All holds)
    (hrespond : ∀ graph request, holds graph → holds (respond graph request).1)
    (operations : List Operation) : (session.performAll respond operations).All holds :=
  List.foldlRecOn (motive := All holds) operations _ hall
    fun _ hstate _ _ => hstate.perform fun request _ => hrespond _ request hstate.1

/-! ### Sessions side by side -/

/-- The graphs of two sessions go together one by one. -/
structure Related (rel : γ → δ → Prop) (left : Session γ) (right : Session δ) : Prop where
  graph : rel left.graph right.graph
  clones : List.Forall₂ rel left.clones right.clones

theorem related_getD {rel : γ → δ → Prop} {lefts : List γ} {rights : List δ}
    (hrelated : List.Forall₂ rel lefts rights) {left : γ} {right : δ} (hrel : rel left right)
    (index : Nat) : rel (lefts[index]?.getD left) (rights[index]?.getD right) := by
  induction hrelated generalizing index with
  | nil => exact hrel
  | cons hhead _ ih =>
    cases index with
    | zero => exact hhead
    | succ index => exact ih index

section Related

variable {other : δ → Graph.Request → δ × Graph.Reply} {rel : γ → δ → Prop}
  {left : Session γ} {right : Session δ}

theorem Related.perform (hrelated : left.Related rel right)
    (hrespond : ∀ left right request, rel left right →
      rel (respond left request).1 (other right request).1 ∧
        (respond left request).2 = (other right request).2) (operation : Operation) :
    (left.perform respond operation).1.Related rel (right.perform other operation).1 ∧
      (left.perform respond operation).2 = (right.perform other operation).2 := by
  cases operation with
  | ask request =>
    obtain ⟨hnext, hreply⟩ := hrespond _ _ request hrelated.graph
    exact ⟨⟨hnext, hrelated.clones⟩, hreply⟩
  | clone =>
    exact ⟨⟨hrelated.graph, List.rel_append hrelated.clones (.cons hrelated.graph .nil)⟩, rfl⟩
  | restore index =>
    exact ⟨⟨related_getD hrelated.clones hrelated.graph index, hrelated.clones⟩, rfl⟩

/-- Sessions that answer alike step by step answer alike throughout. -/
theorem Related.performAll (hrelated : left.Related rel right)
    (hrespond : ∀ left right request, rel left right →
      rel (respond left request).1 (other right request).1 ∧
        (respond left request).2 = (other right request).2) (operations : List Operation) :
    (left.performAll respond operations).Related rel (right.performAll other operations) ∧
      left.replies respond operations = right.replies other operations := by
  induction operations generalizing left right with
  | nil => exact ⟨hrelated, rfl⟩
  | cons operation rest ih =>
    obtain ⟨hnext, hreply⟩ := hrelated.perform hrespond operation
    obtain ⟨hlast, hreplies⟩ := ih hnext
    exact ⟨hlast, congrArg₂ List.cons hreply hreplies⟩

end Related

end Session

/-! ### What requests keep -/

namespace Graph

variable {graph after : Graph} {id : NodeId} {holds : Graph → Prop}

/-- What every operation keeps, updates apart. -/
structure Upheld (holds : Graph → Prop) : Prop extends Inert holds where
  insertNode : ∀ {graph after : Graph} {node : Node} {id : NodeId}, holds graph →
    graph.insertNode node = .ok (id, after) → holds after
  insertEdge : ∀ {graph after : Graph} {edge : Edge} {done : Bool}, holds graph →
    graph.insertEdge edge = .ok (done, after) → holds after
  removeEdge : ∀ {graph : Graph} (key : EdgeKey), holds graph → holds (graph.removeEdge key).2
  withJournal : ∀ {graph : Graph} (journal : Option Delta), holds graph →
    holds { graph with journal }

theorem settle_holds {α : Type} (hgraph : holds graph) {result : Except GraphError (α × Graph)}
    (hresult : ∀ answer after, result = .ok (answer, after) → holds after) :
    holds (graph.settle result).1 := by
  cases result with
  | error error => exact hgraph
  | ok result => exact hresult result.1 result.2 rfl

theorem Upheld.respond (hupheld : Upheld holds) (hgraph : holds graph) {request : Request}
    (hupdate : ∀ id change, request = .updateNode id change →
      holds (graph.updateNode id change).1) : holds (graph.respond request).1 := by
  cases request with
  | insertNode node => exact settle_holds hgraph fun _ _ => hupheld.insertNode hgraph
  | updateNode id change => exact hupdate id change rfl
  | removeNode id => exact hupheld.toInert.removeNode id hgraph
  | insertEdge edge => exact settle_holds hgraph fun _ _ => hupheld.insertEdge hgraph
  | removeEdge key => exact hupheld.removeEdge key hgraph
  | beginJournal => exact hupheld.withJournal (some {}) hgraph
  | takeJournal => exact hupheld.withJournal none hgraph

theorem upheld_indexed : Upheld Indexed where
  toInert := inert_indexed
  insertNode := fun hindexed hinsert => hindexed.insertNode hinsert
  insertEdge := fun hindexed hinsert => hindexed.insertEdge hinsert
  removeEdge := fun key hindexed => hindexed.removeEdge key
  withJournal := fun journal hindexed => hindexed.withJournal journal

theorem Indexed.respond (hindexed : graph.Indexed) (request : Request) :
    (graph.respond request).1.Indexed :=
  upheld_indexed.respond hindexed fun id change _ => hindexed.updateNode id change

theorem Sound.insertNode (hsound : graph.Sound) {node : Node}
    (hinsert : graph.insertNode node = .ok (id, after)) : after.Sound := by
  have hfree : node.kind = .file → graph.files.get? node.path.tidy = none := by
    intro hkind
    by_contra htaken
    have hcontains : graph.files.contains node.path.tidy = true := by
      rw [← Bool.not_eq_false, Table.contains_eq_false_iff]
      exact htaken
    exact (appended_insertNode hinsert).2.free ⟨hkind, hcontains⟩
  obtain ⟨found, hrun, hinserted⟩ := exists_insertNode hsound node hfree
  obtain ⟨-, rfl⟩ := Prod.mk.inj (Except.ok.inj (hrun.symm.trans hinsert))
  exact hinserted.sound

/-- An update keeps the files in step unless a file is refused its path. -/
theorem Sound.updateNode (hsound : graph.Sound) {change : Node → Node}
    (hpath : ∀ path, (graph.updateNode id change).2 ≠ .error (.fileExists path)) :
    (graph.updateNode id change).1.Sound := by
  cases hbefore : graph.node? id with
  | none =>
    rw [Graph.updateNode, hbefore]
    exact hsound
  | some before =>
    obtain ⟨done, hdone⟩ : ∃ done, (graph.updateNode id change).2 = .ok done := by
      rcases updateNode_files hbefore change with ⟨done, hdone, -⟩ | ⟨-, -, hdone, -⟩ |
        ⟨-, -, -, hrefused, -⟩
      · exact ⟨done, hdone⟩
      · exact ⟨true, hdone⟩
      · exact absurd hrefused (hpath _)
    exact (updated_updateNode hsound hbefore (Prod.ext rfl hdone)).sound

theorem upheld_sound : Upheld Sound where
  toInert := inert_sound
  insertNode := fun hsound hinsert => hsound.insertNode hinsert
  insertEdge := by
    intro graph after edge done hsound hinsert
    obtain ⟨hkeys, hclosed⟩ := edges_insertEdge hinsert hsound.keys hsound.closed
    exact (rewired_of_edges hsound (sameNodes_insertEdge hinsert) hkeys hclosed).sound
  removeEdge := fun key hsound => (removeEdge_view hsound key).1.sound
  withJournal := by
    intro graph journal hsound
    have hsame : graph.SameView { graph with journal } := ⟨rfl, rfl, rfl, rfl⟩
    exact hsame.sound hsound

theorem Sound.respond (hsound : graph.Sound) {request : Request}
    (hreply : (graph.respond request).2.refused = false) : (graph.respond request).1.Sound := by
  refine upheld_sound.respond hsound fun id change hupdate => hsound.updateNode fun path hrefused => ?_
  subst hupdate
  have hrefuses : (graph.respond (.updateNode id change)).2 = .updated (.error (.fileExists path)) :=
    congrArg Reply.updated hrefused
  rw [hrefuses] at hreply
  cases hreply

def emptyFile (name : String) : Node where
  id := 0
  kind := .file
  name := none
  qualifiedName := ""
  path := ⟨name⟩
  range := default
  language := .python
  detail := .file [] [] []

end Graph

end CodeGraph
