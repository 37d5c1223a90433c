import CodeGraph.Proofs.Graph.Session
import CodeGraph.Proofs.Graph.Stored

/-!
# Stored graphs answer alike

Where a stored graph stands for a graph, every operation on the one answers as the same operation on
the other does, and what it leaves stands for what that leaves. So no index is ever found out of step.
-/

namespace CodeGraph.StoredGraph

variable {stored : StoredGraph} {graph : Graph} {id : NodeId} {place : Nat} {α : Type}

/-! ### Answers -/

/-- The same answer, and what is left stands for what the graph becomes. -/
def Agrees (result : StoredGraph × α) (expected : Graph × α) : Prop :=
  result.1.Represents expected.1 ∧ result.2 = expected.2

theorem Agrees.map {result : StoredGraph × α} {expected : Graph × α}
    (hagrees : Agrees result expected) (reply : α → Graph.Reply) :
    Agrees (result.1, reply result.2) (expected.1, reply expected.2) :=
  ⟨hagrees.1, congrArg reply hagrees.2⟩

/-- Both operations fail with one error, or both succeed with one answer. -/
theorem Agrees.cases {result : StoredGraph × Except GraphError α}
    {expected : Graph × Except GraphError α} (hagrees : Agrees result expected) :
    (∃ after next error, result = (after, .error error) ∧ expected = (next, .error error) ∧
      after.Represents next) ∨
    ∃ after next answer, result = (after, .ok answer) ∧ expected = (next, .ok answer) ∧
      after.Represents next := by
  obtain ⟨after, outcome⟩ := result
  obtain ⟨next, _⟩ := expected
  obtain ⟨hafter, rfl⟩ : after.Represents next ∧ outcome = _ := hagrees
  cases outcome with
  | error error => exact .inl ⟨after, next, error, rfl, rfl, hafter⟩
  | ok answer => exact .inr ⟨after, next, answer, rfl, rfl, hafter⟩

theorem Represents.record (hrepresents : stored.Represents graph) (entry : Delta) :
    (stored.record entry).Represents (graph.record entry) where
  toStores := hrepresents.toStores.of_same rfl rfl rfl rfl rfl rfl
  names := hrepresents.names
  files := hrepresents.files
  nextId := hrepresents.nextId
  journal := by
    rw [Graph.record, StoredGraph.record, hrepresents.journal]

theorem Represents.withFiles (hrepresents : stored.Represents graph) (files : Table Path NodeId) :
    Represents { stored with files } { graph with files } where
  toStores := hrepresents.toStores.of_same rfl rfl rfl rfl rfl rfl
  names := hrepresents.names
  files := rfl
  nextId := hrepresents.nextId
  journal := hrepresents.journal

theorem Represents.rename (hrepresents : stored.Represents graph) (id : NodeId)
    (old new : Option String) :
    Represents { stored with names := stored.names.rename id old new }
      (graph.renameNode id old new) := by
  have hsame := Graph.sameView_renameNode graph id old new
  have hother : (graph.renameNode id old new).slots = graph.slots ∧
      (graph.renameNode id old new).journal = graph.journal := by
    unfold Graph.renameNode
    split <;> exact ⟨rfl, rfl⟩
  refine ⟨hrepresents.toStores.of_same rfl rfl rfl hsame.nodes hsame.edges hother.1, ?_,
    hsame.files.trans hrepresents.files, hsame.nextId.trans hrepresents.nextId,
    hother.2.trans hrepresents.journal⟩
  rw [Graph.names_renameNode, hrepresents.names]

theorem agrees_beginJournal (hrepresents : stored.Represents graph) :
    stored.beginJournal.Represents graph.beginJournal where
  toStores := hrepresents.toStores.of_same rfl rfl rfl rfl rfl rfl
  names := hrepresents.names
  files := hrepresents.files
  nextId := hrepresents.nextId
  journal := rfl

theorem agrees_takeJournal (hrepresents : stored.Represents graph) :
    Agrees stored.takeJournal graph.takeJournal.swap where
  left :=
    { toStores := hrepresents.toStores.of_same rfl rfl rfl rfl rfl rfl
      names := hrepresents.names
      files := hrepresents.files
      nextId := hrepresents.nextId
      journal := rfl }
  right := by
    rw [takeJournal, Graph.takeJournal, hrepresents.journal]
    rfl

theorem agrees_insertNode (hrepresents : stored.Represents graph) (hindexed : graph.Indexed)
    (node : Node) : Agrees (stored.insertNode node) (graph.settle (graph.insertNode node)) := by
  have hnext := hrepresents.nextId
  have hfresh : graph.node? stored.nextId = none :=
    Graph.node?_eq_none_of_le hindexed.below hnext.le
  have hclosed : ∀ edge ∈ graph.edges,
      edge.source ≠ stored.nextId ∧ edge.target ≠ stored.nextId := by
    intro edge hedge
    obtain ⟨hsource, htarget⟩ := hindexed.closed edge hedge
    rw [← hnext]
    exact ⟨(hindexed.lt_nextId hsource).ne, (hindexed.lt_nextId htarget).ne⟩
  have hadded := hrepresents.toStores.addNode { node with id := stored.nextId } hfresh hclosed
  rw [StoredGraph.insertNode, Graph.insertNode, hrepresents.files]
  split
  · exact ⟨hrepresents, rfl⟩
  · refine ⟨⟨hadded.of_same rfl rfl rfl ?_ rfl ?_, ?_, ?_, ?_, ?_⟩, congrArg Except.ok hnext.symm⟩
    · simp only [Graph.settle, Graph.record, hnext]
    · simp only [Graph.settle, Graph.record, hnext]
    · simp only [Graph.settle, Graph.record, StoredGraph.record, hnext, hrepresents.names]
      cases node.name <;> rfl
    · simp only [Graph.settle, Graph.record, StoredGraph.record, hnext]
    · simp only [Graph.settle, Graph.record, StoredGraph.record, hnext]
    · simp only [Graph.settle, Graph.record, StoredGraph.record, hnext, hrepresents.journal]

theorem agrees_updateNode (hrepresents : stored.Represents graph) (id : NodeId)
    (change : Node → Node) : Agrees (stored.updateNode id change) (graph.updateNode id change) := by
  rw [StoredGraph.updateNode, Graph.updateNode, ← hrepresents.node?, StoredGraph.node?]
  cases hplace : stored.ids.get? id with
  | none => exact ⟨hrepresents, rfl⟩
  | some place =>
    obtain ⟨cell, hcell, -⟩ := hrepresents.exists_cell hplace
    simp only [Option.bind_some, Arena.node?_eq hcell]
    set after : Node := { change cell.node with id, kind := cell.node.kind }
    have hset : Represents { stored with arena := stored.arena.setNode place after }
        (graph.setNode after) :=
      ⟨hrepresents.toStores.setNode hplace, hrepresents.names, hrepresents.files,
        hrepresents.nextId, hrepresents.journal⟩
    have hrenamed := hset.rename id cell.node.name after.name
    have hfiles : ((graph.setNode after).renameNode id cell.node.name
        (change cell.node).name).files = stored.files := hrenamed.files
    split
    · exact ⟨hset, rfl⟩
    · simp only [hfiles]
      split
      · split
        · exact ⟨hrenamed, rfl⟩
        · exact ⟨(hrenamed.withFiles _).record _, rfl⟩
      · exact ⟨hrenamed.record _, rfl⟩

theorem agrees_insertEdge (hrepresents : stored.Represents graph) (hindexed : graph.Indexed)
    (edge : Edge) : Agrees (stored.insertEdge edge) (graph.settle (graph.insertEdge edge)) := by
  have hlive : ∀ id, graph.contains id ↔ ∃ place, stored.ids.get? id = some place := by
    intro id
    rw [← hrepresents.contains, StoredGraph.contains, Table.contains, Option.isSome_iff_exists]
  rw [StoredGraph.insertEdge, Graph.insertEdge]
  cases hsource : stored.ids.get? edge.source with
  | none =>
    have hdead : ¬ graph.contains edge.source := by simp [hlive, hsource]
    rw [if_pos (.inl hdead)]
    exact ⟨hrepresents, rfl⟩
  | some source =>
    cases htarget : stored.ids.get? edge.target with
    | none =>
      have hdead : ¬ graph.contains edge.target := by simp [hlive, htarget]
      rw [if_pos (.inr hdead)]
      exact ⟨hrepresents, rfl⟩
    | some target =>
      have hboth : graph.contains edge.source ∧ graph.contains edge.target :=
        ⟨(hlive _).2 ⟨source, hsource⟩, (hlive _).2 ⟨target, htarget⟩⟩
      rw [if_neg (by simp [hboth]), ← hrepresents.edge? hindexed.keys, StoredGraph.edge?]
      cases hplace : stored.edges.get? edge.key with
      | none =>
        refine ⟨Represents.record ⟨hrepresents.toStores.addEdge hplace hsource htarget,
          hrepresents.names, hrepresents.files, hrepresents.nextId, hrepresents.journal⟩ _, rfl⟩
      | some place =>
        obtain ⟨link, hlink, -⟩ := hrepresents.exists_link hplace
        simp only [Option.bind_some, Arena.edge?_eq hlink]
        split
        · exact ⟨hrepresents, rfl⟩
        · refine ⟨Represents.record ⟨hrepresents.toStores.setEdge hplace, hrepresents.names,
            hrepresents.files, hrepresents.nextId, hrepresents.journal⟩ _, rfl⟩

theorem agrees_removeEdge (hrepresents : stored.Represents graph) (hindexed : graph.Indexed)
    (key : EdgeKey) : Agrees (stored.removeEdge key) (graph.removeEdge key).swap := by
  rw [StoredGraph.removeEdge, Graph.removeEdge, ← hrepresents.edge? hindexed.keys,
    StoredGraph.edge?]
  cases hplace : stored.edges.get? key with
  | none => exact ⟨hrepresents, rfl⟩
  | some place =>
    obtain ⟨link, hlink, -⟩ := hrepresents.exists_link hplace
    have hremoved := hrepresents.toStores.removeEdge hplace
    have hanswer : (stored.arena.removeEdge place).1 = some link.edge := by
      rw [Arena.removeEdge, hlink]
    simp only [Option.bind_some, Arena.edge?_eq hlink]
    split
    · rename_i hnone
      rw [hnone] at hanswer
      cases hanswer
    · rename_i edge arena hsome
      rw [hsome] at hanswer hremoved
      refine ⟨Represents.record ⟨hremoved, hrepresents.names, hrepresents.files,
        hrepresents.nextId, hrepresents.journal⟩ _, hanswer⟩

/-! ### Removal -/

theorem touching_eq (hstores : stored.Stores graph) (hplace : stored.ids.get? id = some place) :
    stored.touching place = (graph.edgesFrom id ++ graph.edgesTo id).map Edge.key := by
  rw [touching, hstores.edgesFrom_eq hplace, hstores.edgesTo_eq hplace]

theorem mem_touching (hstores : stored.Stores graph) (hplace : stored.ids.get? id = some place)
    {edge : Nat} {link : Link} (hlink : stored.arena.links.get? edge = some link) :
    link.edge.key ∈ stored.touching place ↔ link.edge.touches id = true := by
  have htouches : ∀ other : Edge, other.key = link.edge.key →
      (other.touches id = link.edge.touches id) := by
    intro other hkey
    obtain ⟨hsource, htarget, -⟩ := EdgeKey.mk.inj hkey
    rw [Edge.touches, hsource, htarget, Edge.touches]
  have hmem := (hstores.mem_edges link.edge).2 ⟨edge, Arena.edge?_eq hlink⟩
  rw [touching_eq hstores hplace, List.mem_map]
  simp only [List.mem_append, Graph.edgesFrom, Graph.edgesTo, List.mem_filter, decide_eq_true_eq]
  constructor
  · rintro ⟨other, ⟨-, hsource⟩ | ⟨-, htarget⟩, hkey⟩
    · rw [← htouches other hkey, Edge.touches, hsource]
      simp
    · rw [← htouches other hkey, Edge.touches, htarget]
      simp
  · intro htouch
    have hend : link.edge.source = id ∨ link.edge.target = id := by
      simpa [Edge.touches] using htouch
    exact ⟨link.edge, hend.imp (⟨hmem, ·⟩) (⟨hmem, ·⟩), rfl⟩

/-- All that forgetting keys does. -/
theorem forget_eq (stored : StoredGraph) (keys : List EdgeKey) :
    stored.forget keys = { stored with
      edges := keys.foldl Table.erase stored.edges
      journal := stored.journal.map fun delta => delta.merge { removedEdges := keys } } := by
  induction keys generalizing stored with
  | nil =>
    have hnothing : ∀ delta : Delta, delta.merge {} = delta := fun delta => by simp [Delta.merge]
    simp [forget, hnothing]
  | cons key rest ih =>
    have htwice : ∀ delta : Delta, (delta.merge { removedEdges := [key] }).merge
        { removedEdges := rest } = delta.merge { removedEdges := key :: rest } :=
      fun delta => by simp [Delta.merge]
    rw [forget, List.foldl_cons, ← forget, ih]
    simp [record, Function.comp_def, htwice]

section Emptied

variable {arena : Arena} {gone : List Nat}

/-- What is stored once a node is out of its place and out of the index, and so is every edge at
either end of it. -/
def emptied (stored : StoredGraph) (place : Nat) (id : NodeId) (arena : Arena) : StoredGraph :=
  { stored with
    arena
    ids := stored.ids.erase id
    edges := (stored.touching place).foldl Table.erase stored.edges }

theorem Sound.mem_gone_iff (hsound : stored.Sound)
    (hempties : stored.arena.Empties place gone arena) (hplace : stored.ids.get? id = some place)
    {edge : Nat} {link : Link} (hlink : stored.arena.links.get? edge = some link) :
    edge ∈ gone ↔ link.edge.touches id = true := by
  rw [hempties.mem_gone, hlink]
  simp only [Option.some.injEq, exists_eq_left', hsound.source_eq_iff hlink hplace,
    hsound.target_eq_iff hlink hplace, Edge.touches, Bool.or_eq_true, decide_eq_true_eq]

theorem Stores.sound_emptied (hstores : stored.Stores graph)
    (hempties : stored.arena.Empties place gone arena)
    (hplace : stored.ids.get? id = some place) : (stored.emptied place id arena).Sound := by
  have hkeys : ∀ other, arena.keys.get? other =
      if other ∈ gone then none else stored.arena.keys.get? other := by
    intro other
    rw [Arena.keys, Slots.get?_map, hempties.links, Arena.keys, Slots.get?_map]
    split <;> rfl
  refine ⟨hempties.sound, hstores.ids.erase _, hstores.keys.foldl_erase _,
    hstores.ids_iff.erase hplace fun other => hempties.ids ▸ Slots.get?_vacate _ _ _,
    hstores.keys_iff.eraseAll _ _ (fun key edge hkey => ?_) hkeys, fun edge link hlink => ?_⟩
  · obtain ⟨link, hlink, rfl⟩ := hstores.exists_link hkey
    rw [mem_touching hstores hplace hlink, hstores.mem_gone_iff hempties hplace hlink]
  · rw [emptied, hempties.links] at hlink
    split at hlink
    · cases hlink
    · rename_i hkept
      rw [hstores.mem_gone_iff hempties hplace hlink, Edge.touches, Bool.or_eq_true,
        decide_eq_true_eq, decide_eq_true_eq, not_or] at hkept
      rw [emptied, Table.get?_erase, Table.get?_erase, if_neg hkept.1, if_neg hkept.2]
      exact hstores.ends edge link hlink

/-- Every other node is where it was, but for edges that are off its lists. -/
theorem Sound.cells_emptied (hsound : stored.Sound)
    (hempties : stored.arena.Empties place gone arena) (hplace : stored.ids.get? id = some place)
    {other : NodeId} {elsewhere : Nat} (hne : other ≠ id)
    (hother : stored.ids.get? other = some elsewhere) :
    arena.cells.get? elsewhere =
      (stored.arena.cells.get? elsewhere).map fun cell => cell.unlinkAll gone := by
  rw [hempties.cells, if_neg]
  rintro rfl
  exact hne (hsound.id_inj hother hplace)

theorem Stores.node?_emptied (hstores : stored.Stores graph)
    (hempties : stored.arena.Empties place gone arena) (hplace : stored.ids.get? id = some place)
    (other : NodeId) :
    (stored.emptied place id arena).node? other =
      if other = id then none else graph.node? other := by
  rw [StoredGraph.node?, emptied, Table.get?_erase]
  split
  · rfl
  · rename_i hne
    rw [← hstores.node?, StoredGraph.node?]
    refine Option.bind_congr fun elsewhere hother => ?_
    rw [Arena.node?, hstores.cells_emptied hempties hplace hne hother, Option.map_map, Arena.node?]
    exact Option.map_congr fun cell _ => cell.node_unlinkAll gone

/-- The edges that stay are on the lists as before. -/
theorem Stores.lined_emptied (hstores : stored.Stores graph)
    (hempties : stored.arena.Empties place gone arena) (hplace : stored.ids.get? id = some place)
    {next : Graph} (hedges : next.edges = graph.edges.filter fun edge => !edge.touches id)
    {list : Cell → List Nat} {stand : Edge → NodeId} {pick : Link → Nat}
    (hlined : stored.Lined graph list stand) (hlists : stored.arena.Lists list pick)
    (htouches : ∀ edge : Edge, stand edge = id → edge.touches id = true)
    (hunlink : ∀ cell : Cell, list (cell.unlinkAll gone) = (list cell).filter (· ∉ gone)) :
    (stored.emptied place id arena).Lined next list stand := by
  refine Lined.filter hlined hlists (fun other => ?_) hedges hempties.links
    (fun edge link hlink => ?_) fun other elsewhere hother => ?_
  · rw [emptied, Table.get?_erase]
    by_cases hother : other = id
    · subst hother
      rw [if_pos rfl, hedges]
      refine .inr ⟨rfl, List.filter_eq_nil_iff.2 fun edge hedge hstand => ?_⟩
      have hkept := (List.mem_filter.1 hedge).2
      rw [htouches edge (of_decide_eq_true hstand)] at hkept
      cases hkept
    · exact .inl (if_neg hother)
  · rw [hstores.mem_gone_iff hempties hplace hlink, Bool.not_eq_true', Bool.not_eq_true]
  · rw [emptied, Table.get?_erase] at hother
    split at hother
    · cases hother
    · rename_i hne
      rw [emptied, Arena.listAt, hstores.cells_emptied hempties hplace hne hother, Arena.listAt,
        Option.map_map, Option.map_map]
      exact Option.map_congr fun cell _ => hunlink cell

/-- A node goes out of its place and out of the indices, and so does every edge at either end. -/
theorem Stores.discard (hstores : stored.Stores graph) (hindexed : graph.Indexed) {node : Node}
    (hnode : graph.node? node.id = some node) (hplace : stored.ids.get? node.id = some place) :
    ∃ arena, stored.arena.removeNode place = (some node, arena) ∧
      (stored.emptied place node.id arena).Stores (graph.discard node) := by
  obtain ⟨cell, hcell, hid⟩ := hstores.exists_cell hplace
  obtain rfl : cell.node = node :=
    Option.some.inj ((hstores.node?_eq hcell).symm.trans ((hstores.node? _).trans (hid ▸ hnode)))
  obtain ⟨gone, arena, hrun, hempties⟩ := hstores.arena.exists_removeNode hcell
  have hheld : graph.slots.get? place = some cell.node.id := by
    rw [hstores.slots]
    exact Arena.get?_ids.2 ⟨cell, hcell, rfl⟩
  refine ⟨arena, hrun, hstores.sound_emptied hempties hplace, fun other => ?_,
    hstores.mem_edges_filter hempties.links fun edge link hlink => ?_,
    hstores.lined_emptied hempties hplace rfl hstores.edgesFrom hstores.arena.leaving
      (fun edge hedge => by simp [Edge.touches, hedge]) fun found => found.leaving_unlinkAll gone,
    hstores.lined_emptied hempties hplace rfl hstores.edgesTo hstores.arena.entering
      (fun edge hedge => by simp [Edge.touches, hedge]) fun found => found.entering_unlinkAll gone,
    ?_⟩
  · rw [hstores.node?_emptied hempties hplace, Graph.node?_discard]
  · rw [hstores.mem_gone_iff hempties hplace hlink, Bool.not_eq_true', Bool.not_eq_true]
  · calc (graph.discard cell.node).slots = graph.slots.vacate place :=
          hindexed.slots.erase_eq_vacate hheld
      _ = arena.ids := by rw [hempties.ids, hstores.slots]

end Emptied

theorem agrees_discard (hrepresents : stored.Represents graph) (hindexed : graph.Indexed)
    {node : Node} (hnode : graph.node? node.id = some node) :
    Agrees (stored.discard node.id) (graph.discard node, .ok node) := by
  obtain ⟨place, cell, hplace, -, -⟩ := hrepresents.exists_place hnode
  obtain ⟨arena, hrun, hstores⟩ := hrepresents.toStores.discard hindexed hnode hplace
  rw [StoredGraph.discard, hplace]
  simp only [forget_eq, hrun]
  refine ⟨⟨hstores.of_same rfl rfl rfl rfl rfl rfl, ?_, ?_, hrepresents.nextId, ?_⟩, rfl⟩
  · rw [Graph.discard, hrepresents.names]
    cases node.name <;> rfl
  · rw [Graph.discard, hrepresents.files]
    rfl
  · rw [Graph.discard, Graph.record, hrepresents.journal, touching_eq hrepresents.toStores hplace]
    simp [StoredGraph.record, Function.comp_def, Delta.merge]

/-- Changes that leave paths alone are never refused. -/
theorem agrees_updateEach (hrepresents : stored.Represents graph) {change : Node → Node}
    (hpath : ∀ node, (change node).path = node.path) {ids : List NodeId}
    (hlive : ∀ id ∈ ids, graph.contains id) :
    Agrees (updateEach change ids stored)
      (ids.foldl (fun graph id => graph.modifyNode id change) graph, .ok ()) := by
  induction ids generalizing stored graph with
  | nil => exact ⟨hrepresents, rfl⟩
  | cons id rest ih =>
    obtain ⟨before, hbefore⟩ := Graph.contains_iff.1 (hlive id List.mem_cons_self)
    obtain ⟨hafter, hanswer⟩ := agrees_updateNode hrepresents id change
    obtain ⟨done, hdone⟩ : ∃ done, (graph.updateNode id change).2 = .ok done := by
      rcases Graph.updateNode_files hbefore change with ⟨done, hdone, -⟩ | ⟨-, -, hdone, -⟩ |
        ⟨-, -, hmoves, -⟩
      · exact ⟨done, hdone⟩
      · exact ⟨true, hdone⟩
      · exact absurd (hpath before).symm hmoves
    have hrest := ih hafter fun other hother => by
      rw [Graph.contains_updateNode]
      exact hlive other (List.mem_cons_of_mem id hother)
    rw [updateEach]
    split
    · rename_i middle _ hrun
      rw [hrun] at hrest
      exact hrest
    · rename_i hrun
      rw [hrun, hdone] at hanswer
      cases hanswer

theorem agrees_unbind (hrepresents : stored.Represents graph) (node : Node) :
    Agrees (stored.unbind node) (graph.unbind node, .ok ()) := by
  have hbound : stored.boundTo node.id = graph.boundTo node.id := by
    rw [StoredGraph.boundTo, Graph.boundTo, hrepresents.edgesTo]
    simp only [hrepresents.node?]
  rw [StoredGraph.unbind, Graph.unbind, hbound]
  refine agrees_updateEach hrepresents (fun _ => Node.path_rebind _ _) fun id hid => ?_
  obtain ⟨-, owner, howner, -⟩ := Graph.mem_boundTo_iff.1 hid
  exact Graph.contains_of_node? howner

theorem agrees_unlist (hrepresents : stored.Represents graph) (node : Node) :
    Agrees (stored.unlist node) (graph.unlist node) := by
  rw [StoredGraph.unlist, Graph.unlist, hrepresents.fileNode?]
  cases if node.kind = .file then none else graph.fileNode? node.path with
  | none => exact ⟨hrepresents, rfl⟩
  | some file =>
    by_cases hself : file = node.id
    · simp only [if_pos hself]
      exact ⟨hrepresents, rfl⟩
    · simp only [if_neg hself]
      obtain ⟨hafter, hanswer⟩ :=
        agrees_updateNode hrepresents file fun owner => owner.unlist node.id
      exact ⟨hafter, congrArg (Except.map fun _ => ()) hanswer⟩

theorem agrees_removeLast (hrepresents : stored.Represents graph) (hindexed : graph.Indexed)
    (node : Node) : Agrees (stored.removeLast node) (graph.removeLast node) := by
  have hunindexed := Graph.inert_indexed.unbind node hindexed
  have hlistless := Graph.inert_indexed.unlist node hunindexed
  rw [StoredGraph.removeLast, Graph.removeLast]
  obtain ⟨_, _, _, -, hrun, -⟩ | ⟨unbound, _, _, hrun, hsame, hunbound⟩ :=
    (agrees_unbind hrepresents node).cases
  · cases (Prod.mk.inj hrun).2
  obtain ⟨rfl, -⟩ := Prod.mk.inj hsame
  obtain ⟨after, next, error, hleft, hright, hafter⟩ | ⟨after, next, _, hleft, hright, hafter⟩ :=
    (agrees_unlist hunbound node).cases
  · simp only [hrun, hleft, hright]
    exact ⟨hafter, rfl⟩
  · rw [hright] at hlistless
    simp only [hrun, hleft, hright]
    cases hlast : next.node? node.id with
    | none =>
      rw [StoredGraph.discard, hafter.ids_eq_none hlast]
      exact ⟨hafter, rfl⟩
    | some last =>
      have hid := Graph.id_of_node? hlast
      have hdiscarded := agrees_discard hafter hlistless (hid.symm ▸ hlast)
      rwa [hid] at hdiscarded

theorem agrees_removeEach
    {remove : StoredGraph → NodeId → StoredGraph × Except GraphError Node}
    {expected : Graph → NodeId → Graph × Except GraphError Node}
    (hremove : ∀ stored graph id, stored.Represents graph → graph.Indexed →
      Agrees (remove stored id) (expected graph id))
    (hexpected : ∀ graph id, graph.Indexed → (expected graph id).1.Indexed) (ids : List NodeId)
    (hrepresents : stored.Represents graph) (hindexed : graph.Indexed) :
    Agrees (removeEach remove ids stored) (Graph.removeEach expected ids graph) := by
  induction ids generalizing stored graph with
  | nil => exact ⟨hrepresents, rfl⟩
  | cons id rest ih =>
    rw [StoredGraph.removeEach, Graph.removeEach, hrepresents.contains]
    split
    · have hnext := hexpected graph id hindexed
      obtain ⟨after, next, error, hleft, hright, hafter⟩ |
          ⟨after, next, answer, hleft, hright, hafter⟩ :=
        (hremove stored graph id hrepresents hindexed).cases
      · simp only [hleft, hright]
        exact ⟨hafter, rfl⟩
      · rw [hright] at hnext
        simp only [hleft, hright]
        exact ih hafter hnext
    · exact ih hrepresents hindexed

/-- By induction on the depth, whether the removal succeeds or not. -/
theorem agrees_removeWithin (depth : Nat) (hrepresents : stored.Represents graph)
    (hindexed : graph.Indexed) (id : NodeId) :
    Agrees (removeWithin depth stored id) (Graph.removeWithin depth graph id) := by
  induction depth generalizing stored graph id with
  | zero => exact ⟨hrepresents, rfl⟩
  | succ depth ih =>
    rw [StoredGraph.removeWithin, Graph.removeWithin, hrepresents.node?]
    cases hnode : graph.node? id with
    | none => exact ⟨hrepresents, rfl⟩
    | some node =>
      have howned : stored.owned node = graph.owned node := by
        rw [StoredGraph.owned, Graph.owned, hrepresents.edgesFrom]
      have hremoved : ∀ graph id, Graph.Indexed graph →
          (Graph.removeWithin depth graph id).1.Indexed :=
        fun graph id hgraph => Graph.inert_indexed.removeWithin depth id hgraph
      have hnext := Graph.Inert.removeEach hremoved (graph.owned node) hindexed
      obtain ⟨after, next, error, hleft, hright, hafter⟩ |
          ⟨after, next, _, hleft, hright, hafter⟩ :=
        (agrees_removeEach (fun _ _ id hrep hind => ih hrep hind id) hremoved (graph.owned node)
          hrepresents hindexed).cases
      · simp only [howned, hleft, hright]
        exact ⟨hafter, rfl⟩
      · rw [hright] at hnext
        simp only [howned, hleft, hright]
        exact agrees_removeLast hafter hnext node

theorem agrees_removeNode (hrepresents : stored.Represents graph) (hindexed : graph.Indexed)
    (id : NodeId) : Agrees (stored.removeNode id) (graph.removeNode id) := by
  rw [StoredGraph.removeNode, Graph.removeNode, hrepresents.size_cells hindexed]
  exact agrees_removeWithin _ hrepresents hindexed id

/-! ### Sessions -/

theorem agrees_respond (hrepresents : stored.Represents graph) (hindexed : graph.Indexed)
    (request : Graph.Request) : Agrees (stored.respond request) (graph.respond request) := by
  cases request with
  | insertNode node => exact (agrees_insertNode hrepresents hindexed node).map .inserted
  | updateNode id change => exact (agrees_updateNode hrepresents id change).map .updated
  | removeNode id => exact (agrees_removeNode hrepresents hindexed id).map .removed
  | insertEdge edge => exact (agrees_insertEdge hrepresents hindexed edge).map .linked
  | removeEdge key => exact (agrees_removeEdge hrepresents hindexed key).map .unlinked
  | beginJournal => exact ⟨agrees_beginJournal hrepresents, rfl⟩
  | takeJournal => exact (agrees_takeJournal hrepresents).map .taken

/-- A stored graph that is asked for any operations stands for the graph that is asked for the same,
and gives the same replies. -/
theorem represents_performAll (operations : List Session.Operation) :
    Session.Related (fun stored graph => stored.Represents graph ∧ graph.Indexed)
        (Session.performAll respond { graph := .empty } operations)
        (Session.performAll Graph.respond { graph := .empty } operations) ∧
      Session.replies respond { graph := .empty } operations =
        Session.replies Graph.respond { graph := .empty } operations := by
  refine Session.Related.performAll ⟨⟨represents_empty, Graph.indexed_empty⟩, .nil⟩ ?_ operations
  rintro stored graph request ⟨hrepresents, hindexed⟩
  obtain ⟨hnext, hreply⟩ := agrees_respond hrepresents hindexed request
  exact ⟨⟨hnext, hindexed.respond request⟩, hreply⟩

end CodeGraph.StoredGraph
