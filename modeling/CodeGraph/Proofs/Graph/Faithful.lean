import CodeGraph.Proofs.Graph.Agree
import CodeGraph.Proofs.Graph.Consistent

/-!
# What stored graphs answer

Whatever a stored graph was asked for, its two indices lead exactly to the nodes and the edges that it
stores, and what it answers about ids, keys and names is what is stored. What it answers about paths
is so too, until a file is refused the path that an update gives it.
-/

namespace CodeGraph

namespace Table

variable {κ : Type} [DecidableEq κ] {table : Table κ Nat} {slots : Slots κ}

theorem Indexes.nodup_toList (hindexes : table.Indexes slots) : slots.toList.Nodup := by
  rw [← List.map_id slots.toList]
  refine Slots.nodup_map_toList fun first second key other hfirst hsecond heq => ?_
  obtain rfl : key = other := heq
  have hother := (hindexes key second).2 hsecond
  exact Option.some.inj (((hindexes key first).2 hfirst).symm.trans hother)

/-- An index has as many entries as there are values. -/
theorem Indexes.size_eq (hindexes : table.Indexes slots) (hkeyed : table.Keyed) :
    table.size = slots.size := by
  have hmem : ∀ key, key ∈ table.keys ↔ key ∈ slots.toList := by
    intro key
    rw [Slots.mem_toList_iff, keys, List.mem_map]
    constructor
    · rintro ⟨⟨_, place⟩, hentry, rfl⟩
      exact ⟨place, (hindexes _ place).1 (hkeyed.mem_entries_iff.1 hentry)⟩
    · rintro ⟨place, hplace⟩
      exact ⟨(key, place), hkeyed.mem_entries_iff.2 ((hindexes key place).2 hplace), rfl⟩
  have hperm := (List.perm_ext_iff_of_nodup hkeyed hindexes.nodup_toList).2 hmem
  calc table.size = table.keys.length := (List.length_map _).symm
    _ = slots.size := hperm.length_eq

end Table

namespace StoredGraph

variable {stored : StoredGraph} {graph : Graph} {operations : List Session.Operation}

/-- What is found by an id, by a key or by a name is what is stored. -/
structure Faithful (stored : StoredGraph) : Prop where
  ids : stored.ids.Keyed
  ids_iff : ∀ id place, stored.ids.get? id = some place ↔
    ∃ node, stored.arena.node? place = some node ∧ node.id = id
  size_ids : stored.ids.size = stored.arena.cells.size
  node?_iff : ∀ id node, stored.node? id = some node ↔ node ∈ stored.arena.nodes ∧ node.id = id
  nodup_nodes : (stored.arena.nodes.map Node.id).Nodup
  lt_nextId : ∀ id, stored.contains id → id < stored.nextId
  keys : stored.edges.Keyed
  keys_iff : ∀ key place, stored.edges.get? key = some place ↔
    ∃ edge, stored.arena.edge? place = some edge ∧ edge.key = key
  size_keys : stored.edges.size = stored.arena.links.size
  edge?_iff : ∀ key edge, stored.edge? key = some edge ↔
    edge ∈ stored.arena.edges ∧ edge.key = key
  nodup_edges : (stored.arena.edges.map Edge.key).Nodup
  contains_ends : ∀ edge ∈ stored.arena.edges,
    stored.contains edge.source ∧ stored.contains edge.target
  /-- An edge joins the places of the nodes that it names. -/
  ends : ∀ place link, stored.arena.links.get? place = some link →
    stored.ids.get? link.edge.source = some link.source ∧
      stored.ids.get? link.edge.target = some link.target
  mem_edgesFrom_iff : ∀ id edge, edge ∈ stored.edgesFrom id ↔
    edge ∈ stored.arena.edges ∧ edge.source = id
  mem_edgesTo_iff : ∀ id edge, edge ∈ stored.edgesTo id ↔
    edge ∈ stored.arena.edges ∧ edge.target = id
  checkIndices : stored.checkIndices = .ok ()
  mem_named_iff : ∀ name id, id ∈ stored.named name ↔
    ∃ node, stored.node? id = some node ∧ node.name = some name
  increasing_named : ∀ name, (stored.named name).Pairwise (· < ·)
  mem_names_iff : ∀ name, name ∈ stored.names.names ↔
    ∃ node ∈ stored.arena.nodes, node.name = some name
  nodup_names : stored.names.names.Nodup

/-- What is found by a path is the file of that path. -/
def LocatesFiles (stored : StoredGraph) : Prop :=
  ∀ path id, stored.fileNode? path = some id ↔
    ∃ node, stored.node? id = some node ∧ node.kind = .file ∧ node.path.same path

/-! ### What is stored -/

theorem Sound.size_ids (hsound : stored.Sound) : stored.ids.size = stored.arena.cells.size := by
  rw [hsound.ids_iff.size_eq hsound.ids, Slots.size, Arena.ids, Slots.toList_map, List.length_map,
    Slots.size]

theorem Sound.size_keys (hsound : stored.Sound) :
    stored.edges.size = stored.arena.links.size := by
  rw [hsound.keys_iff.size_eq hsound.keys, Slots.size, Arena.keys, Slots.toList_map,
    List.length_map, Slots.size]

theorem Sound.nodup_edges (hsound : stored.Sound) : (stored.arena.edges.map Edge.key).Nodup := by
  have hnodup := hsound.keys_iff.nodup_toList
  rw [Arena.keys, Slots.toList_map] at hnodup
  rw [Arena.edges, List.map_map]
  exact hnodup

theorem Stores.mem_arena_edges (hstores : stored.Stores graph) (edge : Edge) :
    edge ∈ stored.arena.edges ↔ edge ∈ graph.edges := by
  rw [hstores.mem_edges, Arena.edges, List.mem_map]
  simp only [Slots.mem_toList_iff, Arena.edge?, Option.map_eq_some_iff]
  constructor
  · rintro ⟨link, ⟨place, hplace⟩, hedge⟩
    exact ⟨place, link, hplace, hedge⟩
  · rintro ⟨place, link, hplace, hedge⟩
    exact ⟨link, ⟨place, hplace⟩, hedge⟩

/-! ### What the check of the indices finds -/

theorem Sound.checkId_eq_ok (hsound : stored.Sound) {entry : NodeId × Nat}
    (hentry : entry ∈ stored.ids.entries) : stored.checkId entry = .ok () := by
  obtain ⟨cell, hcell, hid⟩ := hsound.exists_cell (hsound.ids.mem_entries_iff.1 hentry)
  rw [checkId, Arena.node?_eq hcell]
  exact if_pos hid

theorem Sound.checkEdge_eq_ok (hsound : stored.Sound) {edge : Edge}
    (hedge : edge ∈ stored.arena.edges) : stored.checkEdge edge = .ok () := by
  obtain ⟨link, hlink, rfl⟩ := List.mem_map.1 hedge
  obtain ⟨place, hplace⟩ := Slots.mem_toList_iff.1 hlink
  obtain ⟨hsource, htarget⟩ := hsound.ends place link hplace
  have hkey := hsound.place_of_link hplace
  simp [checkEdge, contains, hasEdge, Table.contains, hsource, htarget, hkey]

theorem Sound.checkIndices_eq_ok (hsound : stored.Sound) : stored.checkIndices = .ok () := by
  have hids : stored.ids.entries.forM stored.checkId = .ok () :=
    forM_eq_ok fun _ => hsound.checkId_eq_ok
  have hedges : stored.arena.edges.forM stored.checkEdge = .ok () :=
    forM_eq_ok fun _ => hsound.checkEdge_eq_ok
  rw [checkIndices, if_neg (not_not.2 hsound.size_ids), if_neg (not_not.2 hsound.size_keys), hids,
    hedges]
  rfl

/-- So the check of a stored graph finds what the check of the graph finds. -/
theorem Represents.check_eq (hrepresents : stored.Represents graph) (hindexed : graph.Indexed) :
    stored.check = graph.check := by
  have hedges : graph.edges.forM graph.checkEdge = .ok () := by
    refine forM_eq_ok fun edge hedge => ?_
    obtain ⟨hsource, htarget⟩ := hindexed.closed edge hedge
    rw [Graph.checkEdge, hsource, htarget]
    rfl
  rw [check, Graph.check, hrepresents.checkIndices_eq_ok, hedges, hrepresents.files,
    hrepresents.nodes, funext hrepresents.node?, funext hrepresents.contains]

/-! ### After any number of operations -/

theorem Represents.faithful (hrepresents : stored.Represents graph) (hindexed : graph.Indexed) :
    stored.Faithful where
  ids := hrepresents.ids
  ids_iff := fun id place => by
    rw [hrepresents.ids_iff id place, Arena.get?_ids]
    simp [Arena.node?]
  size_ids := hrepresents.size_ids
  node?_iff := fun id node => by
    rw [hrepresents.node?, hindexed.node?_iff, hrepresents.nodes, hindexed.mem_nodesBySlot]
  nodup_nodes := by
    rw [hrepresents.nodes]
    exact hindexed.nodup_nodesBySlot
  lt_nextId := fun id hlive => by
    rw [hrepresents.contains] at hlive
    exact hrepresents.nextId ▸ hindexed.lt_nextId hlive
  keys := hrepresents.keys
  keys_iff := fun key place => by
    rw [hrepresents.keys_iff key place, Arena.get?_keys]
    simp [Arena.edge?]
  size_keys := hrepresents.size_keys
  edge?_iff := fun key edge => by
    rw [hrepresents.edge? hindexed.keys, hindexed.edge?_iff, hrepresents.mem_arena_edges]
  nodup_edges := hrepresents.nodup_edges
  contains_ends := fun edge hedge => by
    rw [hrepresents.contains, hrepresents.contains]
    exact hindexed.closed edge ((hrepresents.mem_arena_edges edge).1 hedge)
  ends := hrepresents.ends
  mem_edgesFrom_iff := fun id edge => by
    rw [hrepresents.edgesFrom, Graph.edgesFrom, List.mem_filter, decide_eq_true_eq,
      hrepresents.mem_arena_edges]
  mem_edgesTo_iff := fun id edge => by
    rw [hrepresents.edgesTo, Graph.edgesTo, List.mem_filter, decide_eq_true_eq,
      hrepresents.mem_arena_edges]
  checkIndices := hrepresents.checkIndices_eq_ok
  mem_named_iff := fun name id => by
    rw [named, ← hrepresents.names, ← Graph.named, hindexed.named]
    simp only [hrepresents.node?]
  increasing_named := fun name => by
    rw [named, ← hrepresents.names]
    exact hindexed.names.increasing name
  mem_names_iff := fun name => by
    rw [← hrepresents.names, hrepresents.nodes]
    calc name ∈ graph.names.names ↔ ∃ id, id ∈ graph.named name := hindexed.names.mem_names_iff
      _ ↔ ∃ id node, graph.node? id = some node ∧ node.name = some name := by
        simp only [hindexed.named]
      _ ↔ ∃ node ∈ graph.nodesBySlot, node.name = some name := by
        simp only [hindexed.node?_iff, hindexed.mem_nodesBySlot]
        constructor
        · rintro ⟨id, node, ⟨hmem, -⟩, hname⟩
          exact ⟨node, hmem, hname⟩
        · rintro ⟨node, hmem, hname⟩
          exact ⟨node.id, node, ⟨hmem, rfl⟩, hname⟩
  nodup_names := hrepresents.names ▸ hindexed.names.nodup_names

theorem Represents.locatesFiles (hrepresents : stored.Represents graph) (hsound : graph.Sound) :
    stored.LocatesFiles := by
  intro path id
  rw [hrepresents.fileNode?, hsound.fileNode?_iff]
  simp only [Path.tidy_eq_tidy_iff, hrepresents.node?]

/-- **What a stored graph answers is what it stores, whatever it was asked for.** Paths are found as
long as no update gave a file the path of another. -/
theorem faithful_performAll (operations : List Session.Operation) :
    (Session.performAll respond { graph := .empty } operations).graph.Faithful ∧
      (Session.Unrefused respond { graph := .empty } operations →
        (Session.performAll respond { graph := .empty } operations).graph.LocatesFiles) := by
  obtain ⟨⟨⟨hrepresents, hindexed⟩, -⟩, hreplies⟩ := represents_performAll operations
  refine ⟨hrepresents.faithful hindexed, fun hunrefused => ?_⟩
  have hsame : Session.Unrefused Graph.respond { graph := .empty } operations := by
    rw [Session.Unrefused, ← hreplies]
    exact hunrefused
  have hsound := (Session.all_new Graph.sound_empty).performAll_of_unrefused
    (fun _ _ hsound => hsound.respond) hsame
  exact hrepresents.locatesFiles hsound.1

/-- Two files, one of which moves, a symbol with an edge to it, and a removal of both: the places that
they leave are taken again, and then the copy that was put aside is taken up. -/
def comings : List Session.Operation :=
  let symbol : Node :=
    ⟨0, .functionDef, some "f", "f", ⟨"b.py"⟩, default, .python, .symbol none true⟩
  [.ask (.insertNode (Graph.emptyFile "a.py")), .ask (.insertNode (Graph.emptyFile "b.py")),
    .ask (.insertNode symbol), .ask (.insertEdge (.structural 2 3 .contains)),
    .ask (.updateNode 1 fun node => { node with path := ⟨"c.py"⟩ }), .clone, .ask (.removeNode 2),
    .ask (.insertNode symbol), .restore 0, .ask (.removeEdge ⟨2, 3, .contains⟩)]

theorem comings_locatesFiles :
    Session.Unrefused respond { graph := .empty } comings ∧
      (Session.performAll respond { graph := .empty } comings).graph.LocatesFiles :=
  ⟨by decide +kernel, (faithful_performAll comings).2 (by decide +kernel)⟩

/-- A file that was refused the path of another has that path all the same, and is found by its old
one only. -/
example : let stored := (Session.performAll respond { graph := .empty } <| List.map .ask [
      .insertNode (Graph.emptyFile "a.py"), .insertNode (Graph.emptyFile "b.py"),
      .updateNode 1 fun node => { node with path := ⟨"b.py"⟩ }]).graph
    (stored.node? 1).map Node.path = some ⟨"b.py"⟩ ∧ stored.fileNode? ⟨"b.py"⟩ = some 2 ∧
      stored.fileNode? ⟨"a.py"⟩ = some 1 := by
  decide +kernel

/-- **A stored graph that passes the check finds every file by its path**, whatever was refused. -/
theorem locatesFiles_of_check
    (hcheck : (Session.performAll respond { graph := .empty } operations).graph.check = .ok ()) :
    (Session.performAll respond { graph := .empty } operations).graph.LocatesFiles := by
  obtain ⟨⟨⟨hrepresents, hindexed⟩, -⟩, -⟩ := represents_performAll operations
  rw [hrepresents.check_eq hindexed] at hcheck
  exact hrepresents.locatesFiles (Graph.sound_of_check hcheck)

end StoredGraph

end CodeGraph
