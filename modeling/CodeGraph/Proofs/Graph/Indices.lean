import CodeGraph.Proofs.Graph.Removal
import CodeGraph.Proofs.Graph.Slots

/-!
# What the indices of a graph hold

Beside its nodes a graph keeps the places where they are stored, the last id that was given out and
the nodes of each name. Every operation keeps these in step with the nodes, also one that fails half
way: an update that is refused has changed the node and its name, and a removal that fails has
removed whole nodes only. The index of files is another matter, since an update that is refused
leaves it behind.
-/

namespace CodeGraph

/-! ### Ids in order -/

namespace IdSet

theorem pairwise_insert {ids : IdSet} (hids : ids.Pairwise (· < ·)) (id : Nat) :
    (insert id ids).Pairwise (· < ·) := by
  induction ids with
  | nil => exact List.pairwise_singleton _ _
  | cons head rest ih =>
    obtain ⟨hhead, hrest⟩ := List.pairwise_cons.1 hids
    rw [insert]
    split
    · rename_i hlt
      refine List.pairwise_cons.2 ⟨fun other hother => ?_, hids⟩
      obtain rfl | hother := List.mem_cons.1 hother
      · exact hlt
      · exact hlt.trans (hhead other hother)
    · split
      · exact hids
      · rename_i hge hne
        refine List.pairwise_cons.2 ⟨fun other hother => ?_, ih hrest⟩
        obtain rfl | hother := mem_insert.1 hother
        · omega
        · exact hhead other hother

theorem pairwise_remove {ids : IdSet} (hids : ids.Pairwise (· < ·)) (id : Nat) :
    (remove id ids).Pairwise (· < ·) :=
  hids.filter _

end IdSet

/-! ### Names -/

namespace NameIndex

variable {index : NameIndex} {name other : String} {id found : Nat}

/-- No name stands twice, and each stands with at least one node, in increasing order. -/
structure Sound (index : NameIndex) : Prop where
  keyed : index.table.Keyed
  filled : ∀ name ∈ index.table.keys, index.lookup name ≠ []
  increasing : ∀ name, (index.lookup name).Pairwise (· < ·)

theorem sound_empty : ({} : NameIndex).Sound where
  keyed := Table.keyed_empty
  filled := by
    intro name hname
    cases hname
  increasing := fun _ => List.Pairwise.nil

theorem mem_keys_of_lookup (hlookup : index.lookup name ≠ []) : name ∈ index.table.keys := by
  rw [lookup] at hlookup
  cases hget : index.table.get? name with
  | none =>
    rw [hget] at hlookup
    exact absurd rfl hlookup
  | some ids => exact List.mem_map.2 ⟨_, Table.mem_entries_of_get? hget, rfl⟩

theorem Sound.mem_keys_iff (hsound : index.Sound) :
    name ∈ index.table.keys ↔ ∃ id, id ∈ index.lookup name := by
  constructor
  · intro hmem
    exact List.exists_mem_of_ne_nil _ (hsound.filled name hmem)
  · rintro ⟨id, hid⟩
    exact mem_keys_of_lookup (List.ne_nil_of_mem hid)

theorem Sound.put (hsound : index.Sound) (name : String) {ids : IdSet}
    (hids : ids.Pairwise (· < ·)) : (index.put name ids).Sound := by
  have hkeys : ∀ other, other ∈ (index.put name ids).table.keys →
      other = name ∧ ids ≠ [] ∨ other ≠ name ∧ other ∈ index.table.keys := by
    intro other hother
    rw [NameIndex.put] at hother
    split at hother
    · obtain ⟨entry, hentry, rfl⟩ := List.mem_map.1 hother
      obtain ⟨hmem, hne⟩ := List.mem_filter.1 hentry
      exact .inr ⟨by simpa using hne, List.mem_map_of_mem hmem⟩
    · rename_i hfilled
      obtain ⟨entry, hentry, rfl⟩ := List.mem_map.1 hother
      obtain hold | hnew := List.mem_append.1 hentry
      · obtain ⟨hmem, hne⟩ := List.mem_filter.1 hold
        exact .inr ⟨by simpa using hne, List.mem_map_of_mem hmem⟩
      · obtain rfl := List.mem_singleton.1 hnew
        exact .inl ⟨rfl, fun hempty => hfilled (by rw [hempty]; rfl)⟩
  refine ⟨?_, fun other hother => ?_, fun other => ?_⟩
  · rw [NameIndex.put]
    split
    · exact hsound.keyed.erase name
    · exact hsound.keyed.put name ids
  · rw [lookup_put]
    obtain ⟨rfl, hne⟩ | ⟨hne, hold⟩ := hkeys other hother
    · rwa [if_pos rfl]
    · rw [if_neg hne]
      exact hsound.filled other hold
  · rw [lookup_put]
    split
    · exact hids
    · exact hsound.increasing other

theorem Sound.insert (hsound : index.Sound) (name : String) (id : Nat) :
    (index.insert name id).Sound :=
  hsound.put name (IdSet.pairwise_insert (hsound.increasing name) id)

theorem Sound.remove (hsound : index.Sound) (name : String) (id : Nat) :
    (index.remove name id).Sound :=
  hsound.put name (IdSet.pairwise_remove (hsound.increasing name) id)

theorem mem_lookup_insert : found ∈ (index.insert name id).lookup other ↔
    other = name ∧ found = id ∨ found ∈ index.lookup other := by
  rw [insert, lookup_put]
  split
  · rename_i heq
    rw [IdSet.mem_insert, heq]
    simp
  · rename_i hne
    simp [hne]

theorem mem_lookup_remove : found ∈ (index.remove name id).lookup other ↔
    found ∈ index.lookup other ∧ ¬ (other = name ∧ found = id) := by
  rw [remove, lookup_put]
  split
  · rename_i heq
    rw [IdSet.mem_remove, heq]
    simp
  · rename_i hne
    simp [hne]

theorem mem_lookup_insertSome {given : Option String} :
    found ∈ (index.insertSome given id).lookup other ↔
      given = some other ∧ found = id ∨ found ∈ index.lookup other := by
  cases given with
  | none => simp [insertSome]
  | some name =>
    refine mem_lookup_insert.trans (or_congr_left (and_congr_left' ?_))
    rw [Option.some.injEq, eq_comm]

theorem mem_lookup_removeSome {given : Option String} :
    found ∈ (index.removeSome given id).lookup other ↔
      found ∈ index.lookup other ∧ ¬ (given = some other ∧ found = id) := by
  cases given with
  | none => simp [removeSome]
  | some name =>
    refine mem_lookup_remove.trans (and_congr_right' (not_congr (and_congr_left' ?_)))
    rw [Option.some.injEq, eq_comm]

theorem Sound.insertSome (hsound : index.Sound) (given : Option String) (id : Nat) :
    (index.insertSome given id).Sound := by
  cases given with
  | none => exact hsound
  | some name => exact hsound.insert name id

theorem Sound.removeSome (hsound : index.Sound) (given : Option String) (id : Nat) :
    (index.removeSome given id).Sound := by
  cases given with
  | none => exact hsound
  | some name => exact hsound.remove name id

/-- Each name is listed once. -/
theorem Sound.nodup_names (hsound : index.Sound) : index.names.Nodup :=
  (List.mergeSort_perm _ _).nodup_iff.2 hsound.keyed

theorem Sound.mem_names_iff (hsound : index.Sound) :
    name ∈ index.names ↔ ∃ id, id ∈ index.lookup name := by
  rw [names, List.mem_mergeSort, hsound.mem_keys_iff]

end NameIndex

namespace Graph

variable {graph after : Graph} {id : NodeId}

/-- What the indices hold of ids, places, edges and names agrees with the nodes. -/
structure Indexed (graph : Graph) : Prop where
  ids : (graph.nodes.map Node.id).Nodup
  below : ∀ node ∈ graph.nodes, node.id < graph.nextId
  slots : graph.slots.Sound
  placed : ∀ id, id ∈ graph.slots.toList ↔ graph.contains id
  keys : (graph.edges.map Edge.key).Nodup
  closed : ∀ edge ∈ graph.edges, graph.contains edge.source ∧ graph.contains edge.target
  names : graph.names.Sound
  named : ∀ name id, id ∈ graph.named name ↔
    ∃ node, graph.node? id = some node ∧ node.name = some name

theorem indexed_empty : empty.Indexed where
  ids := List.nodup_nil
  below := by
    intro node hnode
    cases hnode
  slots := Slots.sound_empty
  placed := by
    intro id
    exact iff_of_false List.not_mem_nil Bool.false_ne_true
  keys := List.nodup_nil
  closed := by
    intro edge hedge
    cases hedge
  names := NameIndex.sound_empty
  named := by
    intro name id
    refine iff_of_false List.not_mem_nil ?_
    rintro ⟨node, hnode, -⟩
    cases hnode

theorem Indexed.node?_iff (hindexed : graph.Indexed) {node : Node} :
    graph.node? id = some node ↔ node ∈ graph.nodes ∧ node.id = id :=
  find?_key_iff hindexed.ids

theorem Indexed.edge?_iff (hindexed : graph.Indexed) {key : EdgeKey} {edge : Edge} :
    graph.edge? key = some edge ↔ edge ∈ graph.edges ∧ edge.key = key :=
  find?_key_iff hindexed.keys

theorem Indexed.lt_nextId (hindexed : graph.Indexed) (hlive : graph.contains id) :
    id < graph.nextId := by
  obtain ⟨node, hnode⟩ := contains_iff.1 hlive
  exact id_of_node? hnode ▸ hindexed.below node (mem_nodes_of_node? hnode)

/-! ### Storage -/

theorem Indexed.mem_nodesBySlot (hindexed : graph.Indexed) {node : Node} :
    node ∈ graph.nodesBySlot ↔ node ∈ graph.nodes := by
  rw [nodesBySlot, List.mem_filterMap]
  constructor
  · rintro ⟨id, -, hnode⟩
    exact mem_nodes_of_node? hnode
  · intro hmem
    have hnode := hindexed.node?_iff.2 ⟨hmem, rfl⟩
    exact ⟨node.id, (hindexed.placed node.id).2 (contains_of_node? hnode), hnode⟩

theorem Indexed.nodup_nodesBySlot (hindexed : graph.Indexed) :
    (graph.nodesBySlot.map Node.id).Nodup := by
  have hmap : graph.nodesBySlot.map Node.id = graph.slots.toList := by
    rw [nodesBySlot, List.map_filterMap]
    refine (List.filterMap_congr fun id hid => ?_).trans List.filterMap_some
    obtain ⟨node, hnode⟩ := contains_iff.1 ((hindexed.placed id).1 hid)
    rw [hnode, Option.map_some, id_of_node? hnode]
  rw [hmap]
  exact hindexed.slots.nodup

/-! ### Operations -/

theorem node?_eq_none_of_le (hbelow : ∀ node ∈ graph.nodes, node.id < graph.nextId)
    (hle : graph.nextId ≤ id) : graph.node? id = none := by
  cases hnode : graph.node? id with
  | none => rfl
  | some node =>
    have hlt := hbelow node (mem_nodes_of_node? hnode)
    rw [id_of_node? hnode] at hlt
    exact absurd hlt (Nat.not_lt_of_le hle)

/-- A node that is added is stored under an id that was never given out. -/
theorem Indexed.insertNode (hindexed : graph.Indexed) {node : Node}
    (hinsert : graph.insertNode node = .ok (id, after)) : after.Indexed := by
  obtain ⟨rfl, happended⟩ := appended_insertNode hinsert
  have hnames : after.names = graph.names.insertSome node.name graph.nextId := by
    rw [happended.names]
    cases node.name <;> rfl
  have hfresh : graph.node? graph.nextId = none :=
    node?_eq_none_of_le hindexed.below (Nat.le_refl _)
  have hnode := happended.node? hfresh
  have hlive : ∀ other, after.contains other ↔ other = graph.nextId ∨ graph.contains other := by
    intro other
    rw [contains, hnode]
    by_cases hother : other = graph.nextId
    · simp [hother]
    · simp [hother, contains]
  refine ⟨?_, fun other hother => ?_, ?_, fun other => ?_, happended.edges ▸ hindexed.keys,
    fun edge hedge => ?_, ?_, fun name other => ?_⟩
  · rw [happended.nodes, List.map_append]
    refine hindexed.ids.append (List.nodup_singleton _) fun other hold hnew => ?_
    obtain ⟨old, hmem, rfl⟩ := List.mem_map.1 hold
    exact (hindexed.below old hmem).ne (List.mem_singleton.1 hnew)
  · rw [happended.nextId]
    rcases List.mem_append.1 (happended.nodes ▸ hother) with hold | hnew
    · exact (hindexed.below other hold).trans (Nat.lt_succ_self _)
    · rw [List.mem_singleton.1 hnew]
      exact Nat.lt_succ_self _
  · rw [happended.slots]
    refine hindexed.slots.insert fun hmem => ?_
    exact not_contains_iff.2 hfresh ((hindexed.placed _).1 hmem)
  · rw [happended.slots, hindexed.slots.mem_insert, hlive, hindexed.placed]
  · obtain ⟨hsource, htarget⟩ := hindexed.closed edge (happended.edges ▸ hedge)
    exact ⟨(hlive _).2 (.inr hsource), (hlive _).2 (.inr htarget)⟩
  · rw [hnames]
    exact hindexed.names.insertSome _ _
  · have hnamed : other ∈ after.named name ↔
        node.name = some name ∧ other = graph.nextId ∨ other ∈ graph.named name := by
      rw [Graph.named, hnames, NameIndex.mem_lookup_insertSome, Graph.named]
    rw [hnamed, hindexed.named, hnode]
    by_cases hother : other = graph.nextId
    · subst hother
      simp [hfresh]
    · simp [hother]

theorem names_renameNode (graph : Graph) (id : NodeId) (old new : Option String) :
    (graph.renameNode id old new).names = graph.names.rename id old new := by
  unfold renameNode NameIndex.rename
  split
  · rfl
  · cases old <;> cases new <;> rfl

theorem mem_named_renameNode {old new : Option String} {other : NodeId} {name : String}
    (hold : ∀ name, id ∈ graph.named name ↔ old = some name) :
    other ∈ (graph.renameNode id old new).named name ↔
      if other = id then new = some name else other ∈ graph.named name := by
  rw [Graph.named, names_renameNode, NameIndex.rename]
  split
  · rename_i heq
    split
    · rename_i hsame
      rw [hsame, ← Graph.named, hold, heq]
    · rfl
  · rw [NameIndex.mem_lookup_insertSome, NameIndex.mem_lookup_removeSome, ← Graph.named]
    split
    · rename_i hsame
      subst hsame
      rw [hold]
      tauto
    · rename_i hne
      simp [hne]

theorem sound_names_renameNode (hnames : graph.names.Sound) (id : NodeId)
    (old new : Option String) : (graph.renameNode id old new).names.Sound := by
  rw [names_renameNode, NameIndex.rename]
  split
  · exact hnames
  · exact (hnames.removeSome old id).insertSome new id

/-- An update keeps the indices in step with the nodes, whatever it answers. -/
theorem Indexed.updateNode (hindexed : graph.Indexed) (id : NodeId) (change : Node → Node) :
    (graph.updateNode id change).1.Indexed := by
  cases hbefore : graph.node? id with
  | none =>
    rw [Graph.updateNode, hbefore]
    exact hindexed
  | some before =>
    have hretouched := retouched_updateNode hbefore change
    set new := changed before change
    set after := (graph.updateNode id change).1
    have hids : after.nodes.map Node.id = graph.nodes.map Node.id := by
      rw [hretouched.nodes, map_id_setNode]
    have hnode : ∀ other, after.node? other = if other = id then some new else graph.node? other :=
      node?_updateNode hbefore change
    have hlive : ∀ other, after.contains other = graph.contains other :=
      contains_updateNode graph id change
    refine ⟨hids ▸ hindexed.ids, fun other hother => ?_, hretouched.slots ▸ hindexed.slots,
      fun other => ?_, hretouched.edges ▸ hindexed.keys, fun edge hedge => ?_, ?_,
      fun name other => ?_⟩
    · obtain ⟨old, hold, hsame⟩ := List.mem_map.1 (hids ▸ List.mem_map_of_mem hother)
      rw [hretouched.nextId, ← hsame]
      exact hindexed.below old hold
    · rw [hretouched.slots, hlive]
      exact hindexed.placed other
    · rw [hlive, hlive]
      exact hindexed.closed edge (hretouched.edges ▸ hedge)
    · rw [hretouched.names]
      exact sound_names_renameNode hindexed.names id before.name new.name
    · have hheld : ∀ name, id ∈ graph.named name ↔ before.name = some name := by
        intro name
        rw [hindexed.named, hbefore]
        simp
      have hnamed : after.named name =
          (graph.renameNode id before.name new.name).named name := by
        rw [Graph.named, hretouched.names, Graph.named]
      rw [hnamed, mem_named_renameNode hheld, hnode]
      split
      · simp
      · exact hindexed.named name other

/-- A node that is dropped leaves its place, its name and its edges. -/
theorem Indexed.discard (hindexed : graph.Indexed) {node : Node}
    (hnode : graph.node? node.id = some node) : (graph.discard node).Indexed := by
  set after := graph.discard node
  have hnodes : after.nodes = graph.nodes.filter fun other => other.id ≠ node.id := rfl
  have hslots : after.slots = graph.slots.erase node.id := rfl
  have hedges : after.edges = graph.edges.filter fun edge => !edge.touches node.id := rfl
  have hnames : after.names = graph.names.removeSome node.name node.id := by
    unfold after Graph.discard
    cases node.name <;> rfl
  have hlive : ∀ other, after.contains other ↔ graph.contains other ∧ other ≠ node.id := by
    intro other
    rw [contains, node?_discard]
    by_cases hother : other = node.id
    · simp [hother]
    · simp [hother, contains]
  refine ⟨?_, fun other hother => ?_, ?_, fun other => ?_, ?_, fun edge hedge => ?_, ?_,
    fun name other => ?_⟩
  · exact (List.Sublist.map Node.id (hnodes ▸ List.filter_sublist)).nodup hindexed.ids
  · exact hindexed.below other (List.mem_filter.1 (hnodes ▸ hother)).1
  · rw [hslots]
    exact hindexed.slots.erase node.id
  · rw [hslots, hindexed.slots.mem_erase, hlive, hindexed.placed]
  · exact (List.Sublist.map Edge.key (hedges ▸ List.filter_sublist)).nodup hindexed.keys
  · obtain ⟨hmem, hkeeps⟩ := List.mem_filter.1 (hedges ▸ hedge)
    obtain ⟨hsource, htarget⟩ := hindexed.closed edge hmem
    have happart : edge.source ≠ node.id ∧ edge.target ≠ node.id := by
      simpa [Edge.touches] using hkeeps
    exact ⟨(hlive _).2 ⟨hsource, happart.1⟩, (hlive _).2 ⟨htarget, happart.2⟩⟩
  · rw [hnames]
    exact hindexed.names.removeSome _ _
  · have hheld : node.id ∈ graph.named name ↔ node.name = some name := by
      rw [hindexed.named, hnode]
      simp
    have hnamed : other ∈ after.named name ↔ other ∈ graph.named name ∧ other ≠ node.id := by
      rw [Graph.named, hnames, NameIndex.mem_lookup_removeSome, ← Graph.named]
      constructor
      · rintro ⟨hmem, hkept⟩
        refine ⟨hmem, ?_⟩
        rintro rfl
        exact hkept ⟨hheld.1 hmem, rfl⟩
      · rintro ⟨hmem, hne⟩
        exact ⟨hmem, fun h => hne h.2⟩
    rw [hnamed, hindexed.named, node?_discard]
    by_cases hother : other = node.id
    · simp [hother]
    · simp [hother]

theorem Indexed.of_sameNodes (hindexed : graph.Indexed) (hsame : graph.SameNodes after)
    (hkeys : (after.edges.map Edge.key).Nodup)
    (hclosed : ∀ edge ∈ after.edges, graph.contains edge.source ∧ graph.contains edge.target) :
    after.Indexed := by
  have hlive : ∀ other, after.contains other = graph.contains other := by
    intro other
    rw [contains, hsame.node?, contains]
  refine ⟨hsame.nodes ▸ hindexed.ids, ?_, hsame.slots ▸ hindexed.slots, fun other => ?_, hkeys, ?_,
    hsame.names ▸ hindexed.names, fun name other => ?_⟩
  · rw [hsame.nodes, hsame.nextId]
    exact hindexed.below
  · rw [hsame.slots, hlive]
    exact hindexed.placed other
  · simpa only [hlive] using hclosed
  · rw [Graph.named, hsame.names, hsame.node?]
    exact hindexed.named name other

theorem Indexed.insertEdge (hindexed : graph.Indexed) {edge : Edge} {done : Bool}
    (hinsert : graph.insertEdge edge = .ok (done, after)) : after.Indexed := by
  obtain ⟨hkeys, hclosed⟩ := edges_insertEdge hinsert hindexed.keys hindexed.closed
  exact hindexed.of_sameNodes (sameNodes_insertEdge hinsert) hkeys hclosed

theorem Indexed.removeEdge (hindexed : graph.Indexed) (key : EdgeKey) :
    (graph.removeEdge key).2.Indexed := by
  have hedges := edges_removeEdge graph key
  refine hindexed.of_sameNodes (sameNodes_removeEdge graph key) ?_ fun edge hedge => ?_
  · exact (List.Sublist.map Edge.key (hedges ▸ List.filter_sublist)).nodup hindexed.keys
  · exact hindexed.closed edge (List.mem_filter.1 (hedges ▸ hedge)).1

/-- What is recorded is not part of what the indices hold. -/
theorem Indexed.withJournal (hindexed : graph.Indexed) (journal : Option Delta) :
    { graph with journal }.Indexed :=
  hindexed.of_sameNodes ⟨rfl, rfl, rfl, rfl, rfl⟩ hindexed.keys hindexed.closed

/-! ### Removals that may fail half way -/

/-- What updates in place keep, and the dropping of a single node. -/
structure Inert (holds : Graph → Prop) : Prop where
  update : ∀ {graph : Graph} (id : NodeId) {change : Node → Node},
    (∀ node, (change node).path = node.path) → holds graph → holds (graph.updateNode id change).1
  discard : ∀ {graph : Graph} {node : Node}, graph.node? node.id = some node → holds graph →
    holds (graph.discard node)

section Inert

variable {holds : Graph → Prop}

theorem Inert.unbind (hinert : Inert holds) (node : Node) (hgraph : holds graph) :
    holds (graph.unbind node) :=
  List.foldlRecOn (motive := holds) _ _ hgraph fun _ hstate id _ =>
    hinert.update id (fun _ => Node.path_rebind _ _) hstate

theorem Inert.unlist (hinert : Inert holds) (node : Node) (hgraph : holds graph) :
    holds (graph.unlist node).1 := by
  rw [Graph.unlist]
  split
  · exact hgraph
  · split
    · exact hgraph
    · refine hinert.update _ (fun owner => ?_) hgraph
      rw [Node.unlist_eq_relist, Node.path_relist]

theorem Inert.removeLast (hinert : Inert holds) (node : Node) (hgraph : holds graph) :
    holds (graph.removeLast node).1 := by
  have hunlisted := hinert.unlist node (hinert.unbind node hgraph)
  rw [Graph.removeLast]
  split
  · rename_i unlisted error hresult
    rwa [hresult] at hunlisted
  · rename_i unlisted hresult
    rw [hresult] at hunlisted
    split
    · exact hunlisted
    · rename_i last hlast
      exact hinert.discard (by rw [id_of_node? hlast, hlast]) hunlisted

theorem Inert.removeEach {remove : Graph → NodeId → Graph × Except GraphError Node}
    (hremove : ∀ graph id, holds graph → holds (remove graph id).1) (ids : List NodeId)
    (hgraph : holds graph) : holds (removeEach remove ids graph).1 := by
  induction ids generalizing graph with
  | nil => exact hgraph
  | cons id rest ih =>
    have hnext := hremove graph id hgraph
    rw [Graph.removeEach]
    split
    · split
      · rename_i next _ hresult
        rw [hresult] at hnext
        exact ih hnext
      · rename_i next _ hresult
        rwa [hresult] at hnext
    · exact ih hgraph

/-- By induction on the depth, whether the removal succeeds or not. -/
theorem Inert.removeWithin (hinert : Inert holds) (depth : Nat) (id : NodeId)
    (hgraph : holds graph) : holds (removeWithin depth graph id).1 := by
  induction depth generalizing graph id with
  | zero => exact hgraph
  | succ depth ih =>
    rw [Graph.removeWithin]
    split
    · exact hgraph
    · rename_i node hnode
      have howned := Inert.removeEach (fun graph id => ih id) (graph.owned node) hgraph
      split
      · rename_i next _ hresult
        rwa [hresult] at howned
      · rename_i next hresult
        rw [hresult] at howned
        exact hinert.removeLast node howned

theorem Inert.removeNode (hinert : Inert holds) (id : NodeId) (hgraph : holds graph) :
    holds (graph.removeNode id).1 :=
  hinert.removeWithin graph.nodes.length id hgraph

end Inert

theorem inert_indexed : Inert Indexed where
  update := fun id change _ hindexed => hindexed.updateNode id change
  discard := fun hnode hindexed => hindexed.discard hnode

/-- Removals keep the files in step too, since they move no file. -/
theorem inert_sound : Inert Sound where
  update := by
    intro graph id change hpath hsound
    cases hbefore : graph.node? id with
    | none =>
      rw [Graph.updateNode, hbefore]
      exact hsound
    | some before =>
      obtain ⟨done, after, hrun, hupdated⟩ := exists_updateNode hsound change hbefore
        fun _ => .inl (hpath before)
      rw [hrun]
      exact hupdated.sound
  discard := fun hnode hsound => hsound.discard hnode

end Graph

end CodeGraph
