import CodeGraph.Graph.Consistency
import CodeGraph.Proofs.Except
import CodeGraph.Proofs.Graph.Session
import Mathlib.Data.List.Perm.Subperm

/-!
# What the check of a graph vouches for

The check looks through the index of files and not through the files, so by itself it would miss a
file that the index has lost. But no operation leaves fewer entries than files: where one file loses
its entry to another, an entry is left behind that is out of order. So where all entries are in order,
each file has one.
-/

namespace CodeGraph

namespace Table

variable {κ α : Type} [DecidableEq κ] {table : Table κ α} {key : κ}

theorem size_put_of_absent (habsent : table.get? key = none) (value : α) :
    (table.put key value).size = table.size + 1 := by
  have hsame : table.entries.filter (fun entry => entry.1 ≠ key) = table.entries := by
    refine List.filter_eq_self.2 fun entry hentry => ?_
    rw [get?, Option.map_eq_none_iff] at habsent
    simpa using List.find?_eq_none.1 habsent entry hentry
  rw [size, put, erase, hsame, List.length_append, List.length_singleton, size]

theorem mem_entries_put {entry : κ × α} {value : α}
    (hentry : entry ∈ (table.put key value).entries) :
    entry = (key, value) ∨ entry ∈ table.entries := by
  obtain hold | hnew := List.mem_append.1 hentry
  · exact .inr (List.mem_filter.1 hold).1
  · exact .inl (List.mem_singleton.1 hnew)

/-- Where no key stands twice, one entry goes at most. -/
theorem Keyed.size_le_erase (hkeyed : table.Keyed) (key : κ) :
    table.size ≤ (table.erase key).size + 1 := by
  have hgone : (table.entries.filter fun entry => entry.1 = key).length ≤ 1 := by
    rw [← List.countP_eq_length_filter]
    calc table.entries.countP (fun entry => entry.1 = key) = table.keys.count key := by
          rw [keys, List.count, List.countP_map]
          exact List.countP_congr fun entry _ => by simp
      _ ≤ 1 := List.nodup_iff_count_le_one.1 hkeyed key
  have hsplit := List.length_eq_length_filter_add (l := table.entries) fun entry => entry.1 = key
  have hkept : (table.erase key).size =
      (table.entries.filter fun entry => !(entry.1 = key)).length := by
    rw [size, Table.erase]
    simp
  rw [size, hkept]
  omega

end Table

namespace Graph

variable {graph after : Graph} {id : NodeId}

/-- What is true of the index of files whatever was refused: it holds files that were given out, and
no fewer of them than there are. -/
structure Filed (graph : Graph) : Prop where
  keyed : graph.files.Keyed
  tidy : ∀ entry ∈ graph.files.entries, entry.1.tidy = entry.1
  given : ∀ entry ∈ graph.files.entries, entry.2 < graph.nextId
  kind : ∀ entry ∈ graph.files.entries, ∀ node, graph.node? entry.2 = some node → node.kind = .file
  enough : (graph.nodesOfKind .file).length ≤ graph.files.size

theorem filed_empty : empty.Filed where
  keyed := Table.keyed_empty
  tidy := fun _ hentry => by cases hentry
  given := fun _ hentry => by cases hentry
  kind := fun _ hentry => by cases hentry
  enough := Nat.le_refl 0

/-! ### What keeps the index long enough -/

theorem Filed.insertNode (hfiled : graph.Filed) (hindexed : graph.Indexed) {node : Node}
    (hinsert : graph.insertNode node = .ok (id, after)) : after.Filed := by
  obtain ⟨rfl, happended⟩ := appended_insertNode hinsert
  have hnode := happended.node? (node?_eq_none_of_le hindexed.below (Nat.le_refl _))
  have hcount : (after.nodesOfKind .file).length =
      (graph.nodesOfKind .file).length + if node.kind = .file then 1 else 0 := by
    rw [nodesOfKind, happended.nodes, List.filter_append, List.length_append, nodesOfKind]
    split <;> simp [*]
  have hentries : ∀ entry ∈ after.files.entries,
      node.kind = .file ∧ entry = (node.path.tidy, graph.nextId) ∨ entry ∈ graph.files.entries := by
    intro entry hentry
    rw [happended.files] at hentry
    split at hentry
    · rename_i hkind
      exact (Table.mem_entries_put hentry).imp_left fun h => ⟨hkind, h⟩
    · exact .inr hentry
  refine ⟨?_, fun entry hentry => ?_, fun entry hentry => ?_, fun entry hentry other hother => ?_,
    ?_⟩
  · rw [happended.files]
    split
    · exact hfiled.keyed.put _ _
    · exact hfiled.keyed
  · obtain ⟨-, rfl⟩ | hold := hentries entry hentry
    · exact Path.tidy_tidy node.path
    · exact hfiled.tidy entry hold
  · rw [happended.nextId]
    obtain ⟨-, rfl⟩ | hold := hentries entry hentry
    · exact Nat.lt_succ_self _
    · exact (hfiled.given entry hold).trans (Nat.lt_succ_self _)
  · rw [hnode] at hother
    obtain ⟨hkind, rfl⟩ | hold := hentries entry hentry
    · rw [if_pos rfl] at hother
      exact Option.some.inj hother ▸ hkind
    · rw [if_neg (hfiled.given entry hold).ne] at hother
      exact hfiled.kind entry hold other hother
  · rw [hcount, happended.files]
    split
    · rename_i hkind
      have habsent : graph.files.get? node.path.tidy = none := by
        refine Table.contains_eq_false_iff.1 (Bool.not_eq_true _ ▸ fun htaken => ?_)
        exact happended.free ⟨hkind, htaken⟩
      rw [Table.size_put_of_absent habsent]
      exact Nat.succ_le_succ hfiled.enough
    · exact hfiled.enough

/-- A node that changes stays of its kind. -/
theorem Indexed.length_nodesOfKind_setNode (hindexed : graph.Indexed) {before node : Node}
    (hbefore : graph.node? node.id = some before) (hkind : node.kind = before.kind)
    (kind : NodeKind) :
    ((graph.setNode node).nodesOfKind kind).length = (graph.nodesOfKind kind).length := by
  rw [nodesOfKind, setNode, List.filter_map, List.length_map, nodesOfKind]
  refine congrArg List.length (List.filter_congr fun old hold => ?_)
  rw [Function.comp_apply]
  split
  · rename_i hid
    have hsame := hindexed.node?_iff.2 ⟨hold, hid⟩
    rw [hkind, ← Option.some.inj (hbefore.symm.trans hsame)]
  · rfl

/-- A node that is found after an update was there before, and is of the kind that it was. -/
theorem exists_old_of_updateNode {before : Node} (hbefore : graph.node? id = some before)
    (change : Node → Node) {other : NodeId} {node : Node}
    (hother : (graph.updateNode id change).1.node? other = some node) :
    ∃ old, graph.node? other = some old ∧ node.kind = old.kind := by
  rw [node?_updateNode hbefore] at hother
  split at hother
  · rename_i heq
    exact ⟨before, heq ▸ hbefore, Option.some.inj hother ▸ rfl⟩
  · exact ⟨node, hother, rfl⟩

theorem Filed.updateNode (hfiled : graph.Filed) (hindexed : graph.Indexed) (id : NodeId)
    (change : Node → Node) : (graph.updateNode id change).1.Filed := by
  cases hbefore : graph.node? id with
  | none =>
    rw [Graph.updateNode, hbefore]
    exact hfiled
  | some before =>
    have hretouched := retouched_updateNode hbefore change
    have hnode := @exists_old_of_updateNode graph id before hbefore change
    set after := (graph.updateNode id change).1
    have hcount : (after.nodesOfKind .file).length = (graph.nodesOfKind .file).length := by
      rw [nodesOfKind, hretouched.nodes]
      have hchanged : graph.node? (changed before change).id = some before :=
        (id_of_node? hbefore).symm ▸ hbefore
      exact hindexed.length_nodesOfKind_setNode hchanged rfl .file
    have hstays : after.files = graph.files → after.Filed := by
      intro hfiles
      refine ⟨hfiles ▸ hfiled.keyed, hfiles ▸ hfiled.tidy, ?_, fun entry hentry node hother => ?_,
        ?_⟩
      · rw [hfiles, hretouched.nextId]
        exact hfiled.given
      · obtain ⟨old, hold, hkind⟩ := hnode hother
        exact hkind.trans (hfiled.kind entry (hfiles ▸ hentry) old hold)
      · rw [hcount, hfiles]
        exact hfiled.enough
    rcases updateNode_files hbefore change with ⟨-, -, hfiles, -⟩ | ⟨hkind, hfree, -, hfiles⟩ |
      ⟨-, -, -, -, hfiles⟩
    · exact hstays hfiles
    · have hentries : ∀ entry ∈ after.files.entries,
          entry = ((change before).path.tidy, id) ∨ entry ∈ graph.files.entries := by
        intro entry hentry
        rw [hfiles] at hentry
        exact (Table.mem_entries_put hentry).imp_right fun hold => (List.mem_filter.1 hold).1
      refine ⟨hfiles ▸ (hfiled.keyed.erase _).put _ _, fun entry hentry => ?_,
        fun entry hentry => ?_, fun entry hentry node hother => ?_, ?_⟩
      · obtain rfl | hold := hentries entry hentry
        · exact Path.tidy_tidy _
        · exact hfiled.tidy entry hold
      · rw [hretouched.nextId]
        obtain rfl | hold := hentries entry hentry
        · exact hindexed.lt_nextId (contains_of_node? hbefore)
        · exact hfiled.given entry hold
      · obtain ⟨old, hold, hsame⟩ := hnode hother
        rw [hsame]
        obtain rfl | hentry := hentries entry hentry
        · exact Option.some.inj (hbefore.symm.trans hold) ▸ hkind
        · exact hfiled.kind entry hentry old hold
      · have habsent :
            (graph.files.erase before.path.tidy).get? (change before).path.tidy = none := by
          rw [Table.get?_erase, hfree, ite_self]
        rw [hcount, hfiles, Table.size_put_of_absent habsent]
        exact hfiled.enough.trans (hfiled.keyed.size_le_erase _)
    · exact hstays hfiles

theorem Filed.discard (hfiled : graph.Filed) {node : Node}
    (hnode : graph.node? node.id = some node) : (graph.discard node).Filed := by
  set after := graph.discard node
  have hnodes : after.nodes = graph.nodes.filter fun other => other.id ≠ node.id := rfl
  have hfiles : after.files =
      if node.kind = .file then graph.files.erase node.path.tidy else graph.files := rfl
  have hentries : ∀ entry ∈ after.files.entries, entry ∈ graph.files.entries := by
    intro entry hentry
    rw [hfiles] at hentry
    split at hentry
    · exact (List.mem_filter.1 hentry).1
    · exact hentry
  refine ⟨?_, fun entry hentry => hfiled.tidy entry (hentries entry hentry),
    fun entry hentry => hfiled.given entry (hentries entry hentry),
    fun entry hentry other hother => ?_, ?_⟩
  · rw [hfiles]
    split
    · exact hfiled.keyed.erase _
    · exact hfiled.keyed
  · rw [node?_discard] at hother
    split at hother
    · cases hother
    · exact hfiled.kind entry (hentries entry hentry) other hother
  · have hcount : after.nodesOfKind .file = graph.nodes.filter fun other =>
        decide (other.kind = .file) && decide (other.id ≠ node.id) := by
      rw [nodesOfKind, hnodes, List.filter_filter]
    rw [hcount, hfiles]
    split
    · rename_i hkind
      have hfewer : (graph.nodes.filter fun other =>
          decide (other.kind = .file) && decide (other.id ≠ node.id)).length <
          (graph.nodesOfKind .file).length :=
        length_filter_lt (fun _ hother => (Bool.and_eq_true_iff.1 hother).1)
          (mem_nodes_of_node? hnode) (decide_eq_true hkind) (by simp)
      have hleast := hfiled.keyed.size_le_erase node.path.tidy
      have henough := hfiled.enough
      omega
    · refine Nat.le_trans ?_ hfiled.enough
      rw [nodesOfKind]
      refine (List.monotone_filter_right _ fun other hother => ?_).length_le
      exact (Bool.and_eq_true_iff.1 hother).1

theorem Filed.of_sameNodes (hfiled : graph.Filed) (hsame : graph.SameNodes after) :
    after.Filed := by
  refine ⟨hsame.files ▸ hfiled.keyed, hsame.files ▸ hfiled.tidy, ?_, ?_, ?_⟩
  · rw [hsame.files, hsame.nextId]
    exact hfiled.given
  · simp only [hsame.files, hsame.node?]
    exact hfiled.kind
  · rw [nodesOfKind, hsame.nodes, hsame.files]
    exact hfiled.enough

/-- The indices of ids and names are in step with the nodes, and the index of files is long enough. -/
def Kept (graph : Graph) : Prop :=
  graph.Indexed ∧ graph.Filed

theorem Kept.updateNode (hkept : graph.Kept) (id : NodeId) (change : Node → Node) :
    (graph.updateNode id change).1.Kept :=
  ⟨hkept.1.updateNode id change, hkept.2.updateNode hkept.1 id change⟩

theorem upheld_kept : Upheld Kept where
  update := fun id _ _ hkept => hkept.updateNode id _
  discard := fun hnode hkept => ⟨hkept.1.discard hnode, hkept.2.discard hnode⟩
  insertNode := fun hkept hinsert =>
    ⟨hkept.1.insertNode hinsert, hkept.2.insertNode hkept.1 hinsert⟩
  insertEdge := fun hkept hinsert =>
    ⟨hkept.1.insertEdge hinsert, hkept.2.of_sameNodes (sameNodes_insertEdge hinsert)⟩
  removeEdge := fun key hkept =>
    ⟨hkept.1.removeEdge key, hkept.2.of_sameNodes (sameNodes_removeEdge _ key)⟩
  withJournal := fun journal hkept =>
    ⟨hkept.1.withJournal journal, hkept.2.of_sameNodes ⟨rfl, rfl, rfl, rfl, rfl⟩⟩

/-! ### What the check finds -/

/-- Where every entry is in order, every file has one: the entries stand for as many files as there
are. -/
theorem Kept.sound_of_check (hkept : graph.Kept) (hcheck : graph.check = .ok ()) : graph.Sound := by
  obtain ⟨hindexed, hfiled⟩ := hkept
  rw [check] at hcheck
  obtain ⟨_, _, hrest⟩ := exists_of_bind_eq_ok hcheck
  obtain ⟨_, hentries, _⟩ := exists_of_bind_eq_ok hrest
  have hshown : ∀ entry ∈ graph.files.entries, ∃ node, graph.node? entry.2 = some node ∧
      node.kind = .file ∧ node.path.tidy = entry.1 := by
    intro entry hentry
    have hchecked := forall_of_forM_eq_ok hentries entry hentry
    rw [checkFile] at hchecked
    split at hchecked
    · rename_i node hnode
      split at hchecked
      · rename_i hsame
        exact ⟨node, hnode, hfiled.kind entry hentry node hnode,
          (Path.tidy_eq_tidy_iff.2 hsame).trans (hfiled.tidy entry hentry)⟩
      · cases hchecked
    · cases hchecked
  have hnodup : (graph.files.entries.map Prod.snd).Nodup := by
    refine (List.nodup_map_iff_inj_on (List.Nodup.of_map _ hfiled.keyed)).2 fun first hfirst second
      hsecond hsame => ?_
    obtain ⟨node, hnode, -, hpath⟩ := hshown first hfirst
    obtain ⟨other, hother, -, hpath'⟩ := hshown second hsecond
    rw [← hsame, hnode] at hother
    exact Prod.ext (hpath.symm.trans (Option.some.inj hother ▸ hpath')) hsame
  have hall : ∀ other, other ∈ (graph.nodesOfKind .file).map Node.id →
      other ∈ graph.files.entries.map Prod.snd := by
    have hsubset : graph.files.entries.map Prod.snd ⊆ (graph.nodesOfKind .file).map Node.id := by
      intro other hother
      obtain ⟨entry, hentry, rfl⟩ := List.mem_map.1 hother
      obtain ⟨node, hnode, hkind, -⟩ := hshown entry hentry
      exact List.mem_map.2 ⟨node, List.mem_filter.2 ⟨mem_nodes_of_node? hnode, decide_eq_true hkind⟩,
        id_of_node? hnode⟩
    have hperm := (List.subperm_of_subset hnodup hsubset).perm_of_length_le (by
      rw [List.length_map, List.length_map]
      exact hfiled.enough)
    exact fun other hother => hperm.symm.subset hother
  refine ⟨hindexed.ids, hindexed.below, hindexed.keys, hindexed.closed, hfiled.keyed,
    fun path id => ⟨fun hget => ?_, ?_⟩⟩
  · obtain ⟨node, hnode⟩ := hshown (path, id) (Table.mem_entries_of_get? hget)
    exact ⟨node, hnode⟩
  · rintro ⟨node, hnode, hkind, hpath⟩
    have hmem := hall id (List.mem_map.2 ⟨node,
      List.mem_filter.2 ⟨mem_nodes_of_node? hnode, decide_eq_true hkind⟩, id_of_node? hnode⟩)
    obtain ⟨entry, hentry, rfl⟩ := List.mem_map.1 hmem
    obtain ⟨found, hfound, -, htidy⟩ := hshown entry hentry
    rw [hnode] at hfound
    obtain rfl := Option.some.inj hfound
    exact hfiled.keyed.mem_entries_iff.1 (hpath ▸ htidy ▸ hentry)

/-- **A graph that passes the check finds every file by its path**, whatever was done to it and
whatever was refused. -/
theorem sound_of_check {operations : List Session.Operation}
    (hcheck : (Session.performAll respond { graph := .empty } operations).graph.check = .ok ()) :
    (Session.performAll respond { graph := .empty } operations).graph.Sound := by
  have hkept : Session.All Kept (Session.performAll respond { graph := .empty } operations) :=
    (Session.all_new ⟨indexed_empty, filed_empty⟩).performAll
      (fun _ _ hkept => upheld_kept.respond hkept fun id change _ => hkept.updateNode id change) _
  exact hkept.1.sound_of_check hcheck

end Graph

end CodeGraph
