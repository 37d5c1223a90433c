import CodeGraph.Proofs.Graph.Evolve

/-!
# What the journal accounts for

Whatever a small step changes, it records: a node that the record does not name is there afterwards as
it was before, with the same edges. Records are put one after the other, so the same is true of any
number of steps.

An update is not recorded when all that changed is how a path is spelled, so nodes are compared with
their paths in the one spelling that `tidy` picks.
-/

namespace CodeGraph

theorem IdSet.mem_ofList {id : Nat} {ids : List Nat} : id ∈ ofList ids ↔ id ∈ ids := by
  suffices h : ∀ set, id ∈ ids.foldl (fun set other => insert other set) set ↔
      id ∈ ids ∨ id ∈ set from (h []).trans (by simp)
  induction ids with
  | nil => simp
  | cons head rest ih =>
    intro set
    rw [List.foldl_cons, ih, mem_insert, List.mem_cons]
    tauto

namespace Delta

variable {id : NodeId} {delta first second : Delta}

/-- The nodes and the edge keys that a record lists. -/
theorem mem_changedNodes : id ∈ delta.changedNodes ↔
    (id ∈ delta.addedNodes ∨ id ∈ delta.removedNodes ∨ id ∈ delta.modifiedNodes) ∨
      ∃ key, (key ∈ delta.addedEdges ∨ key ∈ delta.removedEdges ∨ key ∈ delta.modifiedEdges) ∧
        (key.source = id ∨ key.target = id) := by
  simp only [changedNodes, IdSet.mem_ofList, List.mem_append, List.mem_flatMap, List.mem_cons,
    List.not_mem_nil, or_false, or_assoc, eq_comm]

theorem mem_changedNodes_merge : id ∈ (first.merge second).changedNodes ↔
    id ∈ first.changedNodes ∨ id ∈ second.changedNodes := by
  simp only [mem_changedNodes, merge, List.mem_append]
  constructor
  · rintro (hnode | ⟨key, hkey, hend⟩)
    · tauto
    · obtain hkey | hkey : (key ∈ first.addedEdges ∨ key ∈ first.removedEdges ∨
          key ∈ first.modifiedEdges) ∨ (key ∈ second.addedEdges ∨ key ∈ second.removedEdges ∨
          key ∈ second.modifiedEdges) := by tauto
      · exact .inl (.inr ⟨key, hkey, hend⟩)
      · exact .inr (.inr ⟨key, hkey, hend⟩)
  · rintro ((hnode | ⟨key, hkey, hend⟩) | (hnode | ⟨key, hkey, hend⟩))
    · tauto
    · exact .inr ⟨key, by tauto, hend⟩
    · tauto
    · exact .inr ⟨key, by tauto, hend⟩

/-- A record without entries names no node. -/
theorem changedNodes_eq_nil (hnone : delta.mutationCount = 0) : delta.changedNodes = [] := by
  simp only [mutationCount, Nat.add_eq_zero_iff, List.length_eq_zero_iff] at hnone
  obtain ⟨⟨⟨⟨⟨hadded, hremoved⟩, hmodified⟩, haddedEdges⟩, hremovedEdges⟩, hmodifiedEdges⟩ := hnone
  rw [changedNodes, hadded, hremoved, hmodified, haddedEdges, hremovedEdges, hmodifiedEdges]
  rfl

theorem merge_empty (delta : Delta) : delta.merge {} = delta := by
  simp only [merge, List.append_nil]

theorem merge_assoc (first second third : Delta) :
    (first.merge second).merge third = first.merge (second.merge third) := by
  simp only [merge, List.append_assoc]

end Delta

/-- The node with its path in the one spelling. -/
def Node.tidied (node : Node) : Node :=
  { node with path := node.path.tidy }

theorem Node.tidied_eq_of_same {left right : Node} (hsame : left.same right = true) :
    left.tidied = right.tidied := by
  obtain ⟨hpath, hrest⟩ := Bool.and_eq_true_iff.1 hsame
  have htidy : left.path.tidy = right.path.tidy := by
    rw [Path.tidy, Path.tidy, of_decide_eq_true hpath]
  have hfields := congrArg tidied (of_decide_eq_true hrest)
  rwa [tidied, ← htidy] at hfields

theorem Path.IsPlain.tidied_eq {node : Node} (hplain : node.path.IsPlain) :
    node.tidied = node := by
  rw [Node.tidied, hplain.tidy_eq]

theorem Edge.touches_iff {edge : Edge} {id : NodeId} :
    edge.touches id = true ↔ edge.source = id ∨ edge.target = id := by
  rw [touches, Bool.or_eq_true, decide_eq_true_eq, decide_eq_true_eq]

namespace Graph

/-- A node that is there before and after or neither, shows the same and has the same edges. -/
structure AlikeAt (before after : Graph) (id : NodeId) : Prop where
  node : (after.node? id).map Node.tidied = (before.node? id).map Node.tidied
  edges : ∀ edge : Edge, edge.touches id = true → (edge ∈ after.edges ↔ edge ∈ before.edges)

/-- The journal, if there is one, goes on by an entry that accounts for every difference. -/
structure Records (before after : Graph) (entry : Delta) : Prop where
  journal : after.journal = before.journal.map fun delta => delta.merge entry
  alike : ∀ id, id ∉ entry.changedNodes → before.AlikeAt after id

theorem AlikeAt.trans {first second third : Graph} {id : NodeId} (hfirst : first.AlikeAt second id)
    (hsecond : second.AlikeAt third id) : first.AlikeAt third id :=
  ⟨hsecond.node.trans hfirst.node,
    fun edge htouches => (hsecond.edges edge htouches).trans (hfirst.edges edge htouches)⟩

variable {graph after : Graph} {entry : Delta} {inserted : Edge → Prop}

theorem Records.silent (hjournal : after.journal = graph.journal)
    (halike : ∀ id, graph.AlikeAt after id) : graph.Records after {} := by
  refine ⟨?_, fun id _ => halike id⟩
  rw [hjournal]
  simp only [Delta.merge_empty, Option.map_id']

theorem Records.refl (graph : Graph) : graph.Records graph {} :=
  .silent rfl fun _ => ⟨rfl, fun _ _ => Iff.rfl⟩

theorem Records.trans {first second third : Graph} {earlier later : Delta}
    (hfirst : first.Records second earlier) (hsecond : second.Records third later) :
    first.Records third (earlier.merge later) where
  journal := by
    rw [hsecond.journal, hfirst.journal, Option.map_map]
    simp only [Function.comp_def, Delta.merge_assoc]
  alike id hid := by
    rw [Delta.mem_changedNodes_merge, not_or] at hid
    exact (hfirst.alike id hid.1).trans (hsecond.alike id hid.2)

/-! ### Steps -/

theorem records_insertNode {node : Node} {id : NodeId}
    (hinsert : graph.insertNode node = .ok (id, after)) :
    graph.Records after { addedNodes := [id] } := by
  obtain ⟨rfl, happended⟩ := appended_insertNode hinsert
  refine ⟨happended.journal, fun other hother => ⟨?_, fun _ _ => by rw [happended.edges]⟩⟩
  have hne : ¬ graph.nextId = other := fun heq =>
    hother (Delta.mem_changedNodes.2 (.inl (.inl (List.mem_singleton.2 heq.symm))))
  rw [node?, node?, happended.nodes, List.find?_append,
    List.find?_cons_of_neg (by simpa using hne), List.find?_nil, Option.or_none]

/-- The node itself is all that a replacement changes. -/
theorem alikeAt_setNode {node : Node} {id : NodeId} (hlive : graph.contains node.id)
    (hnode : id = node.id → some node.tidied = (graph.node? id).map Node.tidied) :
    graph.AlikeAt (graph.setNode node) id := by
  refine ⟨?_, fun _ _ => Iff.rfl⟩
  rw [node?_setNode hlive]
  split
  · rename_i heq
    exact hnode heq
  · rfl

theorem records_updateNode {id : NodeId} {change : Node → Node} {changed : Bool}
    (hupdate : graph.updateNode id change = (after, .ok changed)) :
    ∃ entry, graph.Records after entry := by
  rw [updateNode] at hupdate
  split at hupdate
  · cases (Prod.mk.inj hupdate).2
  · rename_i before hbefore
    set node : Node := { change before with id, kind := before.kind }
    have hlive : graph.contains node.id := contains_of_node? hbefore
    have hmodified : ∀ other, other ∉ ({ modifiedNodes := [id] } : Delta).changedNodes →
        graph.AlikeAt (graph.setNode node) other := fun other hother =>
      alikeAt_setNode hlive fun heq =>
        absurd (Delta.mem_changedNodes.2 (.inl (.inr (.inr (List.mem_singleton.2 heq))))) hother
    have hrename := sameView_renameNode (graph.setNode node) id before.name node.name
    have hjournal : ((graph.setNode node).renameNode id before.name node.name).journal =
        graph.journal := by
      unfold renameNode
      split <;> rfl
    -- what follows an update that is recorded: the node is named, and the indexes are no view
    have hrecords : ∀ files, graph.Records
        (({ (graph.setNode node).renameNode id before.name node.name with files }).record
          { modifiedNodes := [id] }) { modifiedNodes := [id] } := fun files => by
      refine ⟨by rw [record, hjournal], fun other hother => ?_⟩
      have hview := hmodified other hother
      exact ⟨(congrArg _ (hrename.node? other)).trans hview.node, fun edge htouches => by
        rw [← hview.edges edge htouches, ← hrename.edges]
        rfl⟩
    simp only at hupdate
    split at hupdate
    · rename_i hsame
      rw [← (Prod.mk.inj hupdate).1]
      refine ⟨{}, .silent rfl fun other => alikeAt_setNode hlive fun heq => ?_⟩
      rw [heq, show node.id = id from rfl, hbefore, Option.map_some,
        Node.tidied_eq_of_same hsame]
    · split at hupdate
      · split at hupdate
        · cases (Prod.mk.inj hupdate).2
        · exact (Prod.mk.inj hupdate).1 ▸ ⟨_, hrecords _⟩
      · exact (Prod.mk.inj hupdate).1 ▸ ⟨_, hrecords _⟩

/-- An edge that touches no end of a key has another key. -/
theorem key_ne_of_touches {edge other : Edge} {id : NodeId} (htouches : edge.touches id = true)
    (hends : ¬ (other.source = id ∨ other.target = id)) : edge.key ≠ other.key := by
  intro heq
  have hsource : edge.source = other.source := congrArg EdgeKey.source heq
  have htarget : edge.target = other.target := congrArg EdgeKey.target heq
  rw [Edge.touches_iff, hsource, htarget] at htouches
  exact hends htouches

theorem records_insertEdge {edge : Edge} {changed : Bool}
    (hinsert : graph.insertEdge edge = .ok (changed, after)) :
    ∃ entry, graph.Records after entry := by
  cases (withEdge_insertEdge hinsert).2 with
  | kept => exact ⟨{}, .refl graph⟩
  | replaced =>
    refine ⟨{ modifiedEdges := [edge.key] }, rfl, fun id hid => ⟨rfl, fun other htouches => ?_⟩⟩
    have hends : ¬ (edge.source = id ∨ edge.target = id) := fun hend =>
      hid (Delta.mem_changedNodes.2 (.inr ⟨edge.key, .inr (.inr (List.mem_singleton.2 rfl)), hend⟩))
    have hne := key_ne_of_touches htouches hends
    constructor
    · intro hmem
      obtain ⟨old, hold, rfl⟩ := List.mem_map.1 hmem
      split at hne
      · exact absurd rfl hne
      · rename_i hkey
        rwa [if_neg hkey]
    · exact fun hmem => List.mem_map.2 ⟨other, hmem, if_neg hne⟩
  | added =>
    refine ⟨{ addedEdges := [edge.key] }, rfl, fun id hid => ⟨rfl, fun other htouches => ?_⟩⟩
    have hends : ¬ (edge.source = id ∨ edge.target = id) := fun hend =>
      hid (Delta.mem_changedNodes.2 (.inr ⟨edge.key, .inl (List.mem_singleton.2 rfl), hend⟩))
    have hne : other ≠ edge := fun heq => key_ne_of_touches htouches hends (congrArg Edge.key heq)
    exact List.mem_cons.trans (or_iff_right hne)

theorem records_removeEdge (graph : Graph) (key : EdgeKey) :
    ∃ entry, graph.Records (graph.removeEdge key).2 entry := by
  rw [removeEdge]
  split
  · exact ⟨{}, .refl graph⟩
  · rename_i old hold
    have hkey := key_of_edge? hold
    refine ⟨{ removedEdges := [key] }, rfl, fun id hid => ⟨rfl, fun other htouches => ?_⟩⟩
    have hends : ¬ (old.source = id ∨ old.target = id) := fun hend =>
      hid (Delta.mem_changedNodes.2
        (.inr ⟨key, .inr (.inl (List.mem_singleton.2 rfl)), hkey ▸ hend⟩))
    have hne : other.key ≠ key := hkey ▸ key_ne_of_touches htouches hends
    exact List.mem_filter.trans (and_iff_left (decide_eq_true hne))

/-- Every edge that goes with a node is recorded, and so both of its ends are named. -/
theorem records_discard (graph : Graph) (node : Node) :
    ∃ entry, graph.Records (graph.discard node) entry := by
  refine ⟨_, rfl, fun id hid => ⟨?_, fun edge htouches => ?_⟩⟩
  · have hne : id ≠ node.id := fun heq =>
      hid (Delta.mem_changedNodes.2 (.inl (.inr (.inl (List.mem_singleton.2 heq)))))
    rw [node?_discard, if_neg hne]
  · refine List.mem_filter.trans ⟨And.left, fun hmem => ⟨hmem, ?_⟩⟩
    rw [Bool.not_eq_true', ← Bool.not_eq_true]
    intro hgone
    refine hid (Delta.mem_changedNodes.2 (.inr ⟨edge.key, .inr (.inl ?_), Edge.touches_iff.1 htouches⟩))
    refine List.mem_map.2 ⟨edge, List.mem_append.2 ?_, rfl⟩
    exact (Edge.touches_iff.1 hgone).imp (fun h => List.mem_filter.2 ⟨hmem, decide_eq_true h⟩)
      fun h => List.mem_filter.2 ⟨hmem, decide_eq_true h⟩

theorem Step.records (hstep : graph.Step inserted after) : ∃ entry, graph.Records after entry := by
  cases hstep with
  | insertNode hinsert => exact ⟨_, records_insertNode hinsert⟩
  | updateNode hupdate => exact records_updateNode hupdate
  | insertEdge _ hinsert => exact records_insertEdge hinsert
  | removeEdge key => exact records_removeEdge graph key
  | discard _ => exact records_discard graph _

/-- **The journal of a graph that evolves accounts for every difference.** -/
theorem Evolves.records (hevolves : Evolves inserted graph after) :
    ∃ entry, graph.Records after entry := by
  induction hevolves with
  | refl => exact ⟨{}, .refl graph⟩
  | tail _ hstep ih =>
    obtain ⟨earlier, hearlier⟩ := ih
    obtain ⟨later, hlater⟩ := hstep.records
    exact ⟨earlier.merge later, hearlier.trans hlater⟩

end Graph

end CodeGraph
