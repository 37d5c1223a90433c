import CodeGraph.Proofs.Graph.View
import Mathlib.Logic.Relation

/-!
# What a removal takes away

A node goes together with everything it owns, directly or not. Whatever else was in the graph stays:
files forget the nodes that went, imports that stood for one of them stand for nothing, and the edges
at nodes that went are gone. A removal goes as deep as there are nodes, which is enough wherever
ownership goes down along some rank.
-/

namespace CodeGraph

namespace Node

/-- The node with only some of the nodes it lists. -/
def relist (node : Node) (keep : NodeId → Bool) : Node :=
  match node.detail with
  | .file symbols imports errors =>
    { node with detail := .file (symbols.filter keep) (imports.filter keep) errors }
  | _ => node

/-- What is left of a node when others go: a file forgets some of them, and an import that stood for
one of them stands for nothing. -/
def Survives (gone : NodeId → Prop) (old new : Node) : Prop :=
  (∃ keep : NodeId → Bool, (∀ id, keep id = false → gone id) ∧ new = old.relist keep) ∨
    ∃ target reason, gone target ∧ old.binding? = some (.resolved target) ∧
      new = old.rebind (.unresolved reason)

variable {gone : NodeId → Prop} {old new : Node}

theorem relist_true (node : Node) : node.relist (fun _ => true) = node := by
  obtain ⟨_, _, _, _, _, _, _, detail⟩ := node
  cases detail <;> simp [relist]

theorem unlist_eq_relist (node : Node) (id : NodeId) :
    node.unlist id = node.relist fun other => other ≠ id := by
  obtain ⟨_, _, _, _, _, _, _, detail⟩ := node
  cases detail <;> rfl

@[simp] theorem id_rebind (node : Node) (binding : Binding) : (node.rebind binding).id = node.id := by
  obtain ⟨_, _, _, _, _, _, _, detail⟩ := node
  cases detail <;> rfl

@[simp] theorem name_rebind (node : Node) (binding : Binding) :
    (node.rebind binding).name = node.name := by
  obtain ⟨_, _, _, _, _, _, _, detail⟩ := node
  cases detail <;> rfl

@[simp] theorem kind_rebind (node : Node) (binding : Binding) :
    (node.rebind binding).kind = node.kind := by
  obtain ⟨_, _, _, _, _, _, _, detail⟩ := node
  cases detail <;> rfl

@[simp] theorem path_rebind (node : Node) (binding : Binding) :
    (node.rebind binding).path = node.path := by
  obtain ⟨_, _, _, _, _, _, _, detail⟩ := node
  cases detail <;> rfl

@[simp] theorem rebind_rebind (node : Node) (first second : Binding) :
    (node.rebind first).rebind second = node.rebind second := by
  obtain ⟨_, _, _, _, _, _, _, detail⟩ := node
  cases detail <;> rfl

@[simp] theorem listed_rebind (node : Node) (binding : Binding) :
    (node.rebind binding).listed = node.listed := by
  obtain ⟨_, _, _, _, _, _, _, detail⟩ := node
  cases detail <;> rfl

theorem binding?_rebind (node : Node) (binding : Binding) :
    (node.rebind binding).binding? = node.binding?.map fun _ => binding := by
  obtain ⟨_, _, _, _, _, _, _, detail⟩ := node
  cases detail <;> rfl

@[simp] theorem id_relist (node : Node) (keep : NodeId → Bool) : (node.relist keep).id = node.id := by
  obtain ⟨_, _, _, _, _, _, _, detail⟩ := node
  cases detail <;> rfl

@[simp] theorem name_relist (node : Node) (keep : NodeId → Bool) :
    (node.relist keep).name = node.name := by
  obtain ⟨_, _, _, _, _, _, _, detail⟩ := node
  cases detail <;> rfl

@[simp] theorem kind_relist (node : Node) (keep : NodeId → Bool) :
    (node.relist keep).kind = node.kind := by
  obtain ⟨_, _, _, _, _, _, _, detail⟩ := node
  cases detail <;> rfl

@[simp] theorem path_relist (node : Node) (keep : NodeId → Bool) :
    (node.relist keep).path = node.path := by
  obtain ⟨_, _, _, _, _, _, _, detail⟩ := node
  cases detail <;> rfl

@[simp] theorem binding?_relist (node : Node) (keep : NodeId → Bool) :
    (node.relist keep).binding? = node.binding? := by
  obtain ⟨_, _, _, _, _, _, _, detail⟩ := node
  cases detail <;> rfl

@[simp] theorem listed_relist (node : Node) (keep : NodeId → Bool) :
    (node.relist keep).listed = node.listed.filter keep := by
  obtain ⟨_, _, _, _, _, _, _, detail⟩ := node
  cases detail <;> simp [relist, listed]

theorem relist_relist (node : Node) (first second : NodeId → Bool) :
    (node.relist first).relist second = node.relist fun id => first id && second id := by
  obtain ⟨_, _, _, _, _, _, _, detail⟩ := node
  cases detail <;> simp [relist, List.filter_filter, Bool.and_comm]

theorem relist_of_binding? {binding : Binding} (hbinding : old.binding? = some binding)
    (keep : NodeId → Bool) : old.relist keep = old := by
  obtain ⟨_, _, _, _, _, _, _, detail⟩ := old
  cases detail with
  | file symbols imports errors => cases hbinding
  | _ => rfl

theorem Survives.refl (gone : NodeId → Prop) (node : Node) : node.Survives gone node :=
  .inl ⟨fun _ => true, fun _ h => absurd h (by simp), (relist_true node).symm⟩

theorem Survives.mono {other : NodeId → Prop} (hsurvives : old.Survives gone new)
    (himp : ∀ id, gone id → other id) : old.Survives other new := by
  rcases hsurvives with ⟨keep, hkeep, hnew⟩ | ⟨target, reason, htarget, hbinding, hnew⟩
  · exact .inl ⟨keep, fun id hid => himp id (hkeep id hid), hnew⟩
  · exact .inr ⟨target, reason, himp target htarget, hbinding, hnew⟩

theorem Survives.trans {middle : Node} (hfirst : old.Survives gone middle)
    (hsecond : middle.Survives gone new) : old.Survives gone new := by
  rcases hfirst with ⟨keep, hkeep, rfl⟩ | ⟨target, reason, htarget, hbinding, rfl⟩
  · rcases hsecond with ⟨keep', hkeep', rfl⟩ | ⟨target, reason, htarget, hbinding, rfl⟩
    · refine .inl ⟨fun id => keep id && keep' id, fun id hid => ?_, relist_relist ..⟩
      rcases Bool.and_eq_false_iff.1 hid with hid | hid
      · exact hkeep id hid
      · exact hkeep' id hid
    · rw [binding?_relist] at hbinding
      exact .inr ⟨target, reason, htarget, hbinding, by rw [relist_of_binding? hbinding]⟩
  · have hunbound : (old.rebind (.unresolved reason)).binding? = some (.unresolved reason) := by
      rw [binding?_rebind, hbinding, Option.map_some]
    rcases hsecond with ⟨keep', hkeep', rfl⟩ | ⟨other, _, _, hother, _⟩
    · exact .inr ⟨target, reason, htarget, hbinding, relist_of_binding? hunbound keep'⟩
    · rw [hunbound] at hother
      cases hother

theorem Survives.id_eq (hsurvives : old.Survives gone new) : new.id = old.id := by
  rcases hsurvives with ⟨keep, -, rfl⟩ | ⟨target, reason, -, -, rfl⟩
  · exact id_relist old keep
  · exact id_rebind old _

theorem Survives.name_eq (hsurvives : old.Survives gone new) : new.name = old.name := by
  rcases hsurvives with ⟨keep, -, rfl⟩ | ⟨target, reason, -, -, rfl⟩
  · exact name_relist old keep
  · exact name_rebind old _

theorem Survives.kind_eq (hsurvives : old.Survives gone new) : new.kind = old.kind := by
  rcases hsurvives with ⟨keep, -, rfl⟩ | ⟨target, reason, -, -, rfl⟩
  · exact kind_relist old keep
  · exact kind_rebind old _

theorem Survives.path_eq (hsurvives : old.Survives gone new) : new.path = old.path := by
  rcases hsurvives with ⟨keep, -, rfl⟩ | ⟨target, reason, -, -, rfl⟩
  · exact path_relist old keep
  · exact path_rebind old _

theorem Survives.mem_listed_iff (hsurvives : old.Survives gone new) {id : NodeId}
    (hid : ¬ gone id) : id ∈ new.listed ↔ id ∈ old.listed := by
  rcases hsurvives with ⟨keep, hkeep, rfl⟩ | ⟨target, reason, -, -, rfl⟩
  · rw [listed_relist, List.mem_filter, and_iff_left]
    exact Bool.not_eq_false _ ▸ fun h => hid (hkeep id h)
  · rw [listed_rebind]

theorem Survives.listed_subset (hsurvives : old.Survives gone new) {id : NodeId}
    (hid : id ∈ new.listed) : id ∈ old.listed := by
  rcases hsurvives with ⟨keep, -, rfl⟩ | ⟨target, reason, -, -, rfl⟩
  · rw [listed_relist] at hid
    exact (List.mem_filter.1 hid).1
  · rwa [listed_rebind] at hid

theorem Survives.exists_detail (hsurvives : old.Survives gone new) {detail : ImportDetail}
    (hdetail : old.detail = .importDecl detail) : ∃ now, new.detail = .importDecl now := by
  rcases hsurvives with ⟨keep, -, rfl⟩ | ⟨target, reason, -, -, rfl⟩
  · exact ⟨detail, by rw [relist, hdetail]; exact hdetail⟩
  · exact ⟨{ detail with binding := .unresolved reason }, by rw [rebind, hdetail]⟩

/-- A node that lists nothing that went and stands for nothing that went stays as it is. -/
theorem Survives.eq_of_listed (hsurvives : old.Survives gone new)
    (hbinding : ∀ target, old.binding? = some (.resolved target) → ¬ gone target)
    (hlisted : ∀ id ∈ old.listed, ¬ gone id) : new = old := by
  rcases hsurvives with ⟨keep, hkeep, rfl⟩ | ⟨target, reason, hgone, hresolved, -⟩
  · have hkeeps : ∀ id ∈ old.listed, keep id = true := fun id hid =>
      Bool.not_eq_false _ ▸ fun h => hlisted id hid (hkeep id h)
    obtain ⟨_, _, _, _, _, _, _, detail⟩ := old
    cases detail with
    | file symbols imports errors =>
      have hsymbols : symbols.filter keep = symbols :=
        List.filter_eq_self.2 fun id hid => hkeeps id (List.mem_append_left _ hid)
      have himports : imports.filter keep = imports :=
        List.filter_eq_self.2 fun id hid => hkeeps id (List.mem_append_right _ hid)
      simp only [relist, hsymbols, himports]
    | _ => rfl
  · exact absurd hgone (hbinding target hresolved)

theorem Survives.eq_of_external (hsurvives : old.Survives gone new)
    (hdetail : new.detail = .external) : new = old := by
  rcases hsurvives with ⟨keep, -, rfl⟩ | ⟨target, reason, -, hresolved, rfl⟩
  · obtain ⟨_, _, _, _, _, _, _, detail⟩ := old
    cases detail with
    | file symbols imports errors => cases hdetail
    | _ => rfl
  · obtain ⟨_, _, _, _, _, _, _, detail⟩ := old
    cases detail with
    | importDecl detail => cases hdetail
    | _ => rfl

/-- What is left of an import differs at most in its binding. -/
theorem Survives.exists_rebind (hsurvives : old.Survives gone new) {binding : Binding}
    (hbinding : old.binding? = some binding) : ∃ kept, new = old.rebind kept ∧
      (kept = binding ∨ ∃ target reason, gone target ∧ binding = .resolved target ∧
        kept = .unresolved reason) := by
  rcases hsurvives with ⟨keep, -, rfl⟩ | ⟨target, reason, htarget, hresolved, rfl⟩
  · refine ⟨binding, ?_, .inl rfl⟩
    rw [relist_of_binding? hbinding]
    obtain ⟨_, _, _, _, _, _, _, detail⟩ := old
    cases detail with
    | importDecl detail =>
      obtain rfl := Option.some.inj hbinding
      rfl
    | _ => cases hbinding
  · rw [hbinding] at hresolved
    exact ⟨_, rfl, .inr ⟨target, reason, htarget, Option.some.inj hresolved, rfl⟩⟩

/-- No import gets a target when other nodes go. -/
theorem Survives.binding?_ne (hsurvives : old.Survives gone new) {target : NodeId}
    (hne : old.binding? ≠ some (.resolved target)) : new.binding? ≠ some (.resolved target) := by
  rcases hsurvives with ⟨keep, -, rfl⟩ | ⟨other, reason, -, hbinding, rfl⟩
  · rwa [binding?_relist]
  · rw [binding?_rebind, hbinding]
    exact fun h => by cases h

end Node

namespace Graph

variable {graph : Graph}

/-- The file stands in the index for the path of the node, which is no file itself. -/
def Registers (graph : Graph) (file id : NodeId) : Prop :=
  ∃ node, graph.node? id = some node ∧ node.kind ≠ .file ∧ graph.fileNode? node.path = some file

/-- What becomes of a node when others go. An import that stood for one of them, with an edge to show
for it, stands for nothing. A file forgets those that its path stands for. -/
def Leaves (graph : Graph) (gone : NodeId → Prop) (id : NodeId) (old new : Node) : Prop :=
  (∃ target node, gone target ∧ old.binding? = some (.resolved target) ∧
      graph.hasEdge ⟨id, target, .imports⟩ ∧ graph.node? target = some node ∧
      new = old.rebind (.unresolved (node.shownName ++ " was removed"))) ∨
    (∀ target, gone target → old.binding? = some (.resolved target) →
      ¬ graph.hasEdge ⟨id, target, .imports⟩) ∧
      ∃ keep : NodeId → Bool, (∀ other, keep other = false ↔ gone other ∧ graph.Registers id other) ∧
        new = old.relist keep

theorem Leaves.survives {gone : NodeId → Prop} {id : NodeId} {old new : Node}
    (hleaves : graph.Leaves gone id old new) : old.Survives gone new := by
  rcases hleaves with ⟨target, node, htarget, hbinding, -, -, hnew⟩ | ⟨-, keep, hkeep, hnew⟩
  · exact .inr ⟨target, _, htarget, hbinding, hnew⟩
  · exact .inl ⟨keep, fun other hother => ((hkeep other).1 hother).1, hnew⟩

/-- A graph after some nodes went. -/
structure Without (gone : NodeId → Prop) (before after : Graph) : Prop where
  sound : after.Sound
  nextId : after.nextId = before.nextId
  dead : ∀ id, gone id → after.node? id = none
  absent : ∀ id, before.node? id = none → after.node? id = none
  left : ∀ id old, ¬ gone id → before.node? id = some old →
    ∃ new, after.node? id = some new ∧ before.Leaves gone id old new
  mem_edges : ∀ edge, edge ∈ after.edges ↔
    edge ∈ before.edges ∧ ¬ gone edge.source ∧ ¬ gone edge.target

section Without

variable {gone : NodeId → Prop} {before after : Graph}

theorem Without.refl (hsound : graph.Sound) : graph.Without (fun _ => False) graph where
  sound := hsound
  nextId := rfl
  dead := fun _ h => h.elim
  absent := fun _ h => h
  left := fun _ old _ hold => ⟨old, hold, .inr ⟨fun _ h => h.elim, fun _ => true,
    fun _ => iff_of_false (by simp) fun h => h.1, (Node.relist_true old).symm⟩⟩
  mem_edges := fun edge => by simp

theorem Without.congr (hwithout : before.Without gone after) {other : NodeId → Prop}
    (hsame : ∀ id, other id ↔ gone id) : before.Without other after := by
  obtain rfl : other = gone := funext fun id => propext (hsame id)
  exact hwithout

theorem Without.kept (hwithout : before.Without gone after) (id : NodeId) (old : Node)
    (hkept : ¬ gone id) (hold : before.node? id = some old) :
    ∃ new, after.node? id = some new ∧ old.Survives gone new := by
  obtain ⟨new, hnew, hleaves⟩ := hwithout.left id old hkept hold
  exact ⟨new, hnew, hleaves.survives⟩

theorem Without.hasEdge (hwithout : before.Without gone after) (key : EdgeKey) :
    after.hasEdge key ↔ before.hasEdge key ∧ ¬ gone key.source ∧ ¬ gone key.target := by
  simp only [hasEdge_iff, hwithout.mem_edges]
  constructor
  · rintro ⟨edge, ⟨hedge, hends⟩, rfl⟩
    exact ⟨⟨edge, hedge, rfl⟩, hends⟩
  · rintro ⟨⟨edge, hedge, rfl⟩, hends⟩
    exact ⟨edge, ⟨hedge, hends⟩, rfl⟩

/-- What is left was there before and did not go. -/
theorem Without.exists_left (hwithout : before.Without gone after) {id : NodeId} {new : Node}
    (hnew : after.node? id = some new) :
    ¬ gone id ∧ ∃ old, before.node? id = some old ∧ before.Leaves gone id old new := by
  have hkept : ¬ gone id := by
    intro hgone
    rw [hwithout.dead id hgone] at hnew
    cases hnew
  refine ⟨hkept, ?_⟩
  cases hold : before.node? id with
  | none =>
    rw [hwithout.absent id hold] at hnew
    cases hnew
  | some old =>
    obtain ⟨found, hfound, hleaves⟩ := hwithout.left id old hkept hold
    rw [hnew] at hfound
    exact ⟨old, rfl, Option.some.inj hfound ▸ hleaves⟩

theorem Without.exists_old (hwithout : before.Without gone after) {id : NodeId} {new : Node}
    (hnew : after.node? id = some new) :
    ¬ gone id ∧ ∃ old, before.node? id = some old ∧ old.Survives gone new := by
  obtain ⟨hkept, old, hold, hleaves⟩ := hwithout.exists_left hnew
  exact ⟨hkept, old, hold, hleaves.survives⟩

/-- No import stands for a node that went, if there was an edge to show for it. -/
theorem Without.unbound (hwithout : before.Without gone after) (id target : NodeId) (new : Node)
    (hgone : gone target) (hedge : before.hasEdge ⟨id, target, .imports⟩)
    (hnew : after.node? id = some new) : new.binding? ≠ some (.resolved target) := by
  obtain ⟨-, old, -, hleaves⟩ := hwithout.exists_left hnew
  rcases hleaves with ⟨other, node, -, hbinding, -, -, rfl⟩ | ⟨hstays, keep, -, rfl⟩
  · rw [Node.binding?_rebind, hbinding]
    exact fun h => by cases h
  · rw [Node.binding?_relist]
    exact fun hbinding => hstays target hgone hbinding hedge

theorem Without.contains_iff (hwithout : before.Without gone after) {id : NodeId} :
    after.contains id ↔ before.contains id ∧ ¬ gone id := by
  constructor
  · intro hlive
    obtain ⟨new, hnew⟩ := Graph.contains_iff.1 hlive
    obtain ⟨hkept, old, hold, -⟩ := hwithout.exists_old hnew
    exact ⟨contains_of_node? hold, hkept⟩
  · rintro ⟨hlive, hkept⟩
    obtain ⟨old, hold⟩ := Graph.contains_iff.1 hlive
    obtain ⟨new, hnew, -⟩ := hwithout.kept id old hkept hold
    exact contains_of_node? hnew

/-- The index finds the files that are left by the paths that they had. -/
theorem Without.fileNode?_iff (hwithout : before.Without gone after) (hbefore : before.Sound)
    {path : Path} {file : NodeId} :
    after.fileNode? path = some file ↔ before.fileNode? path = some file ∧ ¬ gone file := by
  rw [hwithout.sound.fileNode?_iff, hbefore.fileNode?_iff]
  constructor
  · rintro ⟨new, hnew, hkind, hpath⟩
    obtain ⟨hkept, old, hold, hsurvives⟩ := hwithout.exists_old hnew
    rw [hsurvives.kind_eq] at hkind
    rw [hsurvives.path_eq] at hpath
    exact ⟨⟨old, hold, hkind, hpath⟩, hkept⟩
  · rintro ⟨⟨old, hold, hkind, hpath⟩, hkept⟩
    obtain ⟨new, hnew, hsurvives⟩ := hwithout.kept file old hkept hold
    exact ⟨new, hnew, hsurvives.kind_eq.trans hkind, hsurvives.path_eq ▸ hpath⟩

theorem Without.registers_iff (hwithout : before.Without gone after) (hbefore : before.Sound)
    {file id : NodeId} :
    after.Registers file id ↔ before.Registers file id ∧ ¬ gone file ∧ ¬ gone id := by
  constructor
  · rintro ⟨new, hnew, hkind, hfile⟩
    obtain ⟨hkept, old, hold, hsurvives⟩ := hwithout.exists_old hnew
    obtain ⟨hfile, hfileKept⟩ := (hwithout.fileNode?_iff hbefore).1 hfile
    rw [hsurvives.kind_eq] at hkind
    rw [hsurvives.path_eq] at hfile
    exact ⟨⟨old, hold, hkind, hfile⟩, hfileKept, hkept⟩
  · rintro ⟨⟨old, hold, hkind, hfile⟩, hfileKept, hkept⟩
    obtain ⟨new, hnew, hsurvives⟩ := hwithout.kept id old hkept hold
    refine ⟨new, hnew, hsurvives.kind_eq ▸ hkind, ?_⟩
    rw [hsurvives.path_eq]
    exact (hwithout.fileNode?_iff hbefore).2 ⟨hfile, hfileKept⟩

/-- What becomes of a node when others go in two lots. -/
theorem Without.leaves_trans (hwithout : before.Without gone after) (hbefore : before.Sound)
    {more : NodeId → Prop} {id : NodeId} {old middle new : Node} (hkept : ¬ gone id)
    (hfirst : before.Leaves gone id old middle) (hsecond : after.Leaves more id middle new) :
    before.Leaves (fun other => gone other ∨ more other) id old new := by
  rcases hfirst with ⟨target, node, htarget, hbinding, hedge, hnode, rfl⟩ | ⟨hstays, keep, hkeep, rfl⟩
  · have hunbound : (old.rebind (.unresolved (node.shownName ++ " was removed"))).binding? =
        some (.unresolved (node.shownName ++ " was removed")) := by
      rw [Node.binding?_rebind, hbinding, Option.map_some]
    rcases hsecond with ⟨other, -, -, hother, -⟩ | ⟨-, keep, -, rfl⟩
    · rw [hunbound] at hother
      cases hother
    · exact .inl ⟨target, node, .inl htarget, hbinding, hedge, hnode,
        Node.relist_of_binding? hunbound keep⟩
  · rw [Leaves, Node.binding?_relist] at hsecond
    rcases hsecond with ⟨target, new, htarget, hbinding, hedge, hnew, rfl⟩ |
      ⟨hstays', keep', hkeep', rfl⟩
    · obtain ⟨-, node, hnode, hsurvives⟩ := hwithout.exists_old hnew
      refine .inl ⟨target, node, .inr htarget, hbinding, ((hwithout.hasEdge _).1 hedge).1, hnode, ?_⟩
      rw [Node.relist_of_binding? hbinding, Node.shownName, hsurvives.name_eq, Node.shownName]
    · refine .inr ⟨fun target hgone hbinding hedge => ?_, fun other => keep other && keep' other,
        fun other => ?_, Node.relist_relist ..⟩
      · by_cases htarget : gone target
        · exact hstays target htarget hbinding hedge
        · exact hstays' target (hgone.resolve_left htarget) hbinding
            ((hwithout.hasEdge _).2 ⟨hedge, hkept, htarget⟩)
      · rw [Bool.and_eq_false_iff, hkeep, hkeep', hwithout.registers_iff hbefore]
        constructor
        · rintro (⟨hgone, hregisters⟩ | ⟨hmore, hregisters, -, -⟩)
          · exact ⟨.inl hgone, hregisters⟩
          · exact ⟨.inr hmore, hregisters⟩
        · rintro ⟨hgone, hregisters⟩
          by_cases hother : gone other
          · exact .inl ⟨hother, hregisters⟩
          · exact .inr ⟨hgone.resolve_left hother, hregisters, hkept, hother⟩

theorem Without.trans {middle : Graph} {more : NodeId → Prop} (hbefore : before.Sound)
    (hfirst : before.Without gone middle) (hsecond : middle.Without more after) :
    before.Without (fun id => gone id ∨ more id) after where
  sound := hsecond.sound
  nextId := hsecond.nextId.trans hfirst.nextId
  dead := by
    rintro id (hgone | hmore)
    · exact hsecond.absent id (hfirst.dead id hgone)
    · exact hsecond.dead id hmore
  absent := fun id hnone => hsecond.absent id (hfirst.absent id hnone)
  left := by
    intro id old hkept hold
    rw [not_or] at hkept
    obtain ⟨found, hfound, hleaves⟩ := hfirst.left id old hkept.1 hold
    obtain ⟨new, hnew, hleaves'⟩ := hsecond.left id found hkept.2 hfound
    exact ⟨new, hnew, hfirst.leaves_trans hbefore hkept.1 hleaves hleaves'⟩
  mem_edges := by
    intro edge
    rw [hsecond.mem_edges, hfirst.mem_edges, not_or, not_or]
    constructor
    · rintro ⟨⟨hedge, hsource, htarget⟩, hsource', htarget'⟩
      exact ⟨hedge, ⟨hsource, hsource'⟩, ⟨htarget, htarget'⟩⟩
    · rintro ⟨hedge, ⟨hsource, hsource'⟩, ⟨htarget, htarget'⟩⟩
      exact ⟨⟨hedge, hsource, htarget⟩, hsource', htarget'⟩

end Without

/-! ### Removing a node that owns nothing any more -/

theorem mem_boundTo_iff {id target : NodeId} :
    id ∈ graph.boundTo target ↔ graph.hasEdge ⟨id, target, .imports⟩ ∧
      ∃ node, graph.node? id = some node ∧ node.binding? = some (.resolved target) := by
  have hbound : ((graph.node? id).bind Node.binding?).bind Binding.target? = some target ↔
      ∃ node, graph.node? id = some node ∧ node.binding? = some (.resolved target) := by
    simp only [Option.bind_eq_some_iff]
    constructor
    · rintro ⟨binding, ⟨node, hnode, hbinding⟩, htarget⟩
      cases binding with
      | resolved other => exact ⟨node, hnode, hbinding.trans (by rw [Option.some.inj htarget])⟩
      | unresolved reason => cases htarget
      | external name => cases htarget
    · rintro ⟨node, hnode, hbinding⟩
      exact ⟨_, ⟨node, hnode, hbinding⟩, rfl⟩
  rw [boundTo, List.mem_filter, decide_eq_true_eq, hbound, mem_origins]

theorem changed_rebind (node : Node) (binding : Binding) :
    changed node (fun other => other.rebind binding) = node.rebind binding := by
  obtain ⟨_, _, _, _, _, _, _, detail⟩ := node
  cases detail <;> rfl

theorem changed_unlist (node : Node) (id : NodeId) :
    changed node (fun other => other.unlist id) = node.relist fun other => other ≠ id := by
  obtain ⟨_, _, _, _, _, _, _, detail⟩ := node
  cases detail <;> rfl

/-- Rebinding some live nodes changes these and nothing else. -/
theorem rebindAll_view (hsound : graph.Sound) {ids : List NodeId} (binding : Binding)
    (hlive : ∀ id ∈ ids, graph.contains id) :
    let after := ids.foldl
      (fun graph id => graph.modifyNode id fun source => source.rebind binding) graph
    after.Sound ∧ after.nextId = graph.nextId ∧
      (∀ id, after.node? id =
        if id ∈ ids then (graph.node? id).map (·.rebind binding) else graph.node? id) ∧
      after.edges = graph.edges := by
  induction ids generalizing graph with
  | nil => exact ⟨hsound, rfl, fun id => (if_neg List.not_mem_nil).symm, rfl⟩
  | cons first rest ih =>
    obtain ⟨node, hnode⟩ := contains_iff.1 (hlive first List.mem_cons_self)
    obtain ⟨done, middle, hrun, hupdated⟩ := exists_updateNode hsound
      (fun source => source.rebind binding) hnode
      fun _ => .inl (Node.path_rebind node binding)
    rw [changed_rebind] at hupdated
    have hmiddle : graph.modifyNode first (fun source => source.rebind binding) = middle := by
      rw [modifyNode, hrun]
    have hsame : middle.edges = graph.edges := hmiddle ▸ edges_updateNode graph first _
    obtain ⟨hsound', hnextId, hnodes, hedges⟩ := ih hupdated.sound fun id hid =>
      hupdated.contains (hlive id (List.mem_cons_of_mem first hid))
    simp only [List.foldl_cons, hmiddle]
    refine ⟨hsound', hnextId.trans hupdated.nextId, fun id => ?_, hedges.trans hsame⟩
    rw [hnodes, hupdated.node?]
    by_cases hid : id = first
    · subst hid
      rw [if_pos rfl, if_pos List.mem_cons_self, hnode]
      split
      · rw [Option.map_some, Option.map_some, Node.rebind_rebind]
      · rfl
    · rw [if_neg hid]
      simp only [List.mem_cons, hid, false_or]

theorem node?_discard (graph : Graph) (node : Node) (id : NodeId) :
    (graph.discard node).node? id = if id = node.id then none else graph.node? id := by
  have hnodes : (graph.discard node).nodes = graph.nodes.filter fun other => other.id ≠ node.id :=
    rfl
  rw [Graph.node?, hnodes]
  split
  · rename_i heq
    subst heq
    rw [List.find?_eq_none]
    intro other hother
    simpa using (List.mem_filter.1 hother).2
  · rename_i hne
    rw [Graph.node?, List.find?_filter]
    congr 1
    funext other
    by_cases hother : other.id = id
    · simp [hother, hne]
    · simp [hother]

/-- Without a node the index knows the files that are left. -/
theorem Sound.files_discard (hsound : graph.Sound) {node : Node}
    (hnode : graph.node? node.id = some node) (path : Path) (id : NodeId) :
    (graph.discard node).files.get? path = some id ↔
      ∃ other, (graph.discard node).node? id = some other ∧ other.kind = .file ∧
        other.path.tidy = path := by
  have hfiles : (graph.discard node).files =
      if node.kind = .file then graph.files.erase node.path.tidy else graph.files := rfl
  rw [hfiles, node?_discard]
  by_cases hid : id = node.id
  · subst hid
    rw [if_pos rfl]
    refine ⟨fun hget => ?_, fun hfound => by simp at hfound⟩
    have hget' : graph.files.get? path = some node.id ∧
        (node.kind = .file → path ≠ node.path.tidy) := by
      split at hget
      · rw [Table.get?_erase] at hget
        split at hget
        · cases hget
        · exact ⟨hget, fun _ => ‹_›⟩
      · exact ⟨hget, fun h => absurd h ‹_›⟩
    obtain ⟨found, hfound, hkind, htidy⟩ := (hsound.files _ _).1 hget'.1
    rw [hnode] at hfound
    obtain rfl := Option.some.inj hfound
    exact absurd htidy.symm (hget'.2 hkind)
  · rw [if_neg hid, ← hsound.files]
    split
    · rename_i hkind
      rw [Table.get?_erase]
      split
      · rename_i htidy
        have hold := (hsound.files path node.id).2 ⟨node, hnode, hkind, htidy.symm⟩
        rw [hold]
        simp [Ne.symm hid]
      · rfl
    · rfl

theorem Sound.discard (hsound : graph.Sound) {node : Node}
    (hnode : graph.node? node.id = some node) : (graph.discard node).Sound := by
  have hnodes : (graph.discard node).nodes = graph.nodes.filter fun other => other.id ≠ node.id := rfl
  have hedges : (graph.discard node).edges =
      graph.edges.filter fun edge => !edge.touches node.id := rfl
  refine ⟨?_, ?_, ?_, ?_, ?_, hsound.files_discard hnode⟩
  · exact (List.Sublist.map Node.id (hnodes ▸ List.filter_sublist)).nodup hsound.ids
  · intro other hother
    exact hsound.below other (List.mem_filter.1 (hnodes ▸ hother)).1
  · exact (List.Sublist.map Edge.key (hedges ▸ List.filter_sublist)).nodup hsound.keys
  · intro edge hedge
    obtain ⟨hmem, hkeeps⟩ := List.mem_filter.1 (hedges ▸ hedge)
    obtain ⟨hsource, htarget⟩ := hsound.closed edge hmem
    have happart : edge.source ≠ node.id ∧ edge.target ≠ node.id := by
      simpa [Edge.touches] using hkeeps
    simp only [Graph.contains, node?_discard, if_neg happart.1, if_neg happart.2]
    exact ⟨hsource, htarget⟩
  · have hfiles : (graph.discard node).files =
        if node.kind = .file then graph.files.erase node.path.tidy else graph.files := rfl
    rw [hfiles]
    split
    · exact hsound.keyed.erase _
    · exact hsound.keyed

/-- Taking a node off the lists of its file meets no stale index. -/
theorem exists_unlist (hsound : graph.Sound) (node : Node) :
    ∃ after, graph.unlist node = (after, .ok ()) ∧ after.Sound ∧ after.nextId = graph.nextId ∧
      after.edges = graph.edges ∧ ∀ id, after.node? id =
        if node.kind ≠ .file ∧ graph.fileNode? node.path = some id ∧ id ≠ node.id then
          (graph.node? id).map (·.relist fun other => other ≠ node.id)
        else graph.node? id := by
  have hfound : ∀ id, (if node.kind = .file then none else graph.fileNode? node.path) = some id ↔
      node.kind ≠ .file ∧ graph.fileNode? node.path = some id := by
    intro id
    split <;> simp [*]
  rw [unlist]
  split
  · rename_i hnone
    refine ⟨graph, rfl, hsound, rfl, rfl, fun id => (if_neg fun h => ?_).symm⟩
    have hsome := (hfound id).2 ⟨h.1, h.2.1⟩
    rw [hnone] at hsome
    cases hsome
  · rename_i file hfile
    obtain ⟨hkind, hindexed⟩ := (hfound file).1 hfile
    split
    · rename_i hself
      refine ⟨graph, rfl, hsound, rfl, rfl, fun id => (if_neg fun h => h.2.2 ?_).symm⟩
      rw [← hself]
      exact Option.some.inj (h.2.1.symm.trans hindexed)
    · rename_i hother
      obtain ⟨owner, howner, -, -⟩ := hsound.fileNode?_iff.1 hindexed
      have hpath : (owner.unlist node.id).path = owner.path := by
        rw [Node.unlist_eq_relist, Node.path_relist]
      obtain ⟨done, after, hrun, hupdated⟩ := exists_updateNode hsound
        (fun other => other.unlist node.id) howner fun _ => .inl hpath
      have hedges := edges_updateNode graph file fun other => other.unlist node.id
      rw [changed_unlist] at hupdated
      rw [hrun] at hedges
      refine ⟨after, by rw [hrun]; rfl, hupdated.sound, hupdated.nextId, hedges, fun id => ?_⟩
      rw [hupdated.node?]
      by_cases hid : id = file
      · subst hid
        rw [if_pos rfl, if_pos ⟨hkind, hindexed, hother⟩, howner, Option.map_some]
      · rw [if_neg hid, if_neg fun h => hid (Option.some.inj (h.2.1.symm.trans hindexed))]

/-- What becomes of a node before the last one is dropped: an import of that one stands for nothing,
and its file no longer lists it. -/
theorem exists_leaves {node now : Node} {reason : String} (hnow : graph.node? node.id = some now)
    (hreason : reason = now.shownName ++ " was removed") {id : NodeId} {old : Node}
    (hold : graph.node? id = some old)
    [Decidable (graph.Registers id node.id ∧ id ≠ node.id)] :
    ∃ new, (if graph.Registers id node.id ∧ id ≠ node.id then
        (if id ∈ graph.boundTo node.id then some (old.rebind (.unresolved reason)) else some old).map
          (·.relist fun other => other ≠ node.id)
      else if id ∈ graph.boundTo node.id then some (old.rebind (.unresolved reason)) else some old) =
        some new ∧
      (id ≠ node.id → graph.Leaves (fun other => other = node.id) id old new) := by
  by_cases hmem : id ∈ graph.boundTo node.id
  · obtain ⟨hedge, source, hsource, hbinding⟩ := mem_boundTo_iff.1 hmem
    rw [hold] at hsource
    obtain rfl := Option.some.inj hsource
    have hunbound : (old.rebind (.unresolved reason)).binding? = some (.unresolved reason) := by
      rw [Node.binding?_rebind, hbinding, Option.map_some]
    refine ⟨old.rebind (.unresolved reason), ?_, fun _ => .inl ⟨node.id, now, rfl, hbinding, hedge,
      hnow, by rw [hreason]⟩⟩
    rw [if_pos hmem, Option.map_some, Node.relist_of_binding? hunbound, ite_self]
  · have hstays : ∀ target, target = node.id → old.binding? = some (.resolved target) →
        ¬ graph.hasEdge ⟨id, target, .imports⟩ := by
      rintro _ rfl hbinding hedge
      exact hmem (mem_boundTo_iff.2 ⟨hedge, old, hold, hbinding⟩)
    rw [if_neg hmem, Option.map_some]
    by_cases hlists : graph.Registers id node.id ∧ id ≠ node.id
    · refine ⟨_, if_pos hlists, fun _ => .inr ⟨hstays, fun other => other ≠ node.id,
        fun other => ?_, rfl⟩⟩
      rw [decide_eq_false_iff_not, not_not]
      exact ⟨fun h => ⟨h, h ▸ hlists.1⟩, And.left⟩
    · refine ⟨old, if_neg hlists, fun hne => .inr ⟨hstays, fun _ => true, fun other => ?_,
        (Node.relist_true old).symm⟩⟩
      refine iff_of_false (by simp) ?_
      rintro ⟨rfl, hregisters⟩
      exact hlists ⟨hregisters, hne⟩

/-- The last step of a removal takes the node and nothing else. The node it is given may be an
earlier version of the one that is there. -/
theorem exists_removeLast (hsound : graph.Sound) {node now : Node}
    (hnow : graph.node? node.id = some now) (hname : now.name = node.name)
    (hkind : now.kind = node.kind) (hpath : now.path = node.path) :
    ∃ last after, graph.removeLast node = (after, .ok last) ∧
      graph.Without (fun id => id = node.id) after := by
  classical
  set reason := node.shownName ++ " was removed" with hreason
  have hbound : ∀ id ∈ graph.boundTo node.id, graph.contains id := by
    intro id hid
    obtain ⟨-, source, hsource, -⟩ := mem_boundTo_iff.1 hid
    exact contains_of_node? hsource
  obtain ⟨hsound₁, hnextId₁, hnode₁, hedges₁⟩ := rebindAll_view hsound (.unresolved reason) hbound
  obtain ⟨unlisted, hunlist, hsound₂, hnextId₂, hedges₂, hnode₂⟩ := exists_unlist hsound₁ node
  rw [hedges₁] at hedges₂
  have hregisters : ∀ id, graph.Registers id node.id ↔
      node.kind ≠ .file ∧ graph.fileNode? node.path = some id := by
    intro id
    rw [← hkind, ← hpath]
    exact ⟨fun ⟨found, hfound, h⟩ => Option.some.inj (hnow.symm.trans hfound) ▸ h,
      fun h => ⟨now, hnow, h⟩⟩
  have hfile := hsound.fileNode?_congr hsound₁ (fun id => by
    rw [hnode₁]
    split
    · cases graph.node? id <;> simp
    · rfl) node.path
  simp only [hfile, ← and_assoc, ← hregisters, hnode₁] at hnode₂
  have hleft : ∀ id old, graph.node? id = some old → ∃ new, unlisted.node? id = some new ∧
      (id ≠ node.id → graph.Leaves (fun other => other = node.id) id old new) := by
    intro id old hold
    rw [hnode₂, hold, Option.map_some]
    exact exists_leaves hnow (by rw [hreason, Node.shownName, Node.shownName, hname]) hold
  obtain ⟨last, hlast, -⟩ := hleft node.id now hnow
  have hlastId : last.id = node.id := id_of_node? hlast
  have hsound₃ : (unlisted.discard last).Sound := hsound₂.discard (hlastId ▸ hlast)
  have hnode₃ := node?_discard unlisted last
  rw [hlastId] at hnode₃
  refine ⟨last, unlisted.discard last, ?_, hsound₃, hnextId₂.trans hnextId₁, ?_, ?_, ?_, ?_⟩
  · rw [removeLast, unbind, hunlist]
    simp only [hlast]
  · rintro id rfl
    exact (hnode₃ _).trans (if_pos rfl)
  · intro id hnone
    rw [hnode₃, hnode₂, hnone]
    simp
  · intro id old hid hold
    obtain ⟨new, hnew, hleaves⟩ := hleft id old hold
    exact ⟨new, ((hnode₃ id).trans (if_neg hid)).trans hnew, hleaves hid⟩
  · intro edge
    have hedges₃ : (unlisted.discard last).edges =
        unlisted.edges.filter fun edge => !edge.touches last.id := rfl
    rw [hedges₃, hedges₂, hlastId, List.mem_filter]
    simp [Edge.touches]

/-! ### Ownership -/

/-- Live nodes go with the nodes that own them. -/
def Owns (graph : Graph) (owner id : NodeId) : Prop :=
  ∃ node, graph.node? owner = some node ∧ id ∈ graph.owned node ∧ graph.contains id

/-- What a node owns, directly or not, and the node itself. -/
abbrev Reaches (graph : Graph) : NodeId → NodeId → Prop :=
  Relation.ReflTransGen graph.Owns

/-- Below a node, ownership goes down along a rank. -/
def Descends (graph : Graph) (rank : NodeId → Nat) (root : NodeId) : Prop :=
  ∀ owner id, graph.Reaches root owner → graph.Owns owner id → rank id < rank owner

theorem mem_owned_iff {node : Node} {id : NodeId} :
    id ∈ graph.owned node ↔ id ∈ node.listed ∨ graph.hasEdge ⟨node.id, id, .contains⟩ := by
  rw [owned, List.mem_append, mem_targets]

theorem Descends.rank_le {rank : NodeId → Nat} {root : NodeId} (hdescends : graph.Descends rank root)
    {id : NodeId} (hreaches : graph.Reaches root id) : rank id ≤ rank root := by
  induction hreaches with
  | refl => exact Nat.le_refl _
  | tail hbefore hstep ih => exact (hdescends _ _ hbefore hstep).le.trans ih

theorem Descends.of_reaches {rank : NodeId → Nat} {root below : NodeId}
    (hdescends : graph.Descends rank root) (hbelow : graph.Reaches root below) :
    graph.Descends rank below :=
  fun owner id howner howns => hdescends owner id (hbelow.trans howner) howns

section Without

variable {gone : NodeId → Prop} {before after : Graph}

/-- Among what is left, ownership is what it was. -/
theorem Without.owns_iff (hwithout : before.Without gone after) {owner id : NodeId} :
    after.Owns owner id ↔ before.Owns owner id ∧ ¬ gone owner ∧ ¬ gone id := by
  constructor
  · rintro ⟨new, hnew, hmem, hlive⟩
    obtain ⟨howner, old, hold, hsurvives⟩ := hwithout.exists_old hnew
    obtain ⟨hlive', hid⟩ := hwithout.contains_iff.1 hlive
    refine ⟨⟨old, hold, mem_owned_iff.2 ?_, hlive'⟩, howner, hid⟩
    rcases mem_owned_iff.1 hmem with hlisted | hedge
    · exact .inl (hsurvives.listed_subset hlisted)
    · exact .inr (hsurvives.id_eq ▸ ((hwithout.hasEdge _).1 hedge).1)
  · rintro ⟨⟨old, hold, hmem, hlive⟩, howner, hid⟩
    obtain ⟨new, hnew, hsurvives⟩ := hwithout.kept owner old howner hold
    refine ⟨new, hnew, mem_owned_iff.2 ?_, hwithout.contains_iff.2 ⟨hlive, hid⟩⟩
    rcases mem_owned_iff.1 hmem with hlisted | hedge
    · exact .inl ((hsurvives.mem_listed_iff hid).2 hlisted)
    · refine .inr ((hwithout.hasEdge _).2 ⟨hsurvives.id_eq ▸ hedge, ?_, hid⟩)
      rw [id_of_node? hnew]
      exact howner

theorem Without.reaches (hwithout : before.Without gone after) {root id : NodeId}
    (hreaches : after.Reaches root id) : before.Reaches root id :=
  Relation.ReflTransGen.mono (fun _ _ howns => (hwithout.owns_iff.1 howns).1) _ _ hreaches

theorem Without.descends (hwithout : before.Without gone after) {rank : NodeId → Nat}
    {root : NodeId} (hdescends : before.Descends rank root) : after.Descends rank root :=
  fun owner id howner howns =>
    hdescends owner id (hwithout.reaches howner) (hwithout.owns_iff.1 howns).1

/-- Where what goes takes along all that it owns, whatever is left is reached as it was. -/
theorem Without.reaches_of_not_gone (hwithout : before.Without gone after)
    (hclosed : ∀ owner id, gone owner → before.Owns owner id → gone id) {root id : NodeId}
    (hreaches : before.Reaches root id) (hid : ¬ gone id) : ¬ gone root ∧ after.Reaches root id := by
  induction hreaches using Relation.ReflTransGen.head_induction_on with
  | refl => exact ⟨hid, .refl⟩
  | head hstep _ ih =>
    obtain ⟨hnext, hrest⟩ := ih
    have hhere := fun hgone => hnext (hclosed _ _ hgone hstep)
    exact ⟨hhere, hrest.head (hwithout.owns_iff.2 ⟨hstep, hhere, hnext⟩)⟩

end Without

/-! ### Removing a node with all that it owns -/

/-- What goes when the live nodes of a list go. -/
def ReachedFrom (graph : Graph) (roots : List NodeId) (id : NodeId) : Prop :=
  ∃ root ∈ roots, graph.contains root ∧ graph.Reaches root id

/-- A removal that takes what a node reaches, for every node that is small enough for it. -/
def Removes (rank : NodeId → Nat) (small : NodeId → Prop)
    (remove : Graph → NodeId → Graph × Except GraphError Node) : Prop :=
  ∀ graph id, graph.Sound → graph.contains id → graph.Descends rank id → small id →
    ∃ last after, remove graph id = (after, .ok last) ∧ graph.Without (graph.Reaches id) after

theorem exists_removeEach {rank : NodeId → Nat} {small : NodeId → Prop}
    {remove : Graph → NodeId → Graph × Except GraphError Node}
    (hremove : Removes rank small remove) (hsound : graph.Sound) (ids : List NodeId)
    (hids : ∀ id ∈ ids, graph.contains id → graph.Descends rank id ∧ small id) :
    ∃ after, removeEach remove ids graph = (after, .ok ()) ∧
      graph.Without (graph.ReachedFrom ids) after := by
  induction ids generalizing graph with
  | nil =>
    refine ⟨graph, rfl, (Without.refl hsound).congr fun id => iff_of_false ?_ not_false⟩
    rintro ⟨root, hroot, -⟩
    cases hroot
  | cons first rest ih =>
    rw [removeEach]
    split
    · rename_i hlive
      obtain ⟨hdescends, hrank⟩ := hids first List.mem_cons_self hlive
      obtain ⟨last, middle, hrun, hwithout⟩ := hremove graph first hsound hlive hdescends hrank
      obtain ⟨after, hrest, hwithout'⟩ := ih hwithout.sound fun id hid hlive' => by
        obtain ⟨hdescends', hrank'⟩ := hids id (List.mem_cons_of_mem first hid)
          (hwithout.contains_iff.1 hlive').1
        exact ⟨hwithout.descends hdescends', hrank'⟩
      rw [hrun]
      refine ⟨after, hrest, (Without.trans hsound hwithout hwithout').congr fun id => ?_⟩
      constructor
      · rintro ⟨root, hroot, hrootLive, hreaches⟩
        rcases List.mem_cons.1 hroot with rfl | hroot
        · exact .inl hreaches
        · by_cases hgone : graph.Reaches first id
          · exact .inl hgone
          · obtain ⟨hkept, hreaches'⟩ := hwithout.reaches_of_not_gone
              (fun _ _ howner howns => howner.tail howns) hreaches hgone
            exact .inr ⟨root, hroot, hwithout.contains_iff.2 ⟨hrootLive, hkept⟩, hreaches'⟩
      · rintro (hreaches | ⟨root, hroot, hrootLive, hreaches⟩)
        · exact ⟨first, List.mem_cons_self, hlive, hreaches⟩
        · exact ⟨root, List.mem_cons_of_mem first hroot, (hwithout.contains_iff.1 hrootLive).1,
            hwithout.reaches hreaches⟩
    · rename_i hdead
      obtain ⟨after, hrest, hwithout⟩ := ih hsound fun id hid =>
        hids id (List.mem_cons_of_mem first hid)
      refine ⟨after, hrest, hwithout.congr fun id => ?_⟩
      constructor
      · rintro ⟨root, hroot, hlive, hreaches⟩
        rcases List.mem_cons.1 hroot with rfl | hroot
        · exact absurd hlive hdead
        · exact ⟨root, hroot, hlive, hreaches⟩
      · rintro ⟨root, hroot, hrest⟩
        exact ⟨root, List.mem_cons_of_mem first hroot, hrest⟩

/-- By induction on the depth: what a node owns has a smaller rank than the node. -/
theorem removes_removeWithin (rank : NodeId → Nat) (depth : Nat) :
    Removes rank (fun id => rank id < depth) (removeWithin depth) := by
  induction depth with
  | zero => exact fun _ _ _ _ _ hrank => absurd hrank (Nat.not_lt_zero _)
  | succ depth ih =>
    intro graph id hsound hlive hdescends hrank
    obtain ⟨node, hnode⟩ := contains_iff.1 hlive
    have hid : node.id = id := id_of_node? hnode
    have howns : ∀ child ∈ graph.owned node, graph.contains child → graph.Owns id child :=
      fun child hmem hchild => ⟨node, hnode, hmem, hchild⟩
    have hrankOwned : ∀ other, graph.ReachedFrom (graph.owned node) other →
        rank other < rank id := by
      rintro other ⟨child, hchild, hchildLive, hreaches⟩
      have hfirst := howns child hchild hchildLive
      exact ((hdescends.of_reaches (.single hfirst)).rank_le hreaches).trans_lt
        (hdescends id child .refl hfirst)
    obtain ⟨middle, hrun, hwithout⟩ := exists_removeEach ih hsound (graph.owned node)
        fun child hchild hchildLive => by
      have hfirst := howns child hchild hchildLive
      exact ⟨hdescends.of_reaches (.single hfirst),
        (hdescends id child .refl hfirst).trans_le (Nat.le_of_lt_succ hrank)⟩
    have hkept : ¬ graph.ReachedFrom (graph.owned node) id := fun h =>
      absurd (hrankOwned id h) (Nat.lt_irrefl _)
    obtain ⟨now, hnow, hsurvives⟩ := hwithout.kept id node hkept hnode
    obtain ⟨last, after, hlast, hwithout'⟩ := exists_removeLast hwithout.sound (hid ▸ hnow)
      hsurvives.name_eq hsurvives.kind_eq hsurvives.path_eq
    refine ⟨last, after, ?_, (Without.trans hsound hwithout hwithout').congr fun other => ?_⟩
    · rw [removeWithin, hnode]
      simp only [hrun, hlast]
    · rw [hid]
      constructor
      · intro hreaches
        rcases hreaches.cases_head with rfl | ⟨child, hstep, hrest⟩
        · exact .inr rfl
        · obtain ⟨found, hfound, hmem, hchild⟩ := hstep
          rw [hnode] at hfound
          obtain rfl := Option.some.inj hfound
          exact .inl ⟨child, hmem, hchild, hrest⟩
      · rintro (⟨child, hmem, hchild, hreaches⟩ | rfl)
        · exact hreaches.head (howns child hmem hchild)
        · exact .refl

/-- How many nodes are of smaller rank. -/
def countBelow (graph : Graph) (rank : NodeId → Nat) (id : NodeId) : Nat :=
  ((graph.nodes.map Node.id).filter fun other => rank other < rank id).length

theorem mem_ids_of_contains {id : NodeId} (hlive : graph.contains id) :
    id ∈ graph.nodes.map Node.id := by
  obtain ⟨node, hnode⟩ := contains_iff.1 hlive
  exact List.mem_map.2 ⟨node, mem_nodes_of_node? hnode, id_of_node? hnode⟩

/-- Fewer are counted where one that was counted no longer is. -/
theorem length_filter_lt {α : Type} {items : List α} {fewer more : α → Bool} {item : α}
    (himp : ∀ other, fewer other = true → more other = true) (hmem : item ∈ items)
    (hmore : more item = true) (hfewer : fewer item = false) :
    (items.filter fewer).length < (items.filter more).length := by
  have hsublist := List.monotone_filter_right items himp
  refine hsublist.length_le.lt_of_ne fun hlength => ?_
  have hkept : item ∈ items.filter fewer :=
    hsublist.eq_of_length hlength ▸ List.mem_filter.2 ⟨hmem, hmore⟩
  rw [List.mem_filter, hfewer] at hkept
  cases hkept.2

theorem countBelow_lt {rank : NodeId → Nat} {id owner : NodeId} (hlive : graph.contains id)
    (hrank : rank id < rank owner) : graph.countBelow rank id < graph.countBelow rank owner :=
  length_filter_lt (fun _ hother => decide_eq_true ((of_decide_eq_true hother).trans hrank))
    (mem_ids_of_contains hlive) (decide_eq_true hrank) (decide_eq_false (Nat.lt_irrefl _))

theorem countBelow_lt_length {rank : NodeId → Nat} {id : NodeId} (hlive : graph.contains id) :
    graph.countBelow rank id < graph.nodes.length := by
  rw [countBelow, ← List.length_map Node.id, List.length_filter_lt_length_iff_exists]
  exact ⟨id, mem_ids_of_contains hlive, by simp⟩

/-- Whatever rank ownership goes down along, there are no more levels than nodes. -/
theorem removes_removeNode (rank : NodeId → Nat) :
    Removes rank (fun _ => True) removeNode := by
  intro graph id hsound hlive hdescends _
  exact removes_removeWithin (graph.countBelow rank) graph.nodes.length graph id hsound hlive
    (fun owner other howner howns =>
      countBelow_lt howns.choose_spec.2.2 (hdescends owner other howner howns))
    (countBelow_lt_length hlive)

/-- **A removal takes a node with all that it owns and nothing else.** -/
theorem exists_remove (hsound : graph.Sound) {id : NodeId} (hlive : graph.contains id)
    {rank : NodeId → Nat} (hdescends : graph.Descends rank id) :
    ∃ after, graph.remove id = .ok after ∧ graph.Without (graph.Reaches id) after := by
  obtain ⟨last, after, hrun, hwithout⟩ :=
    removes_removeNode rank graph id hsound hlive hdescends trivial
  exact ⟨after, by rw [remove, hrun], hwithout⟩

end Graph

end CodeGraph
