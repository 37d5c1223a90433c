import CodeGraph.Proofs.Workspace.Install
import CodeGraph.Proofs.Workspace.Resolve

/-!
# Binding the imports of a file

An import gets a binding and the one edge that the binding calls for. When all imports of a file have
been bound, the file waits no longer: its bindings stand for modules of its own language.
-/

namespace CodeGraph

namespace Workspace

/-- A workspace with more outside modules and nothing else that is new. -/
structure Grown (before after : Workspace) : Prop where
  files : after.files = before.files
  importers : after.importers = before.importers
  node? : ∀ id node, before.graph.node? id = some node → after.graph.node? id = some node
  hasEdge : ∀ key, after.graph.hasEdge key = before.graph.hasEdge key
  externals : ∀ key id, before.externals.get? key = some id → after.externals.get? key = some id

theorem Grown.refl (workspace : Workspace) : workspace.Grown workspace :=
  ⟨rfl, rfl, fun _ _ h => h, fun _ => rfl, fun _ _ h => h⟩

section Grown

variable {environment : Environment} {stale pending : Path → Prop} {before after : Workspace}

/-- The invariant does not mind outside modules that nothing imports yet. -/
theorem Grown.stands (hgrown : before.Grown after)
    (hstands : before.Stands environment stale pending) (hsound : after.graph.Sound)
    (hregistered : after.Registered)
    (hnew : ∀ id node, after.graph.node? id = some node → node.kind ≠ .external →
      before.graph.node? id = some node) :
    after.Stands environment stale pending := by
  have hsame : ∀ file ∈ before.files, ∀ id ∈ file.nodes,
      after.graph.node? id = before.graph.node? id := by
    intro file hfile id hid
    obtain ⟨node, hnode, -⟩ := hstands.exists_node hfile hid
    rw [hnode, hgrown.node? id node hnode]
  refine ⟨hsound, ?_, ?_, ?_, ?_, ?_, ?_, hregistered, ?_, ?_⟩
  · rw [hgrown.files]
    exact hstands.ordered
  · rw [hgrown.files]
    exact hstands.parallel
  · rw [hgrown.files]
    exact fun file hfile => (hstands.held file hfile).congr (hsame file hfile)
  · rw [hgrown.files]
    intro file hfile hstale
    obtain ⟨hdrawn, hcurrent⟩ := hstands.drawn file hfile hstale
    exact ⟨hdrawn.congr (hsame file hfile), hcurrent⟩
  · rw [hgrown.files]
    exact fun id node hnode hkind => hstands.covered id node (hnew id node hnode hkind) hkind
  · refine ⟨?_, ?_, ?_, ?_, ?_⟩ <;> simp only [hgrown.files, hgrown.hasEdge]
    · exact hstands.wired.defines
    · exact hstands.wired.contains
    · exact hstands.wired.imports
    · exact hstands.wired.lists
    · exact hstands.wired.uses
  · rw [hgrown.files]
    intro file hfile id hid
    obtain ⟨node, binding, language, hnode, hbinding, hlanguage, hbinds⟩ :=
      hstands.bound file hfile id hid
    exact ⟨node, binding, language, hgrown.node? id node hnode, hbinding, hlanguage,
      hbinds.congr (fun other => by rw [hgrown.hasEdge])
        (fun target found hfound => ⟨found, hgrown.node? target found hfound, rfl⟩)
        fun name module hmodule => hgrown.externals _ _ hmodule⟩
  · refine ⟨?_, ?_, ?_⟩ <;> simp only [indexedAt, hgrown.importers, hgrown.files]
    · exact hstands.indexed.sorted
    · exact hstands.indexed.only
    · exact hstands.indexed.all

theorem Registered.insert {graph : Graph} {language : Language} {name : String}
    (hregistered : before.Registered) (hsound : before.graph.Sound)
    (hfree : before.externals.get? (language, name) = none)
    (hinserted : before.graph.Inserted (Node.ofExternal language name) graph) :
    ({ before with
      graph, externals := before.externals.put (language, name) before.graph.nextId } :
        Workspace).Registered := by
  refine ⟨hregistered.keyed.put _ _, fun language' name' id => ?_, fun id node hnode hkind => ?_⟩
  · simp only [Table.get?_put, hinserted.node?]
    by_cases hid : id = before.graph.nextId
    · subst hid
      have hnone := hsound.node?_eq_none_of_le (Nat.le_refl _)
      have hnot : before.externals.get? (language', name') ≠ some before.graph.nextId := by
        rw [Ne, hregistered.shown, hnone]
        exact fun h => by cases h
      rw [if_pos rfl]
      split
      · rename_i hkey
        cases hkey
        exact iff_of_true rfl rfl
      · rename_i hkey
        refine iff_of_false hnot fun h => hkey ?_
        have hnode := Option.some.inj h
        have hname : some name = some name' := congrArg Node.name hnode
        exact Prod.ext (congrArg Node.language hnode).symm (Option.some.inj hname).symm
    · rw [if_neg hid]
      split
      · rename_i hkey
        cases hkey
        refine iff_of_false (fun h => hid (Option.some.inj h).symm) fun h => ?_
        rw [(hregistered.shown _ _ _).2 h] at hfree
        cases hfree
      · exact hregistered.shown language' name' id
  · simp only [Table.get?_put]
    have hnode : graph.node? id = some node := hnode
    rw [hinserted.node?] at hnode
    split at hnode
    · rename_i hid
      exact ⟨language, name, by rw [if_pos rfl, hid]⟩
    · obtain ⟨language', name', hget⟩ := hregistered.covered id node hnode hkind
      refine ⟨language', name', ?_⟩
      rw [if_neg, hget]
      intro hkey
      rw [hkey, hfree] at hget
      cases hget

/-- An outside module is registered under one id, which it keeps. -/
theorem exists_externalNode (hstands : before.Stands environment stale pending)
    (language : Language) (name : String) :
    ∃ id after, before.externalNode language name = .ok (id, after) ∧ before.Grown after ∧
      after.Stands environment stale pending ∧
      after.externals.get? (language, name) = some id := by
  rw [externalNode]
  cases hget : before.externals.get? (language, name) with
  | some id => exact ⟨id, before, rfl, .refl before, hstands, hget⟩
  | none =>
    obtain ⟨graph, hrun, hinserted⟩ := Graph.exists_insertNode hstands.graph
      (Node.ofExternal language name) (by rintro ⟨⟩)
    let after : Workspace := { before with
      graph, externals := before.externals.put (language, name) before.graph.nextId }
    have hold : ∀ id node, before.graph.node? id = some node → graph.node? id = some node := by
      intro id node hnode
      rw [hinserted.node?, if_neg (hstands.graph.lt_nextId hnode).ne, hnode]
    have hgrown : before.Grown after := by
      refine ⟨rfl, rfl, hold, hinserted.hasEdge, fun key id hid => ?_⟩
      refine (Table.get?_put _ _ _ _).trans ?_
      rw [if_neg, hid]
      rintro rfl
      rw [hget] at hid
      cases hid
    refine ⟨before.graph.nextId, after, ?_, hgrown, ?_, ?_⟩
    · simp only [hrun, ok_bind]
      rfl
    · refine hgrown.stands hstands hinserted.sound
        (hstands.registered.insert hstands.graph hget hinserted) fun id node hnode hkind => ?_
      have hnode : graph.node? id = some node := hnode
      rw [hinserted.node?] at hnode
      split at hnode
      · obtain rfl := Option.some.inj hnode
        exact absurd rfl hkind
      · exact hnode
    · exact (Table.get?_put _ _ _ _).trans (if_pos rfl)

end Grown

/-! ### One import -/

/-- The node that a binding stands for. -/
def Aims (workspace : Workspace) (language : Language) (goal : Option NodeId) : Binding → Prop
  | .resolved target => goal = some target ∧ ∃ node, workspace.graph.node? target = some node ∧
    (node.kind = .file ∨ node.kind.isSymbol = true)
  | .unresolved _ => goal = none
  | .external name => ∃ module, workspace.externals.get? (language, name) = some module ∧
    goal = some module

/-- A workspace after one import got a binding and the edge to its goal. -/
structure Rebound (before : Workspace) (id : NodeId) (binding : Binding) (goal : Option NodeId)
    (after : Workspace) : Prop where
  files : after.files = before.files
  importers : after.importers = before.importers
  externals : after.externals = before.externals
  sound : after.graph.Sound
  node? : ∀ other, after.graph.node? other = if other = id then
    (before.graph.node? id).map fun node => node.rebind binding else before.graph.node? other
  hasEdge : ∀ key, after.graph.hasEdge key ↔ (∃ target, goal = some target ∧
    key = ⟨id, target, .imports⟩) ∨
    (before.graph.hasEdge key ∧ ¬ (key.source = id ∧ key.kind = .imports))

section Rebound

variable {environment : Environment} {stale pending : Path → Prop} {before after : Workspace}
  {file : SourceFile} {id : NodeId} {binding : Binding} {goal : Option NodeId}
  (hrebound : Rebound before id binding goal after)

include hrebound

theorem Rebound.exists_now {other : NodeId} {node : Node}
    (hnode : before.graph.node? other = some node) :
    ∃ now, after.graph.node? other = some now ∧ now.kind = node.kind := by
  rw [hrebound.node?]
  split
  · rename_i heq
    exact ⟨node.rebind binding, by rw [← heq, hnode]; rfl, Node.kind_rebind node binding⟩
  · exact ⟨node, hnode, rfl⟩

theorem Rebound.exists_before {other : NodeId} {now : Node}
    (hnow : after.graph.node? other = some now) :
    ∃ node, before.graph.node? other = some node ∧ now.kind = node.kind := by
  rw [hrebound.node?] at hnow
  split at hnow
  · rename_i heq
    obtain ⟨node, hnode, rfl⟩ := Option.map_eq_some_iff.1 hnow
    exact ⟨node, heq ▸ hnode, Node.kind_rebind node binding⟩
  · exact ⟨now, hnow, rfl⟩

/-- The new binding has the edges it calls for. -/
theorem Rebound.binds {language : Language} (haims : before.Aims language goal binding) :
    after.Binds language id binding := by
  have hedge : ∀ other, after.graph.hasEdge ⟨id, other, .imports⟩ ↔ goal = some other := by
    intro other
    rw [hrebound.hasEdge]
    constructor
    · rintro (⟨target, htarget, hkey⟩ | ⟨-, hnot⟩)
      · cases hkey
        exact htarget
      · exact absurd ⟨rfl, rfl⟩ hnot
    · exact fun hgoal => .inl ⟨other, hgoal, rfl⟩
  cases binding with
  | resolved target =>
    obtain ⟨rfl, node, hnode, hkind⟩ := haims
    obtain ⟨now, hnow, hsame⟩ := hrebound.exists_now hnode
    refine ⟨⟨now, hnow, hsame ▸ hkind⟩, fun other => ?_⟩
    rw [hedge, Option.some.injEq, eq_comm]
  | unresolved reason =>
    intro other hother
    obtain rfl : goal = none := haims
    cases (hedge other).1 hother
  | external name =>
    obtain ⟨module, hmodule, rfl⟩ := haims
    refine ⟨module, hrebound.externals ▸ hmodule, fun other => ?_⟩
    rw [hedge, Option.some.injEq, eq_comm]

/-- Other bindings have the edges they had. -/
theorem Rebound.binds_other {language : Language} {other : NodeId} {kept : Binding}
    (hbinds : before.Binds language other kept) (hne : other ≠ id) :
    after.Binds language other kept := by
  refine hbinds.congr (fun target => ?_) (fun _ _ => hrebound.exists_now)
    fun name module hmodule => hrebound.externals ▸ hmodule
  rw [hrebound.hasEdge]
  constructor
  · rintro (⟨_, _, hkey⟩ | ⟨hold, -⟩)
    · cases hkey
      exact absurd rfl hne
    · exact hold
  · exact fun hold => .inr ⟨hold, fun h => hne h.1⟩

variable (hstands : before.Stands environment stale pending) (hfile : file ∈ before.files)
  (hid : id ∈ file.imports)

include hstands hfile hid

/-- Only imports get bindings. -/
theorem Rebound.node?_of_kind {other : NodeId} {node : Node}
    (hnode : before.graph.node? other = some node) (hkind : node.kind ≠ .importDecl) :
    after.graph.node? other = some node := by
  rw [hrebound.node?, if_neg, hnode]
  rintro rfl
  exact hkind (hstands.kind_of_import hfile hid hnode)

theorem Rebound.held {other : SourceFile} (hother : other ∈ before.files) :
    other.Held after.graph := by
  have hheld := hstands.held other hother
  have hparallel := hstands.parallel other hother
  refine ⟨?_, fun index symbol fact hsymbol hfact => ?_, fun import' himport => ?_⟩
  · obtain ⟨node, errors, hnode, hkind, hrest⟩ := hheld.own
    exact ⟨node, errors, hrebound.node?_of_kind hstands hfile hid hnode (by rw [hkind]; decide),
      hkind, hrest⟩
  · obtain ⟨node, parent, exported, hnode, hkind, hrest⟩ :=
      hheld.symbol index symbol fact hsymbol hfact
    refine ⟨node, parent, exported, hrebound.node?_of_kind hstands hfile hid hnode fun h => ?_,
      hkind, hrest⟩
    have hisSymbol := hstands.kind_of_symbol hother (List.mem_of_getElem? hsymbol) hnode
    rw [h] at hisSymbol
    cases hisSymbol
  · obtain ⟨node, detail, hnode, hkind, hpath, hdetail⟩ := hheld.imported import' himport
    rw [hrebound.node?]
    split
    · rename_i heq
      refine ⟨node.rebind binding, { detail with binding }, ?_, ?_, ?_, ?_⟩
      · rw [← heq, hnode]
        rfl
      · exact (Node.kind_rebind node binding).trans hkind
      · exact (Node.path_rebind node binding).trans hpath
      · rw [Node.rebind, hdetail]
    · exact ⟨node, detail, hnode, hkind, hpath, hdetail⟩

theorem Rebound.drawn {other : SourceFile} (hother : other ∈ before.files)
    (hdrawn : other.Drawn before.graph) : other.Drawn after.graph := by
  refine ⟨?_, fun index symbol fact hsymbol hfact => ?_, fun index import' fact himport hfact => ?_⟩
  · exact hrebound.node?_of_kind hstands hfile hid hdrawn.own fun h => by cases h
  · have hnode := hdrawn.symbol index symbol fact hsymbol hfact
    refine hrebound.node?_of_kind hstands hfile hid hnode fun h => ?_
    have hisSymbol := hstands.kind_of_symbol hother (List.mem_of_getElem? hsymbol) hnode
    rw [h] at hisSymbol
    cases hisSymbol
  · obtain ⟨kept, hnode⟩ := hdrawn.imported index import' fact himport hfact
    rw [hrebound.node?]
    split
    · rename_i heq
      exact ⟨binding, by rw [← heq, hnode, Option.map_some, Node.rebind_rebind]⟩
    · exact ⟨kept, hnode⟩

theorem Rebound.registered : after.Registered := by
  refine ⟨hrebound.externals ▸ hstands.registered.keyed, fun language name other => ?_,
    fun other now hnow hkind => ?_⟩
  · rw [hrebound.externals, hstands.registered.shown]
    constructor
    · exact fun hnode => hrebound.node?_of_kind hstands hfile hid hnode fun h => by cases h
    · intro hnow
      obtain ⟨node, hnode, hsame⟩ := hrebound.exists_before hnow
      have hkept := hrebound.node?_of_kind hstands hfile hid hnode fun h => by
        rw [h] at hsame
        cases hsame
      rw [hnode, ← hkept, hnow]
  · obtain ⟨node, hnode, hsame⟩ := hrebound.exists_before hnow
    rw [hrebound.externals]
    exact hstands.registered.covered other node hnode (hsame ▸ hkind)

theorem Rebound.wired : after.Wired := by
  have hother : ∀ key, key.kind ≠ .imports →
      (after.graph.hasEdge key ↔ before.graph.hasEdge key) := by
    intro key hkind
    rw [hrebound.hasEdge]
    constructor
    · rintro (⟨_, _, rfl⟩ | ⟨hold, -⟩)
      · exact absurd rfl hkind
      · exact hold
    · exact fun hold => .inr ⟨hold, fun h => hkind h.2⟩
  have hnodeNe : ∀ other ∈ before.files, other.node ≠ id := by
    rintro other hother rfl
    obtain ⟨node, hnode, -⟩ := hstands.exists_node hother SourceFile.node_mem_nodes
    have hkind := hstands.kind_of_node hother hnode
    rw [hstands.kind_of_import hfile hid hnode] at hkind
    cases hkind
  refine ⟨?_, ?_, ?_, ?_, ?_⟩ <;> rw [hrebound.files]
  · exact fun source target => (hother _ (by simp)).trans (hstands.wired.defines source target)
  · exact fun source target => (hother _ (by simp)).trans (hstands.wired.contains source target)
  · intro source target hedge
    rcases (hrebound.hasEdge _).1 hedge with ⟨_, _, hkey⟩ | ⟨hold, -⟩
    · cases hkey
      exact .inr ⟨file, hfile, hid⟩
    · exact hstands.wired.imports source target hold
  · intro other hotherFile target htarget
    exact (hrebound.hasEdge _).2 (.inr ⟨hstands.wired.lists other hotherFile target htarget,
      fun h => hnodeNe other hotherFile h.1⟩)
  · intro edge hedge hkind
    refine hstands.wired.uses edge ((hother edge fun h => ?_).1 hedge) hkind
    rw [h] at hkind
    rcases hkind with h | h <;> cases h

/-- **An import of a file that waits got its binding.** -/
theorem Rebound.stands {language : Language} (hpending : pending file.path)
    (haims : before.Aims language goal binding) : after.Stands environment stale pending := by
  refine ⟨hrebound.sound, ?_, ?_, ?_, ?_, ?_, hrebound.wired hstands hfile hid,
    hrebound.registered hstands hfile hid, ?_, ?_⟩
  · rw [hrebound.files]
    exact hstands.ordered
  · rw [hrebound.files]
    exact hstands.parallel
  · rw [hrebound.files]
    exact fun other hother => hrebound.held hstands hfile hid hother
  · rw [hrebound.files]
    intro other hother hstale
    obtain ⟨hdrawn, hcurrent⟩ := hstands.drawn other hother hstale
    exact ⟨hrebound.drawn hstands hfile hid hother hdrawn, hcurrent⟩
  · rw [hrebound.files]
    intro other now hnow hkind
    obtain ⟨node, hnode, hsame⟩ := hrebound.exists_before hnow
    exact hstands.covered other node hnode (hsame ▸ hkind)
  · rw [hrebound.files]
    intro other hother import' himport
    obtain ⟨node, kept, language', hnode, hkept, hlanguage, hbinds⟩ :=
      hstands.bound other hother import' himport
    rw [hrebound.node?]
    split
    · rename_i heq
      subst heq
      obtain rfl := hstands.eq_of_mem hother hfile (SourceFile.mem_nodes_of_import himport)
        (SourceFile.mem_nodes_of_import hid)
      refine ⟨node.rebind binding, binding, language, by rw [hnode]; rfl, ?_,
        fun h => absurd hpending h, hrebound.binds haims⟩
      rw [Node.binding?_rebind, hkept]
      rfl
    · rename_i hne
      exact ⟨node, kept, language', hnode, hkept, hlanguage, hrebound.binds_other hbinds hne⟩
  · refine ⟨?_, ?_, ?_⟩ <;> simp only [indexedAt, hrebound.importers, hrebound.files]
    · exact hstands.indexed.sorted
    · exact hstands.indexed.only
    · exact hstands.indexed.all

end Rebound

/-- The binding of an import, by its node. -/
def bindingAt? (workspace : Workspace) (id : NodeId) : Option Binding :=
  (workspace.graph.node? id).bind Node.binding?

section Bind

variable {environment : Environment} {stale pending : Path → Prop} {workspace : Workspace}

theorem exists_bindingNode (hstands : workspace.Stands environment stale pending)
    (language : Language) {binding : Binding}
    (htarget : ∀ target, binding = .resolved target → ∃ node,
      workspace.graph.node? target = some node ∧ (node.kind = .file ∨ node.kind.isSymbol = true)) :
    ∃ goal after, workspace.bindingNode language binding = .ok (goal, after) ∧
      workspace.Grown after ∧ after.Stands environment stale pending ∧
      after.Aims language goal binding := by
  cases binding with
  | resolved target =>
    exact ⟨some target, workspace, rfl, .refl workspace, hstands, rfl, htarget target rfl⟩
  | unresolved reason => exact ⟨none, workspace, rfl, .refl workspace, hstands, rfl⟩
  | external name =>
    obtain ⟨id, after, hrun, hgrown, hafter, hget⟩ := exists_externalNode hstands language name
    refine ⟨some id, after, ?_, hgrown, hafter, id, hget, rfl⟩
    rw [bindingNode, hrun]
    rfl

/-- What binding one import does to the others. -/
structure BoundOne (environment : Environment) (stale pending : Path → Prop) (before : Workspace)
    (language : Language) (id : NodeId) (binding : Binding) (after : Workspace) : Prop where
  stands : after.Stands environment stale pending
  files : after.files = before.files
  bindingAt? : after.bindingAt? id = some binding
  binds : after.Binds language id binding
  kept : ∀ other, other ≠ id → before.graph.contains other →
    after.graph.node? other = before.graph.node? other
  kind : ∀ other node, before.graph.node? other = some node →
    ∃ now, after.graph.node? other = some now ∧ now.kind = node.kind
  binds_other : ∀ language' other kept, other ≠ id → before.Binds language' other kept →
    after.Binds language' other kept
  hasEdge : ∀ key, key.kind ≠ .imports →
    (after.graph.hasEdge key ↔ before.graph.hasEdge key)

theorem mem_strayEdges {graph : Graph} {id : NodeId} {goal : Option NodeId} {key : EdgeKey} :
    key ∈ strayEdges graph id goal ↔
      graph.hasEdge key ∧ key.source = id ∧ key.kind = .imports ∧ some key.target ≠ goal := by
  refine (Graph.exists_mem_edgesFrom
    (fun key => key.kind = .imports && some key.target ≠ goal) fun _ => rfl).trans ?_
  simp

/-- What a binding stands for is there. -/
theorem Aims.contains (hstands : workspace.Stands environment stale pending) {language : Language}
    {goal : Option NodeId} {binding : Binding} (haims : workspace.Aims language goal binding)
    {target : NodeId} (hgoal : goal = some target) : workspace.graph.contains target := by
  subst hgoal
  cases binding with
  | resolved other =>
    obtain ⟨hgoal, found, hfound, -⟩ := haims
    obtain rfl := Option.some.inj hgoal
    exact Graph.contains_of_node? hfound
  | unresolved reason => cases haims
  | external name =>
    obtain ⟨module, hmodule, hgoal⟩ := haims
    obtain rfl := Option.some.inj hgoal
    exact Graph.contains_of_node? ((hstands.registered.shown _ _ _).1 hmodule)

/-- The node rebound, the stray edges taken out and the one to the goal put in. -/
theorem rebound_of_rewired {id : NodeId} {node : Node} {binding : Binding} {goal : Option NodeId}
    {first last : Graph} (hnode : workspace.graph.node? id = some node)
    (hupdated : workspace.graph.Updated id (node.rebind binding) first)
    (hrewired : (first.removeEdges (strayEdges first id goal)).Rewired last)
    (hedge : ∀ key, last.hasEdge key ↔
      (∃ target, goal = some target ∧ key = (Edge.structural id target .imports).key) ∨
        (first.removeEdges (strayEdges first id goal)).hasEdge key) :
    Rebound workspace id binding goal { workspace with graph := last } := by
  obtain ⟨hremoved, hremovedEdge⟩ :=
    Graph.removeEdges_view hupdated.sound (strayEdges first id goal)
  refine ⟨rfl, rfl, rfl, hrewired.sound, fun other => ?_, fun key => (hedge key).trans ⟨?_, ?_⟩⟩
  · simp only [hrewired.node?, hremoved.node?, hupdated.node?, hnode, Option.map_some]
  · rintro (hnew | hold)
    · exact .inl hnew
    · rw [hremovedEdge, mem_strayEdges, hupdated.hasEdge] at hold
      by_cases hown : key.source = id ∧ key.kind = .imports
      · have hsame : some key.target = goal := by
          by_contra hne
          exact hold.2 ⟨hold.1, hown.1, hown.2, hne⟩
        refine .inl ⟨key.target, hsame.symm, ?_⟩
        rw [← hown.1, ← hown.2]
      · exact .inr ⟨hold.1, hown⟩
  · rintro (hnew | ⟨hold, hown⟩)
    · exact .inl hnew
    · rw [hremovedEdge, mem_strayEdges, hupdated.hasEdge]
      exact .inr ⟨hold, fun h => hown ⟨h.2.1, h.2.2.1⟩⟩

theorem exists_bindImport (hstands : workspace.Stands environment stale pending)
    {file : SourceFile} (hfile : file ∈ workspace.files) (hpending : pending file.path)
    (language : Language) {id : NodeId} (hid : id ∈ file.imports) (binding : Binding)
    (htarget : ∀ target, binding = .resolved target → ∃ node,
      workspace.graph.node? target = some node ∧ (node.kind = .file ∨ node.kind.isSymbol = true)) :
    ∃ after, bindImport language workspace id binding = .ok after ∧
      BoundOne environment stale pending workspace language id binding after := by
  obtain ⟨goal, grown, hrunGoal, hgrown, hstandsGrown, haims⟩ :=
    exists_bindingNode hstands language htarget
  have hfileGrown : file ∈ grown.files := hgrown.files ▸ hfile
  obtain ⟨node, kept, -, hnode, hkept, -⟩ := hstandsGrown.bound file hfileGrown id hid
  obtain ⟨first, hrunFirst, hupdated⟩ := Graph.exists_update hstandsGrown.graph
    (fun node => node.rebind binding) hnode fun _ => .inl (Node.path_rebind node binding)
  have hchanged : Graph.changed node (fun node => node.rebind binding) = node.rebind binding := by
    rw [Graph.changed, ← Node.id_rebind node binding, ← Node.kind_rebind node binding]
  rw [hchanged] at hupdated
  obtain ⟨hremoved, -⟩ := Graph.removeEdges_view hupdated.sound (strayEdges first id goal)
  obtain ⟨second, hrunSecond, hrewired, hedge⟩ := Graph.exists_insertOptional hremoved.sound
    goal (fun target => Edge.structural id target .imports) fun target htarget => by
      rw [hremoved.contains, hremoved.contains]
      exact ⟨hupdated.contains (Graph.contains_of_node? hnode),
        hupdated.contains (haims.contains hstandsGrown htarget)⟩
  have hrebound := rebound_of_rewired hnode hupdated hrewired hedge
  refine ⟨{ grown with graph := second }, ?_,
    hrebound.stands hstandsGrown hfileGrown hid hpending haims,
    hgrown.files, ?_, hrebound.binds haims, fun other hne hlive => ?_, fun other found hfound => ?_,
    fun language' other kept' hne hbinds => hrebound.binds_other ?_ hne, fun key hkind => ?_⟩
  · simp only [bindImport, hrunGoal, ok_bind, hrunFirst, hrunSecond]
    rfl
  · rw [bindingAt?, hrebound.node?, if_pos rfl, hnode, Option.map_some, Option.bind_some,
      Node.binding?_rebind, hkept, Option.map_some]
  · obtain ⟨found, hfound⟩ := Graph.contains_iff.1 hlive
    rw [hrebound.node?, if_neg hne, hfound, hgrown.node? other found hfound]
  · exact hrebound.exists_now (hgrown.node? other found hfound)
  · exact hbinds.congr (fun target => by rw [hgrown.hasEdge])
      (fun target found hfound => ⟨found, hgrown.node? target found hfound, rfl⟩)
      fun name module hmodule => hgrown.externals _ _ hmodule
  · rw [hrebound.hasEdge, hgrown.hasEdge]
    constructor
    · rintro (⟨_, _, rfl⟩ | ⟨hold, -⟩)
      · exact absurd rfl hkind
      · exact hold
    · exact fun hold => .inr ⟨hold, fun hown => hkind hown.2⟩

/-! ### All imports of a file -/

/-- The imports of a file stand for what they resolve to. -/
def Resolved (workspace : Workspace) (file : SourceFile) : Prop :=
  ∀ entry ∈ workspace.resolutions file, workspace.bindingAt? entry.1 = some entry.2

instance (workspace : Workspace) (file : SourceFile) : Decidable (workspace.Resolved file) :=
  inferInstanceAs (Decidable (∀ entry ∈ workspace.resolutions file,
    workspace.bindingAt? entry.1 = some entry.2))

theorem Resolved.bindingAt?_eq {workspace : Workspace} {file : SourceFile}
    (hresolved : workspace.Resolved file) {index : Nat} {id : NodeId} {fact : ImportFact}
    {plan : ModulePlan} (hid : file.imports[index]? = some id)
    (hfact : file.facts.imports[index]? = some fact) (hplan : file.plans[index]? = some plan) :
    workspace.bindingAt? id = some (workspace.resolveImport file.language fact plan) := by
  have hentry : (id, fact, plan) ∈ file.imports.zip (file.facts.imports.zip file.plans) := by
    refine List.mem_iff_getElem?.2 ⟨index, ?_⟩
    rw [List.getElem?_zip_eq_some, List.getElem?_zip_eq_some]
    exact ⟨hid, hfact, hplan⟩
  exact hresolved (id, workspace.resolveImport file.language fact plan)
    (List.mem_map.2 ⟨(id, fact, plan), hentry, rfl⟩)

theorem resolutions_eq_of_files {left right : Workspace} (hfiles : left.files = right.files)
    (file : SourceFile) : left.resolutions file = right.resolutions file := by
  rw [resolutions, resolutions]
  refine List.map_congr_left fun (id, fact, plan) _ => ?_
  exact congrArg (Prod.mk id) (resolveImport_eq_of_files hfiles file.language fact plan)

theorem map_fst_resolutions (workspace : Workspace) {file : SourceFile} (hparallel : file.Parallel) :
    (workspace.resolutions file).map Prod.fst = file.imports := by
  have hzip : (file.facts.imports.zip file.plans).length = file.imports.length := by
    rw [List.length_zip, hparallel.plans, hparallel.imports, Nat.min_self]
  rw [resolutions, List.map_map]
  exact List.map_fst_zip hzip.ge

/-- What imports resolve to is there and is a file or a symbol. -/
theorem Stands.exists_target (hstands : workspace.Stands environment stale pending)
    {target : NodeId} (htarget : workspace.IsTarget target) :
    ∃ node, workspace.graph.node? target = some node ∧
      (node.kind = .file ∨ node.kind.isSymbol = true) := by
  obtain ⟨file, hfile, rfl | hid⟩ := htarget
  · obtain ⟨node, errors, hnode, hkind, -⟩ := (hstands.held file hfile).own
    exact ⟨node, hnode, .inl hkind⟩
  · obtain ⟨node, _, _, hnode, hkind, -⟩ :=
      (hstands.held file hfile).exists_symbol (hstands.parallel file hfile) hid
    exact ⟨node, hnode, .inr hkind⟩

/-- A file whose imports are all bound in its own language waits no longer. -/
theorem Stands.bound_all {path : Path}
    (hstands : workspace.Stands environment stale fun other => pending other ∨ other = path)
    (hbound : ∀ file ∈ workspace.files, file.path = path → ∀ id ∈ file.imports, ∃ binding,
      workspace.bindingAt? id = some binding ∧ workspace.Binds file.language id binding) :
    workspace.Stands environment stale fun other => pending other ∧ other ≠ path where
  graph := hstands.graph
  ordered := hstands.ordered
  parallel := hstands.parallel
  held := hstands.held
  drawn := hstands.drawn
  covered := hstands.covered
  wired := hstands.wired
  registered := hstands.registered
  bound := by
    intro file hfile id hid
    by_cases hpath : file.path = path
    · obtain ⟨binding, hbinding, hbinds⟩ := hbound file hfile hpath id hid
      obtain ⟨node, hnode, hbinding⟩ := Option.bind_eq_some_iff.1 hbinding
      exact ⟨node, binding, file.language, hnode, hbinding, fun _ => rfl, hbinds⟩
    · obtain ⟨node, binding, language, hnode, hbinding, hlanguage, hbinds⟩ :=
        hstands.bound file hfile id hid
      refine ⟨node, binding, language, hnode, hbinding, fun hnot => hlanguage ?_, hbinds⟩
      rintro (hpending | heq)
      · exact hnot ⟨hpending, hpath⟩
      · exact hpath heq
  indexed := hstands.indexed

/-- What binding a file does to the workspace. -/
structure BoundFile (environment : Environment) (stale pending : Path → Prop) (before : Workspace)
    (path : Path) (after : Workspace) : Prop where
  stands : after.Stands environment stale fun other => pending other ∧ other ≠ path
  files : after.files = before.files
  resolved : ∀ file ∈ before.files, file.path = path → after.Resolved file
  kept : ∀ file ∈ before.files, file.path ≠ path → ∀ id ∈ file.imports,
    after.bindingAt? id = before.bindingAt? id
  hasEdge : ∀ key, key.kind ≠ .imports →
    (after.graph.hasEdge key ↔ before.graph.hasEdge key)

/-- The workspace when the first imports of a file are bound. -/
structure BindingDone (environment : Environment) (stale pending : Path → Prop)
    (before : Workspace) (language : Language) (done : List (NodeId × Binding))
    (after : Workspace) : Prop where
  stands : after.Stands environment stale pending
  files : after.files = before.files
  kind : ∀ other node, before.graph.node? other = some node →
    ∃ now, after.graph.node? other = some now ∧ now.kind = node.kind
  bound : ∀ entry ∈ done, after.bindingAt? entry.1 = some entry.2 ∧
    after.Binds language entry.1 entry.2
  kept : ∀ other, other ∉ done.map Prod.fst → before.graph.contains other →
    after.graph.node? other = before.graph.node? other
  hasEdge : ∀ key, key.kind ≠ .imports →
    (after.graph.hasEdge key ↔ before.graph.hasEdge key)

/-- One more import, bound for the first time, leaves those before it bound. -/
theorem BindingDone.extend {before after next : Workspace} {language : Language}
    {done : List (NodeId × Binding)} {id : NodeId} {binding : Binding}
    (hdone : BindingDone environment stale pending before language done after)
    (hfresh : id ∉ done.map Prod.fst)
    (hone : BoundOne environment stale pending after language id binding next) :
    BindingDone environment stale pending before language (done ++ [(id, binding)]) next where
  stands := hone.stands
  files := hone.files.trans hdone.files
  kind := by
    intro other node hnode
    obtain ⟨now, hnow, hsame⟩ := hdone.kind other node hnode
    obtain ⟨last, hlast, hsame'⟩ := hone.kind other now hnow
    exact ⟨last, hlast, hsame'.trans hsame⟩
  bound := by
    intro entry hentry
    rcases List.mem_append.1 hentry with hentry | hentry
    · have hne : entry.1 ≠ id := fun h => hfresh (h ▸ List.mem_map_of_mem hentry)
      obtain ⟨hbinding, hbinds⟩ := hdone.bound entry hentry
      obtain ⟨node, hnode, -⟩ := Option.bind_eq_some_iff.1 hbinding
      refine ⟨?_, hone.binds_other _ _ _ hne hbinds⟩
      rw [bindingAt?, hone.kept entry.1 hne (Graph.contains_of_node? hnode)]
      exact hbinding
    · obtain rfl := List.mem_singleton.1 hentry
      exact ⟨hone.bindingAt?, hone.binds⟩
  kept := by
    intro other hother hlive
    rw [List.map_append, List.mem_append, not_or] at hother
    have hne : other ≠ id := fun h => hother.2 (by simp [h])
    have hsame := hdone.kept other hother.1 hlive
    rw [hone.kept other hne, hsame]
    rwa [Graph.contains, hsame]
  hasEdge := fun key hkind => (hone.hasEdge key hkind).trans (hdone.hasEdge key hkind)

/-- What an import of a file resolves to is there when its turn comes. -/
theorem BindingDone.exists_target {after : Workspace} {language : Language}
    {done : List (NodeId × Binding)} {file : SourceFile}
    (hstands : workspace.Stands environment stale pending) {pending' : Path → Prop}
    (hdone : BindingDone environment stale pending' workspace language done after)
    {id target : NodeId} (hentry : (id, Binding.resolved target) ∈ workspace.resolutions file) :
    ∃ node, after.graph.node? target = some node ∧
      (node.kind = .file ∨ node.kind.isSymbol = true) := by
  obtain ⟨_, _, heq⟩ := List.mem_map.1 hentry
  obtain ⟨node, hnode, hkind⟩ := hstands.exists_target
    (isTarget_of_resolveImport (congrArg Prod.snd heq))
  obtain ⟨now, hnow, hsame⟩ := hdone.kind target node hnode
  exact ⟨now, hnow, hsame ▸ hkind⟩

theorem exists_bindImport_foldlM (hstands : workspace.Stands environment stale pending)
    {file : SourceFile} (hmem : file ∈ workspace.files) :
    ∃ after, (workspace.resolutions file).foldlM (fun workspace entry =>
        bindImport file.language workspace entry.1 entry.2) workspace = .ok after ∧
      BindingDone environment stale (fun other => pending other ∨ other = file.path) workspace
        file.language (workspace.resolutions file) after := by
  have hparallel := hstands.parallel file hmem
  have hids := map_fst_resolutions workspace hparallel
  have hnodup : ((workspace.resolutions file).map Prod.fst).Nodup := by
    rw [hids]
    exact (List.nodup_append.1 (List.nodup_cons.1 hparallel.nodup).2).2.1
  refine exists_foldlM _ (workspace.resolutions file) workspace
    (BindingDone environment stale (fun other => pending other ∨ other = file.path) workspace
      file.language)
    ⟨hstands.mono (fun _ _ h => h) fun _ _ => .inl, rfl, fun _ node hnode => ⟨node, hnode, rfl⟩,
      by simp, fun _ _ _ => rfl, fun _ _ => Iff.rfl⟩ ?_
  rintro done ⟨id, binding⟩ rest state hitems hdone
  have hentry : (id, binding) ∈ workspace.resolutions file := by simp [hitems]
  have hid : id ∈ file.imports := hids ▸ List.mem_map_of_mem hentry
  have hfresh : id ∉ done.map Prod.fst :=
    notMem_of_split hnodup (by rw [hitems, List.map_append, List.map_cons])
  obtain ⟨next, hrun, hone⟩ := exists_bindImport hdone.stands (hdone.files ▸ hmem) (.inr rfl)
    file.language hid binding (by
      rintro target rfl
      exact hdone.exists_target hstands hentry)
  exact ⟨next, hrun, hdone.extend hfresh hone⟩

/-- **The imports of a file are bound one after the other.** What they resolve to was settled before
the first was bound, and stays. -/
theorem exists_bindFile (hstands : workspace.Stands environment stale pending) (path : Path) :
    ∃ after, workspace.bindFile path = .ok after ∧
      BoundFile environment stale pending workspace path after := by
  rw [bindFile]
  cases hfile : workspace.file? path with
  | none =>
    have habsent := file?_eq_none_iff.1 hfile
    refine ⟨workspace, rfl, hstands.mono (fun _ _ h => h) ?_, rfl, ?_, fun _ _ _ _ _ => rfl,
      fun _ _ => Iff.rfl⟩
    · exact fun file hmem hpending => ⟨hpending, habsent file hmem⟩
    · exact fun file hmem hpath => absurd hpath (habsent file hmem)
  | some file =>
    obtain ⟨hmem, rfl⟩ := file?_mem hfile
    have hids := map_fst_resolutions workspace (hstands.parallel file hmem)
    obtain ⟨after, hrun, hdone⟩ := exists_bindImport_foldlM hstands hmem
    refine ⟨after, hrun, hdone.stands.bound_all ?_, hdone.files, ?_, ?_, hdone.hasEdge⟩
    · rw [hdone.files]
      intro other hother hpath id hid
      obtain rfl := hstands.ordered.eq_of_path hother hmem hpath
      rw [← hids] at hid
      obtain ⟨entry, hentry, rfl⟩ := List.mem_map.1 hid
      exact ⟨entry.2, hdone.bound entry hentry⟩
    · intro other hother hpath entry hentry
      obtain rfl := hstands.ordered.eq_of_path hother hmem hpath
      rw [resolutions_eq_of_files hdone.files] at hentry
      exact (hdone.bound entry hentry).1
    · intro other hother hpath id hid
      obtain ⟨node, hnode, -⟩ := hstands.exists_node hother (SourceFile.mem_nodes_of_import hid)
      rw [bindingAt?, hdone.kept id ?_ (Graph.contains_of_node? hnode), bindingAt?]
      rw [hids]
      intro hown
      exact hpath (hstands.eq_of_mem hother hmem (SourceFile.mem_nodes_of_import hid)
        (SourceFile.mem_nodes_of_import hown) ▸ rfl)

end Bind

end Workspace

end CodeGraph
