import CodeGraph.Proofs.Workspace.Names

/-!
# Linking the uses of files

Linking a file changes only the uses that leave it, and collecting outside modules takes only those
that nothing imports. Neither touches what the uses of any file depend on, so a file stays linked
while others are linked after it.
-/

namespace CodeGraph

/-- The key of a use that leaves the file. -/
def SourceFile.Uses (file : SourceFile) (key : EdgeKey) : Prop :=
  (key.source = file.node ∨ key.source ∈ file.symbols) ∧
    (key.kind = .references ∨ key.kind = .inherits)

instance (file : SourceFile) (key : EdgeKey) : Decidable (file.Uses key) :=
  inferInstanceAs (Decidable (_ ∧ _))

namespace Workspace

/-- A workspace with the same files and the same bindings: only uses may differ, and outside modules
that nothing imports. -/
structure Adjusted (before after : Workspace) : Prop where
  files : after.files = before.files
  indexedAt : ∀ place, after.indexedAt place = before.indexedAt place
  sound : after.graph.Sound
  node? : ∀ file ∈ before.files, ∀ id ∈ file.nodes, after.graph.node? id = before.graph.node? id
  old : ∀ id node, after.graph.node? id = some node → before.graph.node? id = some node
  registered : after.Registered
  externals : ∀ key module, before.externals.get? key = some module →
    (∃ source, before.graph.hasEdge ⟨source, module, .imports⟩) →
    after.externals.get? key = some module
  hasEdge : ∀ key, key.kind ≠ .references → key.kind ≠ .inherits →
    (after.graph.hasEdge key ↔ before.graph.hasEdge key)
  uses : ∀ key, after.graph.hasEdge key → key.kind = .references ∨ key.kind = .inherits →
    ∃ file ∈ before.files, IsUseOf before file key

/-- A node that is still what uses can lead to. -/
def Stays (workspace : Workspace) (left right : NodeId) : Prop :=
  left = right ∧ workspace.IsTarget left

section Adjusted

variable {environment : Environment} {stale pending : Path → Prop} {before after : Workspace}
  (hadjusted : before.Adjusted after)

include hadjusted

theorem Adjusted.imports_iff (source target : NodeId) :
    after.graph.hasEdge ⟨source, target, .imports⟩ ↔
      before.graph.hasEdge ⟨source, target, .imports⟩ :=
  hadjusted.hasEdge _ (fun h => by cases h) fun h => by cases h

theorem Adjusted.trans {last : Workspace} (hlast : after.Adjusted last) :
    before.Adjusted last where
  files := hlast.files.trans hadjusted.files
  indexedAt := fun place => (hlast.indexedAt place).trans (hadjusted.indexedAt place)
  sound := hlast.sound
  node? := by
    intro file hfile id hid
    rw [hlast.node? file (hadjusted.files ▸ hfile) id hid, hadjusted.node? file hfile id hid]
  old := fun id node hnode => hadjusted.old id node (hlast.old id node hnode)
  registered := hlast.registered
  externals := by
    rintro key module hmodule ⟨source, hsource⟩
    exact hlast.externals key module (hadjusted.externals key module hmodule ⟨source, hsource⟩)
      ⟨source, (hadjusted.imports_iff source module).2 hsource⟩
  hasEdge := fun key hreference hinherit =>
    (hlast.hasEdge key hreference hinherit).trans (hadjusted.hasEdge key hreference hinherit)
  uses := by
    intro key hkey hkind
    obtain ⟨file, hfile, huse⟩ := hlast.uses key hkey hkind
    refine ⟨file, hadjusted.files ▸ hfile, huse.source, ?_, huse.kind⟩
    have htarget := huse.target
    rwa [IsSymbol, hadjusted.files] at htarget

theorem Adjusted.node?_of_target {target : NodeId} (htarget : before.IsTarget target) :
    after.graph.node? target = before.graph.node? target := by
  obtain ⟨file, hfile, rfl | hid⟩ := htarget
  · exact hadjusted.node? file hfile _ SourceFile.node_mem_nodes
  · exact hadjusted.node? file hfile _ (SourceFile.mem_nodes_of_symbol hid)

variable (hstands : before.Stands environment stale pending)

include hstands

omit hadjusted in
/-- What an import is bound to is a file or a symbol of one. -/
theorem Stands.isTarget_of_binds {language : Language} {id target : NodeId}
    (hbinds : before.Binds language id (.resolved target)) : before.IsTarget target := by
  obtain ⟨⟨node, hnode, hkind⟩, -⟩ := hbinds
  rcases hkind with hkind | hkind
  · obtain ⟨file, hfile, hid⟩ := hstands.covered target node hnode fun h => by
      rw [h] at hkind
      cases hkind
    rcases List.mem_cons.1 hid with rfl | hid
    · exact ⟨file, hfile, .inl rfl⟩
    · rcases List.mem_append.1 hid with hid | hid
      · exact ⟨file, hfile, .inr hid⟩
      · rw [hstands.kind_of_import hfile hid hnode] at hkind
        cases hkind
  · obtain ⟨file, hfile, hid⟩ := hstands.isSymbol_of_kind hnode hkind
    exact ⟨file, hfile, .inr hid⟩

theorem Adjusted.binds {language : Language} {id : NodeId} {binding : Binding}
    (hbinds : before.Binds language id binding) : after.Binds language id binding := by
  cases binding with
  | resolved target =>
    have htarget := hadjusted.node?_of_target (hstands.isTarget_of_binds hbinds)
    obtain ⟨⟨node, hnode, hkind⟩, hedges⟩ := hbinds
    exact ⟨⟨node, htarget.trans hnode, hkind⟩, fun other =>
      (hadjusted.imports_iff id other).trans (hedges other)⟩
  | unresolved reason =>
    exact fun other hother => hbinds other ((hadjusted.imports_iff id other).1 hother)
  | external name =>
    obtain ⟨module, hmodule, hedges⟩ := hbinds
    exact ⟨module, hadjusted.externals _ module hmodule ⟨id, (hedges module).2 rfl⟩, fun other =>
      (hadjusted.imports_iff id other).trans (hedges other)⟩

theorem Adjusted.stands : after.Stands environment stale pending := by
  refine ⟨hadjusted.sound, ?_, ?_, ?_, ?_, ?_, ?_, hadjusted.registered, ?_, ?_⟩
  · rw [hadjusted.files]
    exact hstands.ordered
  · rw [hadjusted.files]
    exact hstands.parallel
  · rw [hadjusted.files]
    exact fun file hfile => (hstands.held file hfile).congr (hadjusted.node? file hfile)
  · rw [hadjusted.files]
    intro file hfile hstale
    obtain ⟨hdrawn, hcurrent⟩ := hstands.drawn file hfile hstale
    exact ⟨hdrawn.congr (hadjusted.node? file hfile), hcurrent⟩
  · rw [hadjusted.files]
    exact fun id node hnode hkind => hstands.covered id node (hadjusted.old id node hnode) hkind
  · refine ⟨?_, ?_, ?_, ?_, ?_⟩ <;> rw [hadjusted.files]
    · exact fun source target => (hadjusted.hasEdge _ (fun h => by cases h) fun h => by
        cases h).trans (hstands.wired.defines source target)
    · exact fun source target => (hadjusted.hasEdge _ (fun h => by cases h) fun h => by
        cases h).trans (hstands.wired.contains source target)
    · exact fun source target hedge =>
        hstands.wired.imports source target ((hadjusted.imports_iff source target).1 hedge)
    · exact fun file hfile target htarget =>
        (hadjusted.imports_iff _ _).2 (hstands.wired.lists file hfile target htarget)
    · intro key hkey hkind
      obtain ⟨file, hfile, huse⟩ := hadjusted.uses key hkey hkind
      exact ⟨⟨file, hfile, huse.source⟩, huse.target⟩
  · rw [hadjusted.files]
    intro file hfile id hid
    obtain ⟨node, binding, language, hnode, hbinding, hlanguage, hbinds⟩ :=
      hstands.bound file hfile id hid
    exact ⟨node, binding, language,
      (hadjusted.node? file hfile id (SourceFile.mem_nodes_of_import hid)).trans hnode, hbinding,
      hlanguage, hadjusted.binds hstands hbinds⟩
  · refine ⟨?_, ?_, ?_⟩ <;> simp only [hadjusted.indexedAt, hadjusted.files]
    · exact hstands.indexed.sorted
    · exact hstands.indexed.only
    · exact hstands.indexed.all

/-- Nothing that uses depend on is different: the file is its own twin. -/
theorem Adjusted.twin {file : SourceFile} (hfile : file ∈ before.files) :
    file.Twin before.Stays (SameBinding before.Stays before after) file := by
  refine ⟨rfl, rfl, rfl, rfl, ⟨rfl, file, hfile, .inl rfl⟩, ?_, ?_⟩
  · exact List.forall₂_same.2 fun id hid => ⟨rfl, file, hfile, .inr hid⟩
  · refine List.forall₂_same.2 fun id hid => ?_
    obtain ⟨node, binding, language, hnode, hbinding, -, hbinds⟩ := hstands.bound file hfile id hid
    rw [SameBinding, bindingAt?, bindingAt?,
      hadjusted.node? file hfile id (SourceFile.mem_nodes_of_import hid), hnode, Option.bind_some,
      hbinding]
    refine .some ?_
    cases binding with
    | resolved target => exact .resolved ⟨rfl, hstands.isTarget_of_binds hbinds⟩
    | unresolved reason => exact .unresolved reason
    | external name => exact .external name

theorem Adjusted.mirrors : Mirrors before.Stays before after where
  oneToOne := ⟨fun hfirst hsecond => hfirst.1.trans hsecond.1.symm,
    fun hfirst hsecond => hfirst.1.symm.trans hsecond.1⟩
  files := by
    rw [SameFiles, hadjusted.files]
    exact List.forall₂_same.2 fun file hfile => hadjusted.twin hstands hfile
  shown := by
    rintro first second ⟨rfl, htarget⟩
    obtain ⟨node, hnode, -⟩ := hstands.exists_target htarget
    exact ⟨node, node, hnode, (hadjusted.node?_of_target htarget).trans hnode, rfl, rfl⟩

/-- So every file asks for the same uses as before. -/
theorem Adjusted.desiredEdges_eq {file : SourceFile} (hfile : file ∈ before.files) :
    after.desiredEdges file = before.desiredEdges file := by
  have hwanted := (hadjusted.mirrors hstands).wantedEdges (hadjusted.twin hstands hfile)
  have hsame : List.Forall₂ Eq (before.wantedEdges file) (after.wantedEdges file) := by
    refine hwanted.imp fun edge edge' htwin => ?_
    obtain ⟨⟨hsource, -⟩, ⟨htarget, -⟩, hkind, hevidence, hconfidence⟩ := htwin
    cases edge
    cases edge'
    simp_all
  rw [List.forall₂_eq_eq_eq] at hsame
  rw [desiredEdges, ← wantedEdges, ← hsame, wantedEdges, ← desiredEdges]

end Adjusted

/-! ### The uses of a file -/

/-- The uses that leave the file are the ones it should have. -/
def Linked (workspace : Workspace) (file : SourceFile) : Prop :=
  ∀ key, file.Uses key →
    (workspace.graph.hasEdge key ↔ key ∈ (workspace.desiredEdges file).map Edge.key)

/-- The edges that are there and those that are called for tell whether a file is linked. -/
theorem linked_iff {workspace : Workspace} {file : SourceFile} : workspace.Linked file ↔
    (∀ edge ∈ workspace.graph.edges, file.Uses edge.key →
      edge.key ∈ (workspace.desiredEdges file).map Edge.key) ∧
    ∀ key ∈ (workspace.desiredEdges file).map Edge.key, file.Uses key →
      workspace.graph.hasEdge key := by
  constructor
  · refine fun hlinked => ⟨fun edge hedge hkey => ?_, fun key hdesired hkey => ?_⟩
    · exact (hlinked _ hkey).1 (Graph.hasEdge_iff.2 ⟨edge, hedge, rfl⟩)
    · exact (hlinked key hkey).2 hdesired
  · rintro ⟨hcalled, hthere⟩ key hkey
    refine ⟨fun hedge => ?_, fun hdesired => hthere key hdesired hkey⟩
    obtain ⟨edge, hmem, rfl⟩ := Graph.hasEdge_iff.1 hedge
    exact hcalled edge hmem hkey

instance (workspace : Workspace) (file : SourceFile) : Decidable (workspace.Linked file) :=
  decidable_of_iff _ linked_iff.symm

/-- The file is linked, and its uses are as certain as they should be. -/
structure Exact (workspace : Workspace) (file : SourceFile) : Prop where
  linked : workspace.Linked file
  shown : ∀ edge ∈ workspace.desiredEdges file, workspace.graph.Shows edge

theorem mem_staleUses {workspace : Workspace} {file : SourceFile} {desired : List Edge}
    {key : EdgeKey} : key ∈ workspace.staleUses file desired ↔
      workspace.graph.hasEdge key ∧ file.Uses key ∧ key ∉ desired.map Edge.key := by
  have hfrom : ∀ id, key ∈ ((workspace.graph.edgesFrom id).filter isUse).map Edge.key ↔
      workspace.graph.hasEdge key ∧ key.source = id ∧
        (key.kind = .references ∨ key.kind = .inherits) := by
    intro id
    refine (Graph.exists_mem_edgesFrom
      (fun key => key.kind = .references || key.kind = .inherits) fun _ => rfl).trans ?_
    simp
  rw [staleUses, List.mem_filter, decide_eq_true_eq, List.mem_flatMap, SourceFile.Uses]
  simp only [hfrom, List.mem_cons]
  constructor
  · rintro ⟨⟨id, hid, hedge, rfl, hkind⟩, hnot⟩
    exact ⟨hedge, ⟨hid, hkind⟩, hnot⟩
  · rintro ⟨hedge, ⟨hid, hkind⟩, hnot⟩
    exact ⟨⟨key.source, hid, hedge, rfl, hkind⟩, hnot⟩

section Link

variable {environment : Environment} {stale pending : Path → Prop} {workspace : Workspace}

/-- A use leaves one file only. -/
theorem Stands.not_uses (hstands : workspace.Stands environment stale pending)
    {file other : SourceFile} (hfile : file ∈ workspace.files) (hother : other ∈ workspace.files)
    (hpath : other.path ≠ file.path) {key : EdgeKey} (hkey : other.Uses key) : ¬ file.Uses key := by
  intro hown
  have hnodes : ∀ found : SourceFile, found.Uses key → key.source ∈ found.nodes := by
    rintro found ⟨hsource | hsource, -⟩
    · exact hsource ▸ SourceFile.node_mem_nodes
    · exact SourceFile.mem_nodes_of_symbol hsource
  exact hpath (hstands.eq_of_mem hother hfile (hnodes other hkey) (hnodes file hown) ▸ rfl)

/-- A file is still linked when no use that leaves it was touched. -/
theorem Adjusted.exact {before after : Workspace} (hadjusted : before.Adjusted after)
    (hstands : before.Stands environment stale pending) {file : SourceFile}
    (hfile : file ∈ before.files)
    (hedge : ∀ key, file.Uses key → after.graph.edge? key = before.graph.edge? key)
    (hexact : before.Exact file) : after.Exact file where
  linked key hkey := by
    rw [hadjusted.desiredEdges_eq hstands hfile, ← hexact.linked key hkey, Graph.hasEdge,
      hedge key hkey, Graph.hasEdge]
  shown edge hwanted := by
    rw [hadjusted.desiredEdges_eq hstands hfile] at hwanted
    have huse := hstands.isUseOf_desiredEdges (List.mem_map_of_mem hwanted)
    exact (hexact.shown edge hwanted).congr (hedge edge.key ⟨huse.source, huse.kind⟩)

theorem Adjusted.refl (hstands : workspace.Stands environment stale pending) :
    workspace.Adjusted workspace where
  files := rfl
  indexedAt := fun _ => rfl
  sound := hstands.graph
  node? := fun _ _ _ _ => rfl
  old := fun _ _ hnode => hnode
  registered := hstands.registered
  externals := fun _ _ hmodule _ => hmodule
  hasEdge := fun _ _ _ => Iff.rfl
  uses := by
    intro key hkey hkind
    obtain ⟨⟨file, hfile, hsource⟩, htarget⟩ := hstands.wired.uses key hkey hkind
    exact ⟨file, hfile, hsource, htarget, hkind⟩

/-- A graph in which the uses that leave a file have been made the desired ones. -/
structure Relinked (workspace : Workspace) (file : SourceFile) (desired : List Edge)
    (graph : Graph) : Prop where
  rewired : workspace.graph.Rewired graph
  shown : ∀ edge ∈ desired, graph.Shows edge
  dropped : ∀ key, file.Uses key → key ∉ desired.map Edge.key → graph.edge? key = none
  others : ∀ key, ¬ file.Uses key → graph.edge? key = workspace.graph.edge? key

theorem Relinked.hasEdge {file : SourceFile} {desired : List Edge} {graph : Graph}
    (hrelinked : Relinked workspace file desired graph) {key : EdgeKey} (hkey : file.Uses key) :
    graph.hasEdge key ↔ key ∈ desired.map Edge.key := by
  refine ⟨fun hedge => ?_, fun hwanted => ?_⟩
  · by_contra hnot
    rw [Graph.hasEdge, hrelinked.dropped key hkey hnot] at hedge
    cases hedge
  · obtain ⟨edge, hedge, rfl⟩ := List.mem_map.1 hwanted
    obtain ⟨old, hold, -⟩ := hrelinked.shown edge hedge
    rw [Graph.hasEdge, hold]
    rfl

/-- The stale uses go, and the desired ones come. Both ends of these are alive. -/
theorem Stands.exists_relinked (hstands : workspace.Stands environment stale pending)
    {file : SourceFile} (hfile : file ∈ workspace.files) {desired : List Edge}
    (hkeys : (desired.map Edge.key).Nodup)
    (huse : ∀ edge ∈ desired, IsUseOf workspace file edge.key) :
    ∃ graph, (workspace.graph.removeEdges (workspace.staleUses file desired)).insertEdges desired =
        .ok graph ∧ Relinked workspace file desired graph := by
  have hlive : ∀ id, workspace.IsTarget id → workspace.graph.contains id := by
    intro id hid
    obtain ⟨node, hnode, -⟩ := hstands.exists_target hid
    exact Graph.contains_of_node? hnode
  obtain ⟨hremoved, -⟩ :=
    Graph.removeEdges_view hstands.graph (workspace.staleUses file desired)
  obtain ⟨graph, hrun, hinserted, -⟩ := Graph.exists_insertEdges hremoved.sound desired
    fun edge hedge => by
      have hends := huse edge hedge
      obtain ⟨other, hother, hsymbol⟩ := hends.target
      rw [hremoved.contains, hremoved.contains]
      exact ⟨hlive _ ⟨file, hfile, hends.source⟩, hlive _ ⟨other, hother, .inr hsymbol⟩⟩
  obtain ⟨hshown, hothers⟩ := Graph.shows_insertEdges hkeys hrun
  refine ⟨graph, hrun, hremoved.trans hinserted, hshown, fun key hkey hnot => ?_, fun key hkey => ?_⟩
  · rw [hothers key hnot, Graph.edge?_removeEdges]
    split
    · rfl
    · rename_i hfresh
      by_contra hsome
      exact hfresh (mem_staleUses.2 ⟨Option.isSome_iff_ne_none.2 hsome, hkey, hnot⟩)
  · have hnot : key ∉ desired.map Edge.key := by
      intro hwanted
      obtain ⟨edge, hedge, rfl⟩ := List.mem_map.1 hwanted
      exact hkey ⟨(huse edge hedge).source, (huse edge hedge).kind⟩
    rw [hothers key hnot, Graph.edge?_removeEdges,
      if_neg fun hstale => hkey (mem_staleUses.1 hstale).2.1]

/-- The file at a path is linked. -/
theorem linkFile_of_relinked {path : Path} {file : SourceFile} {graph : Graph}
    (hfile : workspace.file? path = some file)
    (hrun : (workspace.graph.removeEdges (workspace.staleUses file
      (workspace.desiredEdges file))).insertEdges (workspace.desiredEdges file) = .ok graph) :
    workspace.linkFile path = .ok { workspace with graph } := by
  rw [linkFile, hfile]
  simp only [hrun, ok_bind]
  rfl

section Relinked

variable {file : SourceFile} {graph : Graph}
  (hrelinked : Relinked workspace file (workspace.desiredEdges file) graph)
  (hstands : workspace.Stands environment stale pending) (hfile : file ∈ workspace.files)

include hrelinked hstands hfile

/-- Apart from the uses of the file nothing is different. -/
theorem Relinked.adjusted : workspace.Adjusted { workspace with graph } where
  files := rfl
  indexedAt := fun _ => rfl
  sound := hrelinked.rewired.sound
  node? := fun _ _ id _ => hrelinked.rewired.node? id
  old := fun id node hnode => (hrelinked.rewired.node? id).symm.trans hnode
  registered := by
    refine ⟨hstands.registered.keyed, fun language name id => ?_, fun id node hfound hkind => ?_⟩
    · exact (hstands.registered.shown language name id).trans (by rw [hrelinked.rewired.node?])
    · exact hstands.registered.covered id node
        ((hrelinked.rewired.node? id).symm.trans hfound) hkind
  externals := fun _ _ hmodule _ => hmodule
  hasEdge := fun key hreference hinherit => by
    rw [Graph.hasEdge, hrelinked.others key fun h => h.2.elim hreference hinherit, Graph.hasEdge]
  uses := fun key hkey hkind => by
    by_cases hown : file.Uses key
    · exact ⟨file, hfile, hstands.isUseOf_desiredEdges ((hrelinked.hasEdge hown).1 hkey)⟩
    · rw [Graph.hasEdge, hrelinked.others key hown] at hkey
      exact (Adjusted.refl hstands).uses key hkey hkind

theorem Relinked.exact : Exact { workspace with graph } file := by
  have hdesired := (hrelinked.adjusted hstands hfile).desiredEdges_eq hstands hfile
  refine ⟨fun key hkey => ?_, hdesired ▸ hrelinked.shown⟩
  rw [hdesired]
  exact hrelinked.hasEdge hkey

end Relinked

/-- What linking a file does to the workspace. -/
structure LinkedFile (before : Workspace) (path : Path) (after : Workspace) : Prop where
  adjusted : before.Adjusted after
  exact : ∀ file ∈ before.files, file.path = path → after.Exact file
  kept : ∀ file ∈ before.files, file.path ≠ path → before.Exact file → after.Exact file
  others : ∀ key, (∀ file ∈ before.files, file.path = path → ¬ file.Uses key) →
    (after.graph.hasEdge key ↔ before.graph.hasEdge key)

/-- **The uses of a file become the ones it should have.** -/
theorem exists_linkFile (hstands : workspace.Stands environment stale pending) (path : Path) :
    ∃ after, workspace.linkFile path = .ok after ∧ LinkedFile workspace path after := by
  cases hfound : workspace.file? path with
  | none =>
    have habsent := file?_eq_none_iff.1 hfound
    refine ⟨workspace, by rw [linkFile, hfound], .refl hstands, fun file hmem hpath => ?_,
      fun _ _ _ hlinked => hlinked, fun _ _ => Iff.rfl⟩
    exact absurd hpath (habsent file hmem)
  | some file =>
    obtain ⟨hfile, rfl⟩ := file?_mem hfound
    obtain ⟨graph, hrun, hrelinked⟩ := hstands.exists_relinked hfile
      (workspace.strongest_desiredEdges file).keys fun edge hedge =>
        hstands.isUseOf_desiredEdges (List.mem_map_of_mem hedge)
    have hadjusted := hrelinked.adjusted hstands hfile
    refine ⟨_, linkFile_of_relinked hfound hrun, hadjusted, fun other hother hpath => ?_,
      fun other hother hpath hexact => ?_, fun key hnot => ?_⟩
    · obtain rfl := hstands.ordered.eq_of_path hother hfile hpath
      exact hrelinked.exact hstands hother
    · exact hadjusted.exact hstands hother (fun key hkey =>
        hrelinked.others key (hstands.not_uses hfile hother hpath hkey)) hexact
    · rw [Graph.hasEdge, hrelinked.others key (hnot file hfile rfl), Graph.hasEdge]

/-- What linking several files does to the workspace: their uses become exact, and all other edges
stay. -/
theorem exists_linkFiles (hstands : workspace.Stands environment stale pending)
    (paths : List Path) : ∃ after, paths.foldlM linkFile workspace = .ok after ∧
      workspace.Adjusted after ∧
      (∀ file ∈ workspace.files, file.path ∈ paths → after.Exact file) ∧
      ∀ key, (∀ file ∈ workspace.files, file.path ∈ paths → ¬ file.Uses key) →
        (after.graph.hasEdge key ↔ workspace.graph.hasEdge key) := by
  refine exists_foldlM linkFile paths workspace (fun done state => workspace.Adjusted state ∧
    (∀ file ∈ workspace.files, file.path ∈ done → state.Exact file) ∧
    ∀ key, (∀ file ∈ workspace.files, file.path ∈ done → ¬ file.Uses key) →
      (state.graph.hasEdge key ↔ workspace.graph.hasEdge key))
    ⟨.refl hstands, by simp, fun _ _ => Iff.rfl⟩ ?_
  rintro done path rest state - ⟨hadjusted, hdone, hothers⟩
  obtain ⟨next, hrun, hlinked⟩ := exists_linkFile (hadjusted.stands hstands) path
  refine ⟨next, hrun, hadjusted.trans hlinked.adjusted, fun file hfile hpath => ?_,
    fun key hnot => ?_⟩
  · have hfile' : file ∈ state.files := hadjusted.files ▸ hfile
    by_cases hlast : file.path = path
    · exact hlinked.exact file hfile' hlast
    · refine hlinked.kept file hfile' hlast (hdone file hfile ?_)
      exact (List.mem_append.1 hpath).resolve_right fun h => hlast (List.mem_singleton.1 h)
  · refine (hlinked.others key fun file hfile hpath => ?_).trans
      (hothers key fun file hfile hpath => hnot file hfile (List.mem_append_left _ hpath))
    exact hnot file (hadjusted.files ▸ hfile)
      (List.mem_append_right _ (List.mem_singleton.2 hpath))

end Link

/-! ### Outside modules -/

/-- Every outside module has an importer. -/
def Tended (workspace : Workspace) : Prop :=
  ∀ key module, workspace.externals.get? key = some module →
    ∃ source, workspace.graph.hasEdge ⟨source, module, .imports⟩

section Collect

variable {environment : Environment} {stale pending : Path → Prop} {workspace : Workspace}
  (hstands : workspace.Stands environment stale pending)

include hstands

theorem Stands.notMem_of_external {id : NodeId} {node : Node}
    (hnode : workspace.graph.node? id = some node) (hkind : node.kind = .external)
    {file : SourceFile} (hfile : file ∈ workspace.files) : id ∉ file.nodes := by
  intro hid
  obtain ⟨found, hfound, -, hproject⟩ := hstands.exists_node hfile hid
  rw [hnode] at hfound
  exact hproject (Option.some.inj hfound ▸ hkind)

/-- Only imports lead to an outside module, and nothing leads on from it. -/
theorem Stands.edge_of_external {id : NodeId} {node : Node}
    (hnode : workspace.graph.node? id = some node) (hkind : node.kind = .external) {key : EdgeKey}
    (hkey : workspace.graph.hasEdge key) :
    key.source ≠ id ∧ (key.target = id → key.kind = .imports) := by
  have hnot : ∀ file ∈ workspace.files, id ∉ file.nodes := fun file hfile =>
    hstands.notMem_of_external hnode hkind hfile
  obtain ⟨source, target, kind⟩ := key
  refine ⟨?_, ?_⟩
  · rintro rfl
    cases kind with
    | defines =>
      obtain ⟨file, hfile, hsource, -⟩ := (hstands.wired.defines _ _).1 hkey
      exact hnot file hfile (hsource ▸ SourceFile.node_mem_nodes)
    | contains =>
      obtain ⟨file, hfile, hnests⟩ := (hstands.wired.contains _ _).1 hkey
      exact hnot file hfile (SourceFile.mem_nodes_of_symbol (mem_of_nests hnests).1)
    | imports =>
      rcases hstands.wired.imports _ _ hkey with ⟨file, hfile, hsource, -⟩ | ⟨file, hfile, hsource⟩
      · exact hnot file hfile (hsource ▸ SourceFile.node_mem_nodes)
      · exact hnot file hfile (SourceFile.mem_nodes_of_import hsource)
    | references | inherits =>
      obtain ⟨⟨file, hfile, hsource | hsource⟩, -⟩ := hstands.wired.uses _ hkey (by simp)
      · exact hnot file hfile (hsource ▸ SourceFile.node_mem_nodes)
      · exact hnot file hfile (SourceFile.mem_nodes_of_symbol hsource)
  · rintro rfl
    cases kind with
    | defines =>
      obtain ⟨file, hfile, -, htarget⟩ := (hstands.wired.defines _ _).1 hkey
      exact absurd (SourceFile.mem_nodes_of_symbol htarget) (hnot file hfile)
    | contains =>
      obtain ⟨file, hfile, hnests⟩ := (hstands.wired.contains _ _).1 hkey
      exact absurd (SourceFile.mem_nodes_of_symbol (mem_of_nests hnests).2) (hnot file hfile)
    | imports => rfl
    | references | inherits =>
      obtain ⟨-, file, hfile, htarget⟩ := hstands.wired.uses _ hkey (by simp)
      exact absurd (SourceFile.mem_nodes_of_symbol htarget) (hnot file hfile)

/-- Nodes of files are left alone when an outside module goes. -/
theorem Stands.eq_of_survives {module id : NodeId} {outside old now : Node}
    (houtside : workspace.graph.node? module = some outside) (hkind : outside.kind = .external)
    {file : SourceFile} (hfile : file ∈ workspace.files) (hid : id ∈ file.nodes)
    (hold : workspace.graph.node? id = some old) (hsurvives : old.Survives (· = module) now) :
    now = old := by
  have hheld := hstands.held file hfile
  rcases List.mem_cons.1 hid with rfl | hid
  · obtain ⟨node, errors, hnode, -, -, hdetail⟩ := hheld.own
    rw [hold] at hnode
    obtain rfl := Option.some.inj hnode
    refine hsurvives.eq_of_listed (fun target h => ?_) fun member hmember hgone => ?_
    · rw [Node.binding?, hdetail] at h
      cases h
    · rw [Node.listed, hdetail] at hmember
      exact hstands.notMem_of_external houtside hkind hfile
        (hgone ▸ List.mem_cons_of_mem file.node hmember)
  · rcases List.mem_append.1 hid with hid | hid
    · obtain ⟨node, parent, exported, hnode, -, -, hdetail⟩ :=
        hheld.exists_symbol (hstands.parallel file hfile) hid
      rw [hold] at hnode
      obtain rfl := Option.some.inj hnode
      refine hsurvives.eq_of_listed (fun target h => ?_) fun member hmember => ?_
      · rw [Node.binding?, hdetail] at h
        cases h
      · rw [Node.listed, hdetail] at hmember
        cases hmember
    · obtain ⟨node, binding, language, hnode, hbinding, -, hbinds⟩ :=
        hstands.bound file hfile id hid
      obtain ⟨found, detail, hfound, -, -, hdetail⟩ := hheld.imported id hid
      rw [hold] at hnode hfound
      obtain rfl := Option.some.inj hnode
      obtain rfl := Option.some.inj hfound
      refine hsurvives.eq_of_listed (fun target h hgone => ?_) fun member hmember => ?_
      · rw [hbinding] at h
        obtain rfl := Option.some.inj h
        obtain ⟨other, hother, htarget⟩ := hstands.isTarget_of_binds hbinds
        refine hstands.notMem_of_external houtside hkind hother ?_
        rcases htarget with htarget | htarget
        · exact hgone ▸ htarget ▸ SourceFile.node_mem_nodes
        · exact hgone ▸ SourceFile.mem_nodes_of_symbol htarget
      · rw [Node.listed, hdetail] at hmember
        cases hmember

/-- When an outside module goes, no other node changes. -/
theorem Stands.node?_of_without {module : NodeId} {outside : Node} {graph : Graph}
    (houtside : workspace.graph.node? module = some outside) (hkind : outside.kind = .external)
    (hwithout : workspace.graph.Without (· = module) graph) (id : NodeId) :
    graph.node? id = if id = module then none else workspace.graph.node? id := by
  split
  · rename_i heq
    exact hwithout.dead id heq
  · rename_i hne
    cases hold : workspace.graph.node? id with
    | none => exact hwithout.absent id hold
    | some old =>
      obtain ⟨now, hnow, hsurvives⟩ := hwithout.kept id old hne hold
      rw [hnow]
      by_cases hproject : old.kind = .external
      · obtain ⟨language, name, hget⟩ := hstands.registered.covered id old hold hproject
        have hshown := (hstands.registered.shown language name id).1 hget
        rw [hold] at hshown
        obtain rfl := Option.some.inj hshown
        rw [hsurvives.eq_of_listed (fun _ h => by cases h) fun _ h => by cases h]
      · obtain ⟨file, hfile, hid⟩ := hstands.covered id old hold hproject
        rw [hstands.eq_of_survives houtside hkind hfile hid hold hsurvives]

omit hstands in
theorem Registered.erase {graph : Graph} {language : Language} {name : String} {module : NodeId}
    (hregistered : workspace.Registered)
    (hmodule : workspace.externals.get? (language, name) = some module)
    (hnode : ∀ id, graph.node? id = if id = module then none else workspace.graph.node? id) :
    ({ workspace with graph, externals := workspace.externals.erase (language, name) } :
      Workspace).Registered := by
  refine ⟨hregistered.keyed.erase _, fun language' name' id => ?_, fun id node hfound hkind => ?_⟩
  · simp only [Table.get?_erase, hnode]
    have hshown := (hregistered.shown language name module).1 hmodule
    by_cases hid : id = module
    · subst hid
      rw [if_pos rfl]
      refine iff_of_false (fun hget => ?_) fun h => by cases h
      split at hget
      · cases hget
      · rename_i hkey
        have hsame := (hregistered.shown _ _ _).1 hget
        rw [hshown] at hsame
        have hsame := Option.some.inj hsame
        have hname : some name = some name' := congrArg Node.name hsame
        exact hkey (Prod.ext (congrArg Node.language hsame).symm (Option.some.inj hname).symm)
    · rw [if_neg hid, ← hregistered.shown]
      split
      · rename_i hkey
        cases hkey
        rw [hmodule]
        exact iff_of_false (fun h => by cases h) fun h => hid (Option.some.inj h).symm
      · rfl
  · have hfound : graph.node? id = some node := hfound
    rw [hnode] at hfound
    split at hfound
    · cases hfound
    · rename_i hne
      obtain ⟨language', name', hget⟩ := hregistered.covered id node hfound hkind
      refine ⟨language', name', ?_⟩
      rw [Table.get?_erase, if_neg, hget]
      intro hkey
      rw [hkey, hmodule] at hget
      exact hne (Option.some.inj hget).symm

/-- An outside module that nothing imports can go. -/
theorem exists_forget {language : Language} {name : String} {module : NodeId}
    (hmodule : workspace.externals.get? (language, name) = some module)
    (hunused : ∀ source, ¬ workspace.graph.hasEdge ⟨source, module, .imports⟩) :
    ∃ graph, workspace.graph.remove module = .ok graph ∧
      (∀ key, graph.hasEdge key ↔ workspace.graph.hasEdge key) ∧
      workspace.Adjusted { workspace with
        graph, externals := workspace.externals.erase (language, name) } := by
  have houtside := (hstands.registered.shown language name module).1 hmodule
  have howns : ∀ id, ¬ workspace.graph.Owns module id := by
    rintro id ⟨node, hnode, hid, -⟩
    rw [houtside] at hnode
    obtain rfl := Option.some.inj hnode
    rcases Graph.mem_owned_iff.1 hid with hlisted | hedge
    · cases hlisted
    · exact (hstands.edge_of_external houtside rfl hedge).1 rfl
  have hreaches : ∀ id, id = module ↔ workspace.graph.Reaches module id := by
    refine fun id => ⟨fun h => h ▸ .refl, fun hreach => ?_⟩
    induction hreach with
    | refl => rfl
    | tail _ hstep ih => exact absurd (ih ▸ hstep) (howns _)
  have hdescends : workspace.graph.Descends (fun _ => 0) module := fun owner id hreach hstep =>
    absurd ((hreaches owner).2 hreach ▸ hstep) (howns id)
  obtain ⟨graph, hrun, hreached⟩ := Graph.exists_remove hstands.graph
    (Graph.contains_of_node? houtside) hdescends
  have hwithout : workspace.graph.Without (· = module) graph := hreached.congr hreaches
  have hnode := hstands.node?_of_without houtside rfl hwithout
  have hedge : ∀ key, graph.hasEdge key ↔ workspace.graph.hasEdge key := by
    intro key
    rw [hwithout.hasEdge]
    refine ⟨And.left, fun hkey => ⟨hkey, ?_, fun htarget => ?_⟩⟩
    · exact (hstands.edge_of_external houtside rfl hkey).1
    · have hkind := (hstands.edge_of_external houtside rfl hkey).2 htarget
      refine hunused key.source ?_
      rw [← htarget, ← hkind]
      exact hkey
  refine ⟨graph, hrun, hedge, rfl, fun _ => rfl, hwithout.sound, fun file hfile id hid => ?_,
    fun id node hfound => ?_, hstands.registered.erase hmodule hnode, ?_, fun key _ _ => hedge key,
    fun key hkey => (Adjusted.refl hstands).uses key ((hedge key).1 hkey)⟩
  · refine (hnode id).trans (if_neg fun h => ?_)
    exact hstands.notMem_of_external houtside rfl hfile (h ▸ hid)
  · have hfound : graph.node? id = some node := hfound
    rw [hnode] at hfound
    split at hfound
    · cases hfound
    · exact hfound
  · rintro key other hother ⟨source, hsource⟩
    refine (Table.get?_erase _ _ _).trans ?_
    rw [if_neg, hother]
    rintro rfl
    rw [hmodule] at hother
    obtain rfl := Option.some.inj hother
    exact hunused source hsource

theorem mem_unusedExternals {key : Language × String} {module : NodeId} :
    (key, module) ∈ workspace.unusedExternals ↔ workspace.externals.get? key = some module ∧
      ∀ source, ¬ workspace.graph.hasEdge ⟨source, module, .imports⟩ := by
  rw [unusedExternals, List.mem_mergeSort, List.mem_filter,
    hstands.registered.keyed.mem_entries_iff, List.isEmpty_iff]
  refine and_congr_right fun hmodule => ?_
  rw [Graph.edgesTo, List.filter_eq_nil_iff]
  constructor
  · intro hnone source hsource
    obtain ⟨edge, hedge, hkey⟩ := Graph.hasEdge_iff.1 hsource
    exact hnone edge hedge (decide_eq_true (congrArg EdgeKey.target hkey))
  · intro hnone edge hedge htarget
    have hshown := (hstands.registered.shown key.1 key.2 module).1 hmodule
    have hpresent : workspace.graph.hasEdge edge.key := Graph.hasEdge_iff.2 ⟨edge, hedge, rfl⟩
    have htarget : edge.key.target = module := of_decide_eq_true htarget
    have hkind := (hstands.edge_of_external hshown rfl hpresent).2 htarget
    refine hnone edge.key.source ?_
    rw [← htarget, ← hkind]
    exact hpresent

/-- **Outside modules that nothing imports go, and all others stay.** -/
theorem exists_collectExternals : ∃ after, workspace.collectExternals = .ok after ∧
    workspace.Adjusted after ∧ after.Tended ∧
    ∀ key, after.graph.hasEdge key ↔ workspace.graph.hasEdge key := by
  have hnodup : (workspace.unusedExternals.map Prod.fst).Nodup := by
    rw [unusedExternals, ((List.mergeSort_perm _ _).map Prod.fst).nodup_iff]
    exact (List.filter_sublist.map Prod.fst).nodup hstands.registered.keyed
  obtain ⟨after, hrun, hadjusted, hedge, hleft⟩ := exists_foldlM (fun workspace entry => do
      let graph ← workspace.graph.remove entry.2
      return ({ workspace with graph, externals := workspace.externals.erase entry.1 } : Workspace))
    workspace.unusedExternals workspace (fun done state => workspace.Adjusted state ∧
      (∀ key, state.graph.hasEdge key ↔ workspace.graph.hasEdge key) ∧
      ∀ key, state.externals.get? key =
        if key ∈ done.map Prod.fst then none else workspace.externals.get? key)
    ⟨.refl hstands, fun _ => Iff.rfl, by simp⟩ (by
      rintro done ⟨⟨language, name⟩, module⟩ rest state hitems ⟨hadjusted, hedge, hleft⟩
      have hentry : ((language, name), module) ∈ workspace.unusedExternals := by simp [hitems]
      obtain ⟨hmodule, hunused⟩ := (mem_unusedExternals hstands).1 hentry
      have hfresh : (language, name) ∉ done.map Prod.fst :=
        notMem_of_split hnodup (by rw [hitems, List.map_append, List.map_cons])
      obtain ⟨graph, hremove, hsame, hforget⟩ := exists_forget (hadjusted.stands hstands)
        ((hleft (language, name)).trans ((if_neg hfresh).trans hmodule))
        fun source hsource => hunused source ((hedge _).1 hsource)
      refine ⟨_, by rw [hremove]; rfl, hadjusted.trans hforget,
        fun key => (hsame key).trans (hedge key), fun key => ?_⟩
      refine (Table.get?_erase _ _ _).trans ?_
      have hmem : key ∈ (done ++ [((language, name), module)]).map Prod.fst ↔
          key ∈ done.map Prod.fst ∨ key = (language, name) := by
        rw [List.map_append, List.mem_append, List.map_cons, List.map_nil, List.mem_singleton]
      by_cases hkey : key = (language, name)
      · rw [if_pos hkey, if_pos (hmem.2 (.inr hkey))]
      · rw [if_neg hkey, hleft, if_congr (hmem.trans (or_iff_left hkey)) rfl rfl])
  refine ⟨after, hrun, hadjusted, fun key module hmodule => ?_, hedge⟩
  rw [hleft] at hmodule
  split at hmodule
  · cases hmodule
  · rename_i hkept
    by_contra hnone
    refine hkept (List.mem_map.2 ⟨(key, module), (mem_unusedExternals hstands).2 ⟨hmodule, ?_⟩, rfl⟩)
    exact fun source hsource => hnone ⟨source, (hedge _).2 hsource⟩

end Collect

end Workspace

end CodeGraph
