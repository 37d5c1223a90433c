import CodeGraph.Proofs.Import.Plan
import CodeGraph.Proofs.Workspace.Install

/-!
# Moving a file

A file that moves takes its nodes along. For the time being they show what the file was before, so
the file is stale at its new path until its text is applied there. After that its importers are
spelled anew, one after the other.
-/

namespace CodeGraph

namespace Graph

/-- Nodes that move, each of which is there and is no file, and at last the file itself. -/
theorem exists_relocate {graph : Graph} (hsound : graph.Sound) (members : List NodeId)
    (file : NodeId) {target : Path} (hfree : graph.files.get? target.tidy = none)
    (hnodup : (members ++ [file]).Nodup)
    (hmember : ∀ id ∈ members, ∃ node, graph.node? id = some node ∧ node.kind ≠ .file)
    (hfile : ∃ node, graph.node? file = some node) :
    ∃ after, (members ++ [file]).foldlM (fun graph id =>
        graph.update id fun node => { node with path := target }) graph = .ok after ∧
      after.Sound ∧
      (∀ id, after.node? id = if id ∈ members ++ [file] then
        (graph.node? id).map fun node => { node with path := target } else graph.node? id) ∧
      ∀ key, after.hasEdge key = graph.hasEdge key := by
  -- only nodes that are no files have moved when the file itself is looked at
  refine exists_foldlM _ _ _ (fun done (state : Graph) => state.Sound ∧
    (∀ id, state.node? id = if id ∈ done then
      (graph.node? id).map fun node => { node with path := target } else graph.node? id) ∧
    ∀ key, state.hasEdge key = graph.hasEdge key) ⟨hsound, by simp, fun _ => rfl⟩ ?_
  rintro done id rest state hitems ⟨hstate, hnode?, hedge⟩
  have hnot : id ∉ done := notMem_of_split hnodup hitems
  have hold : ∃ node, graph.node? id = some node ∧ (node.kind = .file → id = file) := by
    have hid : id ∈ members ++ [file] := by simp [hitems]
    rcases List.mem_append.1 hid with hid | hid
    · obtain ⟨node, hnode, hkind⟩ := hmember id hid
      exact ⟨node, hnode, fun h => absurd h hkind⟩
    · obtain rfl := List.mem_singleton.1 hid
      obtain ⟨node, hnode⟩ := hfile
      exact ⟨node, hnode, fun _ => rfl⟩
  obtain ⟨node, hnode, hkind⟩ := hold
  have hbefore : state.node? id = some node := by rw [hnode?, if_neg hnot, hnode]
  have hfree' : id = file → state.files.get? target.tidy = none := by
    rintro rfl
    cases hget : state.files.get? target.tidy with
    | none => rfl
    | some other =>
      obtain ⟨found, hfound, hfoundKind, hpath⟩ := (hstate.files _ _).1 hget
      rw [hnode?] at hfound
      split at hfound
      · rename_i hdone
        have hother : other ∈ members := by
          have hmem : other ∈ members ++ [id] := by simp [hitems, hdone]
          refine (List.mem_append.1 hmem).resolve_right fun h => hnot ?_
          exact List.mem_singleton.1 h ▸ hdone
        obtain ⟨old, hold, hnotFile⟩ := hmember other hother
        rw [hold, Option.map_some] at hfound
        obtain rfl := Option.some.inj hfound
        exact absurd hfoundKind hnotFile
      · have hstart := (hsound.files target.tidy other).2 ⟨found, hfound, hfoundKind, hpath⟩
        rw [hfree] at hstart
        cases hstart
  obtain ⟨after, hrun, hupdated⟩ := exists_update hstate
    (fun node => { node with path := target }) hbefore fun h => .inr (hfree' (hkind h))
  refine ⟨after, hrun, hupdated.sound, fun other => ?_, fun key => ?_⟩
  · rw [hupdated.node?]
    by_cases hother : other = id
    · subst hother
      rw [if_pos rfl, if_pos (by simp), hnode]
      rfl
    · rw [if_neg hother, hnode?]
      simp [hother]
  · rw [hupdated.hasEdge, hedge]

end Graph

namespace Workspace

/-- A file with its nodes at another path, where nothing else has changed. -/
structure Relocated (before : Workspace) (file : SourceFile) (target : Path)
    (moved : SourceFile) (after : Workspace) : Prop where
  path_eq : moved.path = target
  content : moved.SameContent file
  sound : after.graph.Sound
  node? : ∀ id, after.graph.node? id = if id ∈ file.nodes then
    (before.graph.node? id).map fun node => { node with path := target }
    else before.graph.node? id
  hasEdge : ∀ key, after.graph.hasEdge key = before.graph.hasEdge key
  ordered : Ordered after.files
  mem_files : ∀ other, other ∈ after.files ↔
    other = moved ∨ (other ∈ before.files ∧ other.path ≠ file.path)
  externals : after.externals = before.externals
  indexSorted : ∀ place, PathSet.Sorted (after.indexedAt place)
  mem_indexedAt : ∀ place other, other ∈ after.indexedAt place ↔
    other ∈ before.indexedAt place ∧ other ≠ file.path

section Relocated

variable {environment : Environment} {stale pending : Path → Prop} {before after : Workspace}
  {file moved : SourceFile} {target : Path}
  (hstands : before.Stands environment stale pending) (hfile : file ∈ before.files)
  (hrelocated : Relocated before file target moved after)

include hstands hfile hrelocated

omit hstands hfile in
theorem Relocated.exists_now {id : NodeId} {node : Node}
    (hnode : before.graph.node? id = some node) :
    ∃ now, after.graph.node? id = some now ∧ now.kind = node.kind ∧ now.detail = node.detail ∧
      (id ∈ file.nodes → now.path = target) := by
  rw [hrelocated.node?]
  split
  · exact ⟨{ node with path := target }, by rw [hnode]; rfl, rfl, rfl, fun _ => rfl⟩
  · rename_i hid
    exact ⟨node, hnode, rfl, rfl, fun h => absurd h hid⟩

omit hstands hfile in
theorem Relocated.exists_before {id : NodeId} {now : Node}
    (hnow : after.graph.node? id = some now) :
    ∃ node, before.graph.node? id = some node ∧ now.kind = node.kind := by
  rw [hrelocated.node?] at hnow
  split at hnow
  · obtain ⟨node, hnode, rfl⟩ := Option.map_eq_some_iff.1 hnow
    exact ⟨node, hnode, rfl⟩
  · exact ⟨now, hnow, rfl⟩

/-- What does not depend on paths holds of the same files. -/
theorem Relocated.exists_file_iff {property : SourceFile → Prop}
    (hsame : property moved ↔ property file) :
    (∃ other ∈ after.files, property other) ↔ ∃ other ∈ before.files, property other := by
  constructor
  · rintro ⟨other, hother, hproperty⟩
    rcases (hrelocated.mem_files other).1 hother with rfl | ⟨hother, -⟩
    · exact ⟨file, hfile, hsame.1 hproperty⟩
    · exact ⟨other, hother, hproperty⟩
  · rintro ⟨other, hother, hproperty⟩
    by_cases hpath : other.path = file.path
    · obtain rfl := hstands.ordered.eq_of_path hother hfile hpath
      exact ⟨moved, (hrelocated.mem_files moved).2 (.inl rfl), hsame.2 hproperty⟩
    · exact ⟨other, (hrelocated.mem_files other).2 (.inr ⟨hother, hpath⟩), hproperty⟩

theorem Relocated.node?_other {other : SourceFile} (hother : other ∈ before.files)
    (hpath : other.path ≠ file.path) {id : NodeId} (hid : id ∈ other.nodes) :
    after.graph.node? id = before.graph.node? id := by
  rw [hrelocated.node?, if_neg]
  exact fun h => hpath (hstands.eq_of_mem hother hfile hid h ▸ rfl)

theorem Relocated.held {other : SourceFile} (hother : other ∈ after.files) :
    other.Held after.graph := by
  rcases (hrelocated.mem_files other).1 hother with rfl | ⟨hother, hpath⟩
  · have hheld := hstands.held file hfile
    refine ⟨?_, ?_, ?_⟩
    · rw [hrelocated.content.node, hrelocated.content.symbols, hrelocated.content.imports]
      obtain ⟨node, errors, hnode, hkind, -, hdetail⟩ := hheld.own
      obtain ⟨now, hnow, hnowKind, hnowDetail, hnowPath⟩ := hrelocated.exists_now hnode
      exact ⟨now, errors, hnow, hnowKind.trans hkind,
        (hnowPath SourceFile.node_mem_nodes).trans hrelocated.path_eq.symm,
        hnowDetail.trans hdetail⟩
    · rw [hrelocated.content.symbols, hrelocated.content.facts]
      intro index id fact hid hfact
      obtain ⟨node, parent, exported, hnode, hkind, -, hdetail⟩ :=
        hheld.symbol index id fact hid hfact
      obtain ⟨now, hnow, hnowKind, hnowDetail, hnowPath⟩ := hrelocated.exists_now hnode
      exact ⟨now, parent, exported, hnow, hnowKind.trans hkind,
        (hnowPath (SourceFile.mem_nodes_of_symbol (List.mem_of_getElem? hid))).trans
          hrelocated.path_eq.symm, hnowDetail.trans hdetail⟩
    · rw [hrelocated.content.imports]
      intro id hid
      obtain ⟨node, detail, hnode, hkind, -, hdetail⟩ := hheld.imported id hid
      obtain ⟨now, hnow, hnowKind, hnowDetail, hnowPath⟩ := hrelocated.exists_now hnode
      exact ⟨now, detail, hnow, hnowKind.trans hkind,
        (hnowPath (SourceFile.mem_nodes_of_import hid)).trans hrelocated.path_eq.symm,
        hnowDetail.trans hdetail⟩
  · exact (hstands.held other hother).congr fun id =>
      hrelocated.node?_other hstands hfile hother hpath

theorem Relocated.registered : after.Registered := by
  have hnot : ∀ id node, before.graph.node? id = some node → node.kind = .external →
      id ∉ file.nodes := by
    intro id node hnode hkind hid
    obtain ⟨found, hfound, -, hproject⟩ := hstands.exists_node hfile hid
    rw [hnode] at hfound
    exact hproject (Option.some.inj hfound ▸ hkind)
  refine ⟨hrelocated.externals ▸ hstands.registered.keyed, fun language name id => ?_, ?_⟩
  · rw [hrelocated.externals, hstands.registered.shown]
    constructor
    · intro hnode
      rw [hrelocated.node?, if_neg (hnot id _ hnode rfl), hnode]
    · intro hnow
      obtain ⟨node, hnode, hkind⟩ := hrelocated.exists_before hnow
      rwa [hrelocated.node?, if_neg (hnot id node hnode hkind.symm)] at hnow
  · intro id now hnow hkind
    obtain ⟨node, hnode, hsame⟩ := hrelocated.exists_before hnow
    rw [hrelocated.externals]
    exact hstands.registered.covered id node hnode (hsame ▸ hkind)

theorem Relocated.wired : after.Wired := by
  have hcontent := hrelocated.content
  have hiff : ∀ {property : SourceFile → Prop}, (property moved ↔ property file) →
      ((∃ other ∈ after.files, property other) ↔ ∃ other ∈ before.files, property other) :=
    fun hsame => hrelocated.exists_file_iff hstands hfile hsame
  refine ⟨fun source target => ?_, fun source target => ?_, fun source target hedge => ?_,
    fun other hother id hid => ?_, fun edge hedge hkind => ?_⟩
  · rw [hrelocated.hasEdge, hstands.wired.defines]
    exact (hiff (by rw [hcontent.node, hcontent.symbols])).symm
  · rw [hrelocated.hasEdge, hstands.wired.contains]
    exact (hiff (by rw [hcontent.facts, hcontent.symbols])).symm
  · rw [hrelocated.hasEdge] at hedge
    refine (hstands.wired.imports _ _ hedge).imp (hiff ?_).2 (hiff ?_).2
    · rw [hcontent.node, hcontent.imports]
    · rw [hcontent.imports]
  · rw [hrelocated.hasEdge]
    rcases (hrelocated.mem_files other).1 hother with rfl | ⟨hother, -⟩
    · rw [hcontent.node]
      exact hstands.wired.lists file hfile id (hcontent.imports ▸ hid)
    · exact hstands.wired.lists other hother id hid
  · rw [hrelocated.hasEdge] at hedge
    refine (hstands.wired.uses edge hedge hkind).imp (hiff ?_).2 (hiff ?_).2
    · rw [hcontent.node, hcontent.symbols]
    · rw [hcontent.symbols]

/-- **A file that moved.** It is stale at its new path. -/
theorem Relocated.stands : after.Stands environment (fun path => stale path ∨ path = target)
    (fun path => pending path ∨ path = target) where
  graph := hrelocated.sound
  ordered := hrelocated.ordered
  parallel := by
    intro other hother
    rcases (hrelocated.mem_files other).1 hother with rfl | ⟨hother, -⟩
    · exact (hstands.parallel file hfile).congr hrelocated.content
    · exact hstands.parallel other hother
  held := fun _ => hrelocated.held hstands hfile
  drawn := by
    intro other hother hstale
    rcases (hrelocated.mem_files other).1 hother with rfl | ⟨hother, hpath⟩
    · exact absurd (.inr hrelocated.path_eq) hstale
    · obtain ⟨hdrawn, hcurrent⟩ := hstands.drawn other hother fun h => hstale (.inl h)
      exact ⟨hdrawn.congr fun id => hrelocated.node?_other hstands hfile hother hpath, hcurrent⟩
  covered := by
    intro id now hnow hkind
    obtain ⟨node, hnode, hsame⟩ := hrelocated.exists_before hnow
    refine (hrelocated.exists_file_iff hstands hfile ?_).2
      (hstands.covered id node hnode (hsame ▸ hkind))
    rw [SourceFile.nodes, hrelocated.content.node, hrelocated.content.symbols,
      hrelocated.content.imports, SourceFile.nodes]
  wired := hrelocated.wired hstands hfile
  registered := hrelocated.registered hstands hfile
  bound := by
    have hcongr : ∀ language id binding, before.Binds language id binding →
        after.Binds language id binding := fun language id binding hbinds =>
      hbinds.congr (fun other => by rw [hrelocated.hasEdge])
        (fun target node hnode => by
          obtain ⟨now, hnow, hkind, -⟩ := hrelocated.exists_now hnode
          exact ⟨now, hnow, hkind⟩)
        (fun name module hmodule => hrelocated.externals ▸ hmodule)
    have hnow : ∀ id node binding, before.graph.node? id = some node →
        node.binding? = some binding →
        ∃ now, after.graph.node? id = some now ∧ now.binding? = some binding := by
      intro id node binding hnode hbinding
      obtain ⟨now, hnow, -, hdetail, -⟩ := hrelocated.exists_now hnode
      exact ⟨now, hnow, by rw [Node.binding?, hdetail]; exact hbinding⟩
    intro other hother id hid
    rcases (hrelocated.mem_files other).1 hother with rfl | ⟨hother, -⟩
    · obtain ⟨node, binding, language, hnode, hbinding, -, hbinds⟩ :=
        hstands.bound file hfile id (hrelocated.content.imports ▸ hid)
      obtain ⟨now, hnow, hnowBinding⟩ := hnow id node binding hnode hbinding
      exact ⟨now, binding, language, hnow, hnowBinding,
        fun h => absurd (.inr hrelocated.path_eq) h, hcongr language id binding hbinds⟩
    · obtain ⟨node, binding, language, hnode, hbinding, hlanguage, hbinds⟩ :=
        hstands.bound other hother id hid
      obtain ⟨now, hnow, hnowBinding⟩ := hnow id node binding hnode hbinding
      exact ⟨now, binding, language, hnow, hnowBinding,
        fun h => hlanguage fun hpending => h (.inl hpending), hcongr language id binding hbinds⟩
  indexed := by
    refine ⟨hrelocated.indexSorted, fun place path hpath => ?_,
      fun other hother hstale place hplace => ?_⟩
    · obtain ⟨hold, hne⟩ := (hrelocated.mem_indexedAt place path).1 hpath
      obtain ⟨found, hfound, rfl, hplace⟩ := hstands.indexed.only place path hold
      exact ⟨found, (hrelocated.mem_files found).2 (.inr ⟨hfound, hne⟩), rfl, hplace⟩
    · rcases (hrelocated.mem_files other).1 hother with rfl | ⟨hother, hne⟩
      · exact absurd (.inr hrelocated.path_eq) hstale
      · exact (hrelocated.mem_indexedAt place other.path).2
          ⟨hstands.indexed.all other hother (fun h => hstale (.inl h)) place hplace, hne⟩

omit hfile in
theorem Relocated.file? (path : Path) : after.file? path =
    if path = target then some moved else if path = file.path then none else before.file? path := by
  refine Option.ext fun other => ?_
  rw [hrelocated.ordered.file?_iff, hrelocated.mem_files]
  split
  · rename_i heq
    rw [heq, ← hrelocated.path_eq, Option.some.injEq]
    constructor
    · rintro ⟨hother, hpath⟩
      exact hrelocated.ordered.eq_of_path ((hrelocated.mem_files moved).2 (.inl rfl))
        ((hrelocated.mem_files other).2 hother) hpath.symm
    · rintro rfl
      exact ⟨.inl rfl, rfl⟩
  · rename_i htarget
    constructor
    · rintro ⟨rfl | ⟨hother, hne⟩, rfl⟩
      · exact absurd hrelocated.path_eq htarget
      · rw [if_neg hne]
        exact hstands.ordered.file?_self hother
    · intro hfile
      split at hfile
      · cases hfile
      · rename_i hne
        obtain ⟨hother, rfl⟩ := file?_mem hfile
        exact ⟨.inr ⟨hother, hne⟩, rfl⟩

end Relocated

end Workspace

namespace Pass

section Rename

variable {environment : Environment} {stale pending : Path → Prop} {pass : Pass}

theorem exists_relocated (hstands : pass.workspace.Stands environment stale pending)
    {source target : Path} {file : SourceFile} (hfile : pass.workspace.file? source = some file)
    (htarget : target.IsNormal) (hfree : pass.workspace.file? target = none) :
    ∃ moved after, pass.relocate file target = .ok after ∧
      Workspace.Relocated pass.workspace file target moved after.workspace ∧
      after.sequence = pass.sequence := by
  obtain ⟨hmem, rfl⟩ := Workspace.file?_mem hfile
  have hwithdrawn := hstands.withdrawn hfile
  have hheld := hstands.held file hmem
  have hnodup := List.nodup_cons.1 (hstands.parallel file hmem).nodup
  have hprepared := hstands.prepared htarget
  rw [hfree] at hprepared
  obtain ⟨hfreeIndex⟩ := hprepared
  obtain ⟨graph, hrun, hsound, hnode?, hedge⟩ := Graph.exists_relocate hstands.graph
    (file.symbols ++ file.imports) file.node hfreeIndex
    (List.nodup_append_comm.1 (List.nodup_cons.2 hnodup))
    (by
      intro id hid
      rcases List.mem_append.1 hid with hid | hid
      · obtain ⟨node, _, _, hnode, hkind, -⟩ :=
          hheld.exists_symbol (hstands.parallel file hmem) hid
        refine ⟨node, hnode, fun h => ?_⟩
        rw [h] at hkind
        cases hkind
      · obtain ⟨node, _, hnode, hkind, -⟩ := hheld.imported id hid
        exact ⟨node, hnode, by rw [hkind]; decide⟩)
    (by
      obtain ⟨node, _, hnode, -⟩ := hheld.own
      exact ⟨node, hnode⟩)
  let moved : SourceFile := { file with
    path := target
    created := pass.sequence
    history := []
    historyFloor := pass.sequence }
  let next : Workspace := ({ withdraw pass.workspace file with graph }).putFile moved
  refine ⟨moved, { pass with workspace := next }, ?_, ⟨rfl, ⟨rfl, rfl, rfl, rfl, rfl, rfl⟩, hsound,
    fun id => ?_, hedge, ?_, fun other => ?_, hwithdrawn.externals,
    fun place => (hwithdrawn.indexSorted place).1, hwithdrawn.mem_indexedAt⟩, rfl⟩
  · rw [relocate]
    simp only [hwithdrawn.graph, hrun, ok_bind]
    rfl
  · refine (hnode? id).trans ?_
    have hiff : id ∈ file.symbols ++ file.imports ++ [file.node] ↔ id ∈ file.nodes := by
      rw [SourceFile.nodes, List.mem_append, List.mem_singleton, List.mem_cons, or_comm]
    simp only [hiff]
  · have hordered : Workspace.Ordered
        ({ withdraw pass.workspace file with graph } : Workspace).files := hwithdrawn.ordered
    exact hordered.put htarget
  · rw [Workspace.mem_putFile]
    refine or_congr_right ((and_congr_left' (hwithdrawn.mem_files other)).trans ?_)
    refine ⟨And.left, fun h => ⟨h, fun hpath => ?_⟩⟩
    exact Workspace.file?_eq_none_iff.1 hfree other h.1 hpath

/-- Replacements of which none could be made leave the text as it was. -/
theorem applyAll_eq_of_isEmpty {text : String} {replacements : List Replacement}
    (hempty : (Replacement.applyAll text replacements).2.isEmpty) :
    (Replacement.applyAll text replacements).1 = text := by
  have hkept : (Replacement.applyAll text replacements).2 = [] →
      (Replacement.applyAll text replacements).1 = text := by
    refine List.foldlRecOn (motive := fun state : String × List TextEdit =>
      state.2 = [] → state.1 = text) _ _ (fun _ => rfl) fun state ih replacement _ => ?_
    simp only [Replacement.apply]
    split
    · exact ih
    · exact fun h => absurd h (by simp)
  exact hkept (List.isEmpty_iff.1 hempty)

/-- What a pass does to the texts, in a workspace that stands. -/
structure Rewrites (environment : Environment) (before after : Pass)
    (text? : Path → Option String) : Prop where
  stands : after.workspace.Stands environment (fun _ => False) (· ∈ after.bind)
  sequence : after.sequence = before.sequence
  texts : ∀ path, after.workspace.text? path = text? path

/-- A file that is up to date has a language that is supported. -/
theorem isSupported_of_current {file : SourceFile} (hcurrent : file.Current environment) :
    (Language.ofPath file.path).isSupported :=
  Parsed.isSupported_of_parse hcurrent.parsed

theorem isSupported_of_applyText {path : Path} {text : String} {edits : List TextEdit} {next : Pass}
    (happly : applyText environment pass path text edits = .ok next) :
    (Language.ofPath path).isSupported := by
  obtain ⟨parsed, hparsed, -⟩ := exists_of_bind_eq_ok happly
  exact Parsed.isSupported_of_parse (eq_ok_of_mapError_eq_ok hparsed)

theorem exists_respell (hstands : pass.workspace.Stands environment (fun _ => False) (· ∈ pass.bind))
    (path : Path) (replacements : List Replacement) :
    ∃ after, respell environment pass (path, replacements) = .ok after ∧
      Rewrites environment pass after fun other => if other = path then
        (pass.workspace.text? path).map fun text => (Replacement.applyAll text replacements).1
        else pass.workspace.text? other := by
  rw [respell]
  cases hfile : pass.workspace.file? path with
  | none =>
    refine ⟨pass, rfl, hstands, rfl, fun other => ?_⟩
    split
    · rename_i heq
      rw [heq, Workspace.text?, hfile]
      rfl
    · rfl
  | some file =>
    obtain ⟨hmem, rfl⟩ := Workspace.file?_mem hfile
    simp only
    split
    · rename_i hempty
      refine ⟨pass, rfl, hstands, rfl, fun other => ?_⟩
      split
      · rename_i heq
        rw [heq, Workspace.text?, hfile, Option.map_some, Option.map_some,
          applyAll_eq_of_isEmpty hempty]
      · rfl
    · obtain ⟨-, hcurrent⟩ := hstands.drawn file hmem id
      obtain ⟨put, after, hrun, happlied⟩ := exists_applyText hstands
        (hstands.ordered.normal file hmem) (isSupported_of_current hcurrent)
        (Replacement.applyAll file.text replacements).1
        (Replacement.applyAll file.text replacements).2
      refine ⟨after.writeBack (.write file.path
        (Replacement.applyAll file.text replacements).1), ?_, ?_, happlied.sequence, fun other => ?_⟩
      · rw [hrun]
        rfl
      · exact (happlied.stands hstands).mono (fun _ _ h => h.1) fun _ _ h => h
      · refine (happlied.swapped.text? hstands.ordered other).trans ?_
        rw [Option.map_some, happlied.text_eq, Workspace.text?, Workspace.text?, hfile]
        rfl

/-- An importer that is spelled anew is left alone when it is not held or nothing in it is
replaced, or its text with the replacements is read and written back. -/
theorem respell_cases {entry : Path × List Replacement} {next : Pass}
    (hrespell : respell environment pass entry = .ok next) :
    next = pass ∨ ∃ file applied, pass.workspace.file? entry.1 = some file ∧
      applyText environment pass entry.1 (Replacement.applyAll file.text entry.2).1
        (Replacement.applyAll file.text entry.2).2 = .ok applied ∧
      next = applied.writeBack (.write entry.1 (Replacement.applyAll file.text entry.2).1) := by
  rw [respell] at hrespell
  split at hrespell
  · exact .inl (Except.ok.inj hrespell).symm
  · rename_i file hfile
    simp only at hrespell
    split at hrespell
    · exact .inl (Except.ok.inj hrespell).symm
    · obtain ⟨applied, happly, hnext⟩ := exists_of_bind_eq_ok hrespell
      exact .inr ⟨file, applied, hfile, happly, (Except.ok.inj hnext).symm⟩

/-- An importer that is spelled anew is left alone, or gets another text. -/
theorem eq_or_applied_of_respell
    (hstands : pass.workspace.Stands environment (fun _ => False) (· ∈ pass.bind))
    {entry : Path × List Replacement} {next : Pass}
    (hrespell : respell environment pass entry = .ok next) :
    next = pass ∨ ∃ text edits put applied change, entry.1.IsNormal ∧
      applyText environment pass entry.1 text edits = .ok applied ∧
      Applied environment pass entry.1 text put applied ∧ next = applied.writeBack change := by
  refine (respell_cases hrespell).imp_right ?_
  rintro ⟨file, applied, hfile, happly, hnext⟩
  obtain ⟨hmem, hpath⟩ := Workspace.file?_mem hfile
  have hnormal := hpath ▸ hstands.ordered.normal file hmem
  obtain ⟨put, found, hrun, happlied⟩ := exists_applyText hstands hnormal
    (isSupported_of_applyText happly) (Replacement.applyAll file.text entry.2).1
    (Replacement.applyAll file.text entry.2).2
  obtain rfl := Except.ok.inj (hrun.symm.trans happly)
  exact ⟨_, _, put, found, _, hnormal, hrun, happlied, hnext⟩

/-- The importers are spelled anew one after the other, each once. -/
theorem exists_respellAll
    (hstands : pass.workspace.Stands environment (fun _ => False) (· ∈ pass.bind))
    {entries : List (Path × List Replacement)} (hnodup : (entries.map Prod.fst).Nodup) :
    ∃ after, entries.foldlM (respell environment) pass = .ok after ∧
      Rewrites environment pass after fun path =>
        match entries.find? (·.1 = path) with
        | some entry => (pass.workspace.text? path).map fun text =>
          (Replacement.applyAll text entry.2).1
        | none => pass.workspace.text? path := by
  refine exists_foldlM _ _ _ (fun (done : List (Path × List Replacement)) state =>
    Rewrites environment pass state fun path =>
    match done.find? (·.1 = path) with
    | some entry => (pass.workspace.text? path).map fun text =>
      (Replacement.applyAll text entry.2).1
    | none => pass.workspace.text? path) ⟨hstands, rfl, fun _ => rfl⟩ ?_
  rintro done ⟨path, replacements⟩ rest state hentries hdone
  obtain ⟨after, hrun, hrewrites⟩ := exists_respell hdone.stands path replacements
  refine ⟨after, hrun, hrewrites.stands, hrewrites.sequence.trans hdone.sequence, fun other => ?_⟩
  have hnew : done.find? (·.1 = path) = none := by
    rw [hentries, List.map_append, List.map_cons] at hnodup
    refine List.find?_eq_none.2 fun entry hentry => ?_
    have hne := (List.nodup_append.1 hnodup).2.2 entry.1 (List.mem_map_of_mem hentry) path
      List.mem_cons_self
    simpa using hne
  rw [hrewrites.texts, List.find?_append]
  split
  · rename_i heq
    subst heq
    have htext := hdone.texts other
    rw [hnew] at htext
    simp only at htext
    rw [htext, hnew]
    simp
  · rename_i hne
    rw [hdone.texts]
    cases done.find? (·.1 = other) with
    | some entry => rfl
    | none => simp [Ne.symm hne]

end Rename

end Pass

namespace Workspace

variable {environment : Environment} {workspace : Workspace}

theorem mem_importersOf {path other : Path} : other ∈ workspace.importersOf path ↔
    (other ∈ workspace.indexedAt path ∨
      ∃ directory, path.parent? = some directory ∧ other ∈ workspace.indexedAt directory) ∧
    other ≠ path := by
  rw [importersOf, PathSet.mem_remove, PathSet.mem_insertAll, or_comm]
  cases path.parent? <;> simp

theorem Stands.importersOf_nodup {stale pending : Path → Prop}
    (hstands : workspace.Stands environment stale pending) (path : Path) :
    (workspace.importersOf path).Nodup := by
  have hindex := hstands.indexSorted
  refine PathSet.Sorted.nodup (PathSet.Sorted.filter ((hindex path).1.insertAll ?_ (hindex path).2) _)
  intro other hother
  cases hparent : path.parent? with
  | none =>
    rw [hparent] at hother
    cases hother
  | some directory =>
    rw [hparent] at hother
    exact (hindex directory).2 other hother

theorem Sound.isPlain_of_mem_plans (hsound : workspace.Sound environment) {file : SourceFile}
    (hfile : file ∈ workspace.files) {plan : ModulePlan} (hplan : plan ∈ file.plans)
    {candidate : Candidate} (hcandidate : candidate ∈ plan.all) : candidate.path.IsPlain := by
  rw [(hsound.drawn file hfile id).2.plans, Pass.plansOf] at hplan
  obtain ⟨fact, -, rfl⟩ := List.mem_map.1 hplan
  exact ModulePlan.isPlain_of_mem_all hcandidate

/-- An import that points into a file has a place that the file is indexed under, so a file that is
not among the importers has nothing to replace. -/
theorem Sound.importerReplacements_eq_nil (hsound : workspace.Sound environment)
    {source : Path} (target : Path) (hsource : source.IsNormal) {file : SourceFile}
    (hfile : file ∈ workspace.files) (hne : file.path ≠ source)
    (hnot : file.path ∉ workspace.importersOf source) :
    workspace.importerReplacements environment.config source target file = [] := by
  have hnone : ∀ entry ∈ file.imports.zip (file.facts.imports.zip file.plans),
      workspace.respellings environment.config file source target entry = [] := by
    rintro ⟨node, fact, plan⟩ hentry
    have hplan : plan ∈ file.plans := (List.of_mem_zip (List.of_mem_zip hentry).2).2
    have hpoints : ¬ workspace.pointsInto node plan source := by
      intro hpoints
      rw [pointsInto, Bool.and_eq_true, List.any_eq_true] at hpoints
      obtain ⟨⟨candidate, hcandidate, haccepts⟩, -⟩ := hpoints
      have hall : candidate ∈ plan.all := List.mem_append_left _ hcandidate
      have hplain := hsound.isPlain_of_mem_plans hfile hplan hall
      have hindexed := hsound.indexed.all file hfile id candidate.path
        (List.mem_map.2 ⟨candidate, List.mem_flatMap.2 ⟨plan, hplan, hall⟩, rfl⟩)
      refine hnot (mem_importersOf.2 ⟨?_, hne⟩)
      cases candidate with
      | file wanted =>
        exact .inl (hplain.eq_of_same hsource.isPlain haccepts ▸ hindexed)
      | package directory =>
        obtain ⟨parent, hparent, hsame⟩ := (Option.any_eq_true _ _).1 haccepts
        exact .inr ⟨parent, hparent,
          hplain.eq_of_same (hsource.parent?_isPlain hparent) hsame ▸ hindexed⟩
    simp only [respellings, hpoints, guard]
    rfl
  have hflat : (file.imports.zip (file.facts.imports.zip file.plans)).flatMap
      (workspace.respellings environment.config file source target) = [] :=
    List.flatMap_eq_nil_iff.2 hnone
  rw [importerReplacements, hflat]
  simp [Replacement.inOrder]

theorem Stands.affectedImporters_nodup {stale pending : Path → Prop}
    (hstands : workspace.Stands environment stale pending) (config : Config)
    (source target : Path) :
    ((workspace.affectedImporters config source target).map Prod.fst).Nodup := by
  rw [affectedImporters, List.map_map, List.map_filterMap]
  refine (hstands.importersOf_nodup source).filterMap fun first second path hfirst hsecond => ?_
  obtain ⟨file, hfile, rfl⟩ := Option.map_eq_some_iff.1 hfirst
  obtain ⟨other, hother, hpath⟩ := Option.map_eq_some_iff.1 hsecond
  exact (file?_mem hfile).2.symm.trans (hpath.symm.trans (file?_mem hother).2)

theorem mem_affectedImporters {config : Config} {source target : Path}
    {entry : Path × List Replacement} :
    entry ∈ workspace.affectedImporters config source target ↔
      ∃ file, entry.1 ∈ workspace.importersOf source ∧ workspace.file? entry.1 = some file ∧
        entry.2 = workspace.importerReplacements config source target file := by
  simp only [affectedImporters, List.mem_map, List.mem_filterMap]
  constructor
  · rintro ⟨file, ⟨path, hpath, hfile⟩, rfl⟩
    obtain ⟨-, rfl⟩ := file?_mem hfile
    exact ⟨file, hpath, hfile, rfl⟩
  · rintro ⟨file, hpath, hfile, heq⟩
    exact ⟨file, ⟨entry.1, hpath, hfile⟩, Prod.ext (file?_mem hfile).2 heq.symm⟩

/-- The texts after a file has moved: the other files have their imports spelled anew. -/
def textAfterRename (workspace : Workspace) (config : Config) (source target : Path)
    (file : SourceFile) (path : Path) : Option String :=
  if path = target then some file.text
  else if path = source then none
  else (workspace.file? path).map fun other => (Replacement.applyAll other.text
    (workspace.importerReplacements config source target other)).1

/-- To spell the importers that were found anew is to spell anew every file that has an import to be
spelled anew. -/
theorem Sound.textAfterRename_eq (hsound : workspace.Sound environment) {source target : Path}
    (hsource : source.IsNormal) (hfree : workspace.file? target = none) (file : SourceFile)
    (path : Path) :
    (let moved := if path = target then some file.text
      else if path = source then none else workspace.text? path
    match (workspace.affectedImporters environment.config source target).find? (·.1 = path) with
      | some entry => moved.map fun text => (Replacement.applyAll text entry.2).1
      | none => moved) = workspace.textAfterRename environment.config source target file path := by
  rw [textAfterRename]
  cases hfind : (workspace.affectedImporters environment.config source target).find?
    (·.1 = path) with
  | some entry =>
    have hentry := List.mem_of_find?_eq_some hfind
    obtain rfl : entry.1 = path := by simpa using List.find?_some hfind
    obtain ⟨other, himporter, hother, hreplacements⟩ := mem_affectedImporters.1 hentry
    have hne : entry.1 ≠ source := (mem_importersOf.1 himporter).2
    have hne' : entry.1 ≠ target := by
      intro heq
      rw [heq, hfree] at hother
      cases hother
    simp only [if_neg hne, if_neg hne', text?, hother, hreplacements, Option.map_some]
  | none =>
    simp only
    split
    · rfl
    · split
      · rfl
      · rename_i hne
        rw [text?]
        cases hother : workspace.file? path with
        | none => rfl
        | some other =>
          obtain ⟨hmem, rfl⟩ := file?_mem hother
          have hnil := hsound.importerReplacements_eq_nil target hsource hmem hne
            fun himporter => by
              have hentry : (other.path,
                  workspace.importerReplacements environment.config source target other) ∈
                    workspace.affectedImporters environment.config source target :=
                mem_affectedImporters.2 ⟨other, himporter, hother, rfl⟩
              simpa using List.find?_eq_none.1 hfind _ hentry
          rw [Option.map_some, Option.map_some, hnil]
          rfl

end Workspace

namespace Pass

variable {environment : Environment} {pass : Pass}

/-- What a pass notes of a file once it is read at the path that it was moved to. -/
def noteMove (pass : Pass) (source target : Path) (text : String) : Pass :=
  (((({ pass with removed := pass.removed.put source (Language.ofPath source) } : Pass).noteChanged
    source).noteChanged target).writeBack (.remove source)).writeBack (.write target text)

/-- A file that moves is taken to its new path and read there, and then the importers that were
found before the move are spelled anew. -/
theorem rename_cases {source target : Path} {next : Pass}
    (hrename : pass.rename environment source target = .ok next) :
    ∃ file moved applied, pass.workspace.file? source = some file ∧
      pass.relocate file target = .ok moved ∧
      applyText environment moved target file.text [] = .ok applied ∧
      (pass.workspace.affectedImporters environment.config source target).foldlM
        (respell environment) (applied.noteMove source target file.text) = .ok next := by
  rw [rename] at hrename
  split at hrename
  · cases hrename
  · rename_i file hfile
    obtain ⟨moved, hrelocate, hrest⟩ := exists_of_bind_eq_ok hrename
    obtain ⟨applied, happly, hloop⟩ := exists_of_bind_eq_ok hrest
    exact ⟨file, moved, applied, hfile, eq_ok_of_mapError_eq_ok hrelocate, happly, hloop⟩

/-- A file that moves is taken to its new path with its nodes, and its text is read there. -/
theorem exists_taken (hsound : pass.workspace.Sound environment) {source target : Path}
    {file : SourceFile} (hfile : pass.workspace.file? source = some file) (htarget : target.IsNormal)
    (hfree : pass.workspace.file? target = none)
    (hsupported : (Language.ofPath target).isSupported) :
    ∃ moved first put second, pass.relocate file target = .ok first ∧
      Workspace.Relocated pass.workspace file target moved first.workspace ∧
      first.applyText environment target file.text [] = .ok second ∧
      Applied environment first target file.text put second ∧
      (∃ stale pending, first.workspace.Stands environment stale pending) ∧
      second.workspace.Stands environment (fun _ => False) (· ∈ second.bind) ∧
      second.sequence = pass.sequence := by
  obtain ⟨hmem, rfl⟩ := Workspace.file?_mem hfile
  obtain ⟨moved, first, hrunFirst, hrelocated, hsequence⟩ :=
    exists_relocated hsound hfile htarget hfree
  have hstandsFirst := hrelocated.stands hsound hmem
  obtain ⟨put, second, hrunSecond, happlied⟩ :=
    exists_applyText hstandsFirst htarget hsupported file.text []
  refine ⟨moved, first, put, second, hrunFirst, hrelocated, hrunSecond, happlied,
    ⟨_, _, hstandsFirst⟩, ?_, happlied.sequence.trans hsequence⟩
  refine (happlied.swapped.stands hstandsFirst).mono ?_ ?_
  · rintro _ - ⟨hfalse | heq, hne⟩
    · exact hfalse
    · exact hne heq
  · rintro _ - ((hfalse | heq) | heq)
    · exact hfalse.elim
    · rw [happlied.bind, PathSet.mem_insert]
      exact .inl heq
    · rw [happlied.bind, PathSet.mem_insert]
      exact .inl heq

/-- The text of a file that was taken to its new path is there, and the others are as before. -/
theorem text?_of_taken (hsound : pass.workspace.Sound environment) {target : Path}
    {file moved put : SourceFile} {first second : Pass}
    (hrelocated : Workspace.Relocated pass.workspace file target moved first.workspace)
    (happlied : Applied environment first target file.text put second) (path : Path) :
    second.workspace.text? path = if path = target then some file.text else
      if path = file.path then none else pass.workspace.text? path := by
  rw [happlied.swapped.text? hrelocated.ordered, Option.map_some, happlied.text_eq]
  split
  · rfl
  · rename_i hne
    rw [Workspace.text?, hrelocated.file? hsound, if_neg hne]
    split <;> rfl

/-- **A file moves and its importers follow.** -/
theorem exists_rename (hsound : pass.workspace.Sound environment)
    {source target : Path} {file : SourceFile} (hfile : pass.workspace.file? source = some file)
    (htarget : target.IsNormal) (hfree : pass.workspace.file? target = none)
    (hsupported : (Language.ofPath target).isSupported) :
    ∃ after, pass.rename environment source target = .ok after ∧
      Rewrites environment pass after
        (pass.workspace.textAfterRename environment.config source target file) := by
  obtain ⟨hmem, rfl⟩ := Workspace.file?_mem hfile
  obtain ⟨moved, first, put, second, hrunFirst, hrelocated, hrunSecond, happlied, -, hstandsSecond,
    hsequence⟩ := exists_taken hsound hfile htarget hfree hsupported
  let noted := second.noteMove file.path target file.text
  have hstandsNoted : noted.workspace.Stands environment (fun _ => False) (· ∈ noted.bind) :=
    hstandsSecond
  obtain ⟨after, hrunAfter, hrewrites⟩ := exists_respellAll hstandsNoted
    (hsound.affectedImporters_nodup environment.config file.path target)
  refine ⟨after, ?_, hrewrites.stands, hrewrites.sequence.trans hsequence,
    fun path => (hrewrites.texts path).trans ?_⟩
  · rw [rename, hfile]
    simp only [hrunFirst, Except.mapError, ok_bind, hrunSecond]
    exact hrunAfter
  · have htext : noted.workspace.text? path = _ :=
      text?_of_taken hsound hrelocated happlied path
    rw [htext]
    exact hsound.textAfterRename_eq (hsound.ordered.normal file hmem) hfree file path

end Pass

end CodeGraph
