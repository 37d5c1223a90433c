import CodeGraph.Proofs.Workspace.Swap

/-!
# Putting a file in and taking one out

The two steps of a pass that concern one file: its text is made the content of a path, or the file
goes with everything it owns. Neither can fail in a workspace that stands.
-/

namespace CodeGraph

namespace Workspace

/-- The text of the file at a path. -/
def text? (workspace : Workspace) (path : Path) : Option String :=
  (workspace.file? path).map SourceFile.text

/-- The workspace without the file at a path, whose nodes are still in the graph. -/
structure Withdrawn (before : Workspace) (path : Path) (after : Workspace) : Prop where
  graph : after.graph = before.graph
  externals : after.externals = before.externals
  ordered : Ordered after.files
  mem_files : ∀ file, file ∈ after.files ↔ file ∈ before.files ∧ file.path ≠ path
  indexSorted : IndexSorted after.importers
  mem_indexedAt : ∀ place other, other ∈ after.indexedAt place ↔
    other ∈ before.indexedAt place ∧ other ≠ path

/-- The invariant depends on what is stale and what is pending among the files only. -/
theorem Stands.mono {environment : Environment} {stale pending stale' pending' : Path → Prop}
    {workspace : Workspace} (hstands : workspace.Stands environment stale pending)
    (hstale : ∀ file ∈ workspace.files, stale file.path → stale' file.path)
    (hpending : ∀ file ∈ workspace.files, pending file.path → pending' file.path) :
    workspace.Stands environment stale' pending' where
  graph := hstands.graph
  ordered := hstands.ordered
  parallel := hstands.parallel
  held := hstands.held
  drawn := fun file hfile hnot => hstands.drawn file hfile (mt (hstale file hfile) hnot)
  covered := hstands.covered
  wired := hstands.wired
  registered := hstands.registered
  bound := by
    intro file hfile id hid
    obtain ⟨node, binding, language, hnode, hbinding, hlanguage, hbinds⟩ :=
      hstands.bound file hfile id hid
    exact ⟨node, binding, language, hnode, hbinding,
      fun hnot => hlanguage (mt (hpending file hfile) hnot), hbinds⟩
  indexed := ⟨hstands.indexed.sorted, hstands.indexed.only, fun file hfile hnot =>
    hstands.indexed.all file hfile (mt (hstale file hfile) hnot)⟩

section Withdrawn

variable {environment : Environment} {stale pending : Path → Prop} {workspace : Workspace}
  (hstands : workspace.Stands environment stale pending)

include hstands

theorem Stands.withdrawn {path : Path} {file : SourceFile}
    (hfile : workspace.file? path = some file) :
    workspace.Withdrawn path (Pass.withdraw workspace file) := by
  obtain ⟨hmem, rfl⟩ := file?_mem hfile
  refine ⟨rfl, rfl, hstands.ordered.drop _, fun other => mem_dropFile,
    hstands.indexSorted.unindexPlans _ _, fun place other => ?_⟩
  rw [Pass.withdraw, mem_indexedAt_unindexPlans]
  constructor
  · rintro ⟨hother, hnot⟩
    have hother : other ∈ workspace.indexedAt place := hother
    refine ⟨hother, fun heq => hnot ⟨heq, ?_⟩⟩
    obtain ⟨found, hfound, hpath, hplace⟩ := hstands.indexed.only place other hother
    rwa [hstands.ordered.eq_of_path hfound hmem (hpath.trans heq)] at hplace
  · exact fun ⟨hother, hne⟩ => ⟨hother, fun h => hne h.1⟩

theorem Stands.withdrawnAt (path : Path) :
    workspace.Withdrawn path (Pass.withdrawAt workspace path) := by
  rw [Pass.withdrawAt]
  cases hfile : workspace.file? path with
  | some file => exact hstands.withdrawn hfile
  | none =>
    have habsent := file?_eq_none_iff.1 hfile
    refine ⟨rfl, rfl, hstands.ordered, fun other => ?_, hstands.indexSorted, fun place other => ?_⟩
    · exact ⟨fun h => ⟨h, habsent other h⟩, And.left⟩
    · refine ⟨fun hother => ⟨hother, ?_⟩, And.left⟩
      rintro rfl
      obtain ⟨found, hfound, hpath, -⟩ := hstands.indexed.only place other hother
      exact habsent found hfound hpath

end Withdrawn

section Swapped

variable {environment : Environment} {before after : Workspace} {path : Path}
  {put? : Option SourceFile}

theorem Swapped.file? (hordered : Ordered before.files)
    (hswapped : Swapped environment before path put? after) (other : Path) :
    after.file? other = if other = path then put? else before.file? other := by
  refine Option.ext fun file => ?_
  rw [hswapped.ordered.file?_iff, hswapped.mem_files]
  split
  · rename_i heq
    subst heq
    constructor
    · rintro ⟨hput | ⟨-, hne⟩, hpath⟩
      · exact hput
      · exact absurd hpath hne
    · exact fun hput => ⟨.inl hput, (hswapped.brought file hput).path_eq⟩
  · rename_i hne
    rw [hordered.file?_iff]
    constructor
    · rintro ⟨hput | ⟨hfile, -⟩, hpath⟩
      · exact absurd (hpath.symm.trans (hswapped.brought file hput).path_eq) hne
      · exact ⟨hfile, hpath⟩
    · rintro ⟨hfile, rfl⟩
      exact ⟨.inr ⟨hfile, hne⟩, rfl⟩

theorem Swapped.text? (hordered : Ordered before.files)
    (hswapped : Swapped environment before path put? after) (other : Path) :
    after.text? other = if other = path then put?.map SourceFile.text else before.text? other := by
  rw [Workspace.text?, hswapped.file? hordered]
  split <;> rfl

end Swapped

end Workspace

namespace SourceFile

/-- Files that differ at most in their path and their history. -/
structure SameContent (left right : SourceFile) : Prop where
  node : left.node = right.node
  parsed : left.parsed = right.parsed
  facts : left.facts = right.facts
  symbols : left.symbols = right.symbols
  imports : left.imports = right.imports
  plans : left.plans = right.plans

theorem Parallel.congr {file moved : SourceFile} (hparallel : file.Parallel)
    (hsame : moved.SameContent file) : moved.Parallel := by
  refine ⟨?_, ?_, ?_, ?_, ?_⟩
  · rw [hsame.symbols, hsame.facts, hparallel.symbols]
  · rw [hsame.imports, hsame.facts, hparallel.imports]
  · rw [hsame.plans, hsame.facts, hparallel.plans]
  · rw [nodes, hsame.node, hsame.symbols, hsame.imports]
    exact hparallel.nodup
  · rw [hsame.facts]
    exact hparallel.formed

/-- Edits are kept in the history and nowhere else. -/
theorem sameContent_remember (keep : Nat) (applied : List AppliedEdit) (file : SourceFile) :
    (applied.foldl (remember keep) file).path = file.path ∧
      (applied.foldl (remember keep) file).SameContent file :=
  List.foldlRecOn (motive := fun now : SourceFile => now.path = file.path ∧ now.SameContent file)
    applied (remember keep) ⟨rfl, rfl, rfl, rfl, rfl, rfl, rfl⟩ fun _ hsame _ _ =>
      ⟨hsame.1, hsame.2.node, hsame.2.parsed, hsame.2.facts, hsame.2.symbols, hsame.2.imports,
        hsame.2.plans⟩

end SourceFile

/-- A text is parsed if and only if its language is supported. -/
theorem Parsed.exists_parse (parser : Parser) (path : Path) {language : Language}
    (hsupported : language.isSupported) (text : String) :
    ∃ parsed, Parsed.parse parser path language text = .ok parsed ∧
      parsed.language = language ∧ parsed.text = text := by
  rw [Parsed.parse]
  cases language with
  | other => cases hsupported
  | _ => exact ⟨_, rfl, rfl, rfl⟩

theorem Parsed.isSupported_of_parse {parser : Parser} {path : Path} {language : Language}
    {text : String} {parsed : Parsed} (hparse : Parsed.parse parser path language text = .ok parsed) :
    language.isSupported := by
  rw [Parsed.parse] at hparse
  cases language with
  | other => cases hparse
  | _ => rfl

namespace Pass

/-- A pass after the text of a file was made the content of a path. -/
structure Applied (environment : Environment) (before : Pass) (path : Path) (text : String)
    (file : SourceFile) (after : Pass) : Prop where
  swapped : Workspace.Swapped environment before.workspace path (some file) after.workspace
  text_eq : file.text = text
  sequence : after.sequence = before.sequence
  bind : after.bind = PathSet.insert path before.bind
  link : after.link = PathSet.insert path before.link
  changed : after.changed =
    if (before.workspace.file? path).any fun old => old.facts.signature = file.facts.signature
    then before.changed else PathSet.insert path before.changed

/-- What is waiting to be bound is what waits to be noted. -/
theorem Applied.stands {environment : Environment} {stale : Path → Prop} {before after : Pass}
    {path : Path} {text : String} {file : SourceFile}
    (happlied : Applied environment before path text file after)
    (hstands : before.workspace.Stands environment stale (· ∈ before.bind)) :
    after.workspace.Stands environment (fun other => stale other ∧ other ≠ path)
      (· ∈ after.bind) := by
  have hbind : (fun other => other ∈ after.bind) = fun other => other ∈ before.bind ∨ other = path :=
    funext fun other => propext (by rw [happlied.bind, PathSet.mem_insert, or_comm])
  exact hbind ▸ happlied.swapped.stands hstands

section Install

variable {environment : Environment} {stale pending : Path → Prop} {pass : Pass}
  (hstands : pass.workspace.Stands environment stale pending)

include hstands

omit hstands in
/-- The nodes that were brought up to date show the file. -/
theorem brought_of_synced {start graph : Graph} {path : Path} (hnormal : path.IsNormal)
    {file : SourceFile} (hpath : file.path = path) (hcurrent : file.Current environment)
    {old oldSymbols oldImports : List NodeId}
    (hsynced : Synced start path file.parsed file.facts old oldSymbols oldImports graph file.node
      file.symbols file.imports) :
    Workspace.Brought environment start (fun id => id ∈ old ∧ id ∉ file.nodes) path graph file := by
  have hparallel : file.Parallel := by
    refine ⟨hsynced.symbolCount, hsynced.importCount, ?_, hsynced.nodup, ?_⟩
    · rw [hcurrent.plans, plansOf, List.length_map]
    · rw [hcurrent.facts]
      exact file.parsed.wellFormed_facts
  have hdrawn : file.Drawn graph := by
    refine ⟨hpath ▸ hsynced.own, ?_, ?_⟩
    · rw [hpath]
      exact hsynced.symbol
    · intro index id fact hid hfact
      obtain ⟨binding, -, hnode⟩ := hsynced.imported index id fact hid hfact
      exact ⟨binding, hpath ▸ hnode⟩
  refine ⟨hpath, hnormal, hparallel, hdrawn, hcurrent, fun id hid => ?_⟩
  obtain ⟨index, hindex⟩ := List.mem_iff_getElem?.1 hid
  have hlt : index < file.facts.imports.length :=
    hparallel.imports ▸ (List.getElem?_eq_some_iff.1 hindex).1
  obtain ⟨binding, hkeeps, hnode⟩ :=
    hsynced.imported index id _ hindex (List.getElem?_eq_getElem hlt)
  exact ⟨_, binding, hnode, rfl, hkeeps⟩

omit hstands in
/-- A node that was brought up to date stays what it was: the file's own, a symbol or an import. -/
theorem places_of_synced {start graph : Graph} {path : Path} {file old : SourceFile}
    (hold : old.nodes.Nodup)
    (hsynced : Synced start path file.parsed file.facts old.nodes old.symbols old.imports graph
      file.node file.symbols file.imports) {id : NodeId} (hid : id ∈ file.nodes) :
    (id = old.node → id = file.node) ∧ (id ∈ old.symbols → id ∈ file.symbols) ∧
      (id ∈ old.imports → id ∈ file.imports) := by
  have hnodup := List.nodup_cons.1 hold
  have hdisjoint := (List.nodup_append.1 hnodup.2).2.2
  have hown : old.node = file.node := hsynced.oldNode _ SourceFile.node_mem_nodes
    (fun h => hnodup.1 (List.mem_append_left _ h))
    (fun h => hnodup.1 (List.mem_append_right _ h))
  refine ⟨fun h => h.trans hown, fun hsymbol => ?_, fun himport => ?_⟩
  · rcases List.mem_cons.1 hid with rfl | hid
    · exact absurd (List.mem_append_left _ (hown ▸ hsymbol)) hnodup.1
    · refine (List.mem_append.1 hid).resolve_right fun h => ?_
      exact hdisjoint id hsymbol id
        (hsynced.oldImport id h (SourceFile.mem_nodes_of_symbol hsymbol)) rfl
  · rcases List.mem_cons.1 hid with rfl | hid
    · exact absurd (List.mem_append_right _ (hown ▸ himport)) hnodup.1
    · refine (List.mem_append.1 hid).resolve_left fun h => ?_
      exact hdisjoint id (hsynced.oldSymbol id h (SourceFile.mem_nodes_of_import himport)) id
        himport rfl

/-- The nodes that were brought up to date make the file take the place of the one before. -/
theorem swapped_of_synced {path : Path} (hnormal : path.IsNormal) {file : SourceFile}
    (hpath : file.path = path) (hcurrent : file.Current environment) {graph : Graph}
    (hsynced : Synced pass.workspace.graph path file.parsed file.facts
      (((pass.workspace.file? path).map SourceFile.nodes).getD [])
      (((pass.workspace.file? path).map SourceFile.symbols).getD [])
      (((pass.workspace.file? path).map SourceFile.imports).getD []) graph file.node file.symbols
      file.imports) :
    Workspace.Swapped environment pass.workspace path (some file)
      ((({ withdrawAt pass.workspace path with graph }).indexPlans path file.plans).putFile
        file) := by
  have hwithdrawn := hstands.withdrawnAt path
  have hordered : Workspace.Ordered
      (({ withdrawAt pass.workspace path with graph }).indexPlans path file.plans).files :=
    hwithdrawn.ordered
  refine ⟨hsynced.toReplaced, ?_, ?_, fun key => ?_, fun other => ?_, ?_, hwithdrawn.externals, ?_,
    fun place other => ?_⟩
  · rintro _ ⟨⟩
    exact brought_of_synced hnormal hpath hcurrent hsynced
  · rintro old hold _ ⟨⟩ id hid
    rw [hold] at hsynced
    exact places_of_synced (hstands.parallel old (Workspace.file?_mem hold).1).nodup hsynced hid
  · refine (hsynced.hasEdge key).trans ?_
    simp only [Option.some.injEq, exists_eq_left', Workspace.Calls, or_assoc]
    rfl
  · rw [Workspace.mem_putFile, Option.some.injEq, eq_comm, hpath]
    refine or_congr_right ((and_congr_left' (hwithdrawn.mem_files other)).trans ?_)
    exact ⟨fun h => h.1, fun h => ⟨h, h.2⟩⟩
  · exact hordered.put (hpath ▸ hnormal)
  · exact fun place => (hwithdrawn.indexSorted.indexPlans hnormal file.plans place).1
  · refine Workspace.mem_indexedAt_indexPlans.trans ?_
    simp only [Option.some.injEq, exists_eq_left']
    exact or_congr_left (hwithdrawn.mem_indexedAt place other)

theorem exists_install {path : Path} (hnormal : path.IsNormal) {parsed : Parsed}
    (hparsed : Parsed.parse environment.parser path (Language.ofPath path) parsed.text = .ok parsed)
    (edits : List TextEdit) : ∃ file after, install environment pass path parsed edits = .ok after ∧
      Applied environment pass path parsed.text file after := by
  have hgraph : (withdrawAt pass.workspace path).graph = pass.workspace.graph :=
    (hstands.withdrawnAt path).graph
  obtain ⟨graph, node, symbols, imports, hrun, hsynced⟩ :=
    exists_syncNodes parsed hstands.graph (hstands.prepared hnormal)
  rw [install]
  simp only [hgraph, hrun, ok_bind]
  generalize hfile : (edits.map (AppliedEdit.mk pass.sequence)).foldl
    (SourceFile.remember environment.config.editHistory) _ = file
  have hsame := hfile ▸ SourceFile.sameContent_remember _ _ _
  clear hfile
  obtain ⟨hpath, hnode, hparsedEq, hfacts, hsymbols, himports, hplans⟩ := hsame
  subst hpath hnode hparsedEq hsymbols himports
  have hcurrent : file.Current environment :=
    ⟨hparsed, hfacts, by rw [hplans, hfacts, SourceFile.language]⟩
  replace hfacts : file.facts = file.parsed.facts := hfacts
  replace hplans : file.plans =
    plansOf environment.config file.path file.parsed.language file.parsed.facts := hplans
  rw [← hfacts] at hsynced
  refine ⟨file, _, rfl, ?_, rfl, rfl, rfl, rfl, by rw [hfacts]⟩
  simp only
  rw [← hplans]
  exact swapped_of_synced hstands hnormal rfl hcurrent hsynced

theorem exists_applyText {path : Path} (hnormal : path.IsNormal)
    (hsupported : (Language.ofPath path).isSupported) (text : String) (edits : List TextEdit) :
    ∃ file after, pass.applyText environment path text edits = .ok after ∧
      Applied environment pass path text file after := by
  obtain ⟨parsed, hparsed, -, rfl⟩ :=
    Parsed.exists_parse environment.parser path hsupported text
  obtain ⟨file, after, hrun, happlied⟩ := exists_install hstands hnormal hparsed edits
  refine ⟨file, after, ?_, happlied⟩
  rw [applyText, hparsed]
  simp only [Except.mapError, ok_bind, hrun]

end Install

/-! ### Taking a file out -/

section Remove

variable {environment : Environment} {stale pending : Path → Prop} {workspace : Workspace}
  (hstands : workspace.Stands environment stale pending) {file : SourceFile}
  (hfile : file ∈ workspace.files)

include hstands hfile

/-- What a node of a file owns: a file its symbols and imports, a symbol the symbols in it. -/
theorem owns_cases {owner id : NodeId} (howner : owner ∈ file.nodes)
    (howns : workspace.graph.Owns owner id) :
    (owner = file.node ∧ id ∈ file.symbols ++ file.imports) ∨
      Nests file.facts.symbols file.symbols owner id := by
  obtain ⟨node, hnode, hmem, -⟩ := howns
  rw [Graph.mem_owned_iff, Graph.id_of_node? hnode] at hmem
  rcases hmem with hlisted | hedge
  · have hheld := hstands.held file hfile
    rcases List.mem_cons.1 howner with rfl | howner
    · obtain ⟨found, errors, hfound, -, -, hdetail⟩ := hheld.own
      rw [hnode] at hfound
      rw [Option.some.inj hfound, Node.listed, hdetail] at hlisted
      exact .inl ⟨rfl, hlisted⟩
    · rcases List.mem_append.1 howner with howner | howner
      · obtain ⟨found, _, _, hfound, -, -, hdetail⟩ :=
          hheld.exists_symbol (hstands.parallel file hfile) howner
        rw [hnode] at hfound
        rw [Option.some.inj hfound, Node.listed, hdetail] at hlisted
        cases hlisted
      · obtain ⟨found, _, hfound, -, -, hdetail⟩ := hheld.imported owner howner
        rw [hnode] at hfound
        rw [Option.some.inj hfound, Node.listed, hdetail] at hlisted
        cases hlisted
  · obtain ⟨other, hother, hnests⟩ := (hstands.wired.contains _ _).1 hedge
    have hsame := hstands.eq_of_mem hother hfile
      (SourceFile.mem_nodes_of_symbol (Workspace.mem_of_nests hnests).1) howner
    exact .inr (hsame ▸ hnests)

/-- Everything that a file owns, directly or not, is one of its nodes. -/
theorem reaches_iff {id : NodeId} :
    workspace.graph.Reaches file.node id ↔ id ∈ file.nodes := by
  constructor
  · intro hreaches
    induction hreaches with
    | refl => exact SourceFile.node_mem_nodes
    | tail _ howns ih =>
      rcases owns_cases hstands hfile ih howns with ⟨-, hmem⟩ | hnests
      · exact List.mem_cons_of_mem _ hmem
      · exact SourceFile.mem_nodes_of_symbol (Workspace.mem_of_nests hnests).2
  · intro hid
    rcases List.mem_cons.1 hid with rfl | hmem
    · exact .refl
    · obtain ⟨node, errors, hnode, -, -, hdetail⟩ := (hstands.held file hfile).own
      obtain ⟨found, hfound, -⟩ := hstands.exists_node hfile hid
      refine .single ⟨node, hnode, Graph.mem_owned_iff.2 (.inl ?_), Graph.contains_of_node? hfound⟩
      rw [Node.listed, hdetail]
      exact hmem

/-- Ownership goes down from the file to its symbols and from a symbol to later ones. -/
theorem descends_file : workspace.graph.Descends (fun id => if id = file.node then
    file.symbols.length + 1 else file.symbols.length - file.symbols.idxOf id) file.node := by
  intro owner id hreaches howns
  have hparallel := hstands.parallel file hfile
  have hnodup := List.nodup_cons.1 hparallel.nodup
  rcases owns_cases hstands hfile ((reaches_iff hstands hfile).1 hreaches) howns with
    ⟨rfl, hmem⟩ | hnests
  · have hne : id ≠ file.node := fun h => hnodup.1 (h ▸ hmem)
    simp only [hne, if_false, if_true]
    omega
  · obtain ⟨hownerMem, hidMem⟩ := Workspace.mem_of_nests hnests
    have hne : ∀ other ∈ file.symbols, other ≠ file.node := fun other hother h =>
      hnodup.1 (List.mem_append_left _ (h ▸ hother))
    obtain ⟨index, outer, fact, hfact, houter, hin, hat⟩ := hnests
    have hlt := (hparallel.formed.symbols index fact hfact).parent outer houter
    have hsymbols := (List.nodup_append.1 hnodup.2).1
    simp only [hne owner hownerMem, hne id hidMem, if_false]
    obtain ⟨houterLt, rfl⟩ := List.getElem?_eq_some_iff.1 hin
    obtain ⟨hindexLt, rfl⟩ := List.getElem?_eq_some_iff.1 hat
    rw [hsymbols.idxOf_getElem, hsymbols.idxOf_getElem]
    omega

/-- The nodes of a file go together, and nothing else goes. -/
theorem exists_removeFile : ∃ after, workspace.graph.remove file.node = .ok after ∧
    workspace.graph.Without (· ∈ file.nodes) after := by
  obtain ⟨node, hnode, -⟩ := hstands.exists_node hfile SourceFile.node_mem_nodes
  obtain ⟨after, hrun, hwithout⟩ := Graph.exists_remove hstands.graph
    (Graph.contains_of_node? hnode) (descends_file hstands hfile)
  exact ⟨after, hrun, hwithout.congr fun id => (reaches_iff hstands hfile).symm⟩

end Remove

theorem remove_cases {pass next : Pass} {path : Path} (hremove : pass.remove path = .ok next) :
    ∃ file graph, pass.workspace.file? path = some file ∧
      pass.workspace.graph.remove file.node = .ok graph ∧ next = { pass with
        workspace := { withdraw pass.workspace file with graph }
        removed := pass.removed.put path file.language
        changed := PathSet.insert path pass.changed
        bind := PathSet.remove path pass.bind
        link := PathSet.remove path pass.link } := by
  rw [remove] at hremove
  split at hremove
  · cases hremove
  · rename_i file hfile
    obtain ⟨graph, hgraph, hnext⟩ := exists_of_bind_eq_ok hremove
    exact ⟨file, graph, hfile, eq_ok_of_mapError_eq_ok hgraph, (Except.ok.inj hnext).symm⟩

/-- A pass after the file at a path was taken out. -/
structure Dropped (environment : Environment) (before : Pass) (path : Path) (after : Pass) :
    Prop where
  swapped : Workspace.Swapped environment before.workspace path none after.workspace
  sequence : after.sequence = before.sequence
  bind : after.bind = PathSet.remove path before.bind
  changed : after.changed = PathSet.insert path before.changed

theorem Dropped.stands {environment : Environment} {stale : Path → Prop} {before after : Pass}
    {path : Path} (hdropped : Dropped environment before path after)
    (hstands : before.workspace.Stands environment stale (· ∈ before.bind)) :
    after.workspace.Stands environment stale (· ∈ after.bind) := by
  refine (hdropped.swapped.stands hstands).mono (fun file _ => And.left) fun file hfile => ?_
  obtain ⟨-, hpath⟩ := ((hdropped.swapped.mem_files file).1 hfile).resolve_left (by simp)
  rw [hdropped.bind, PathSet.mem_remove]
  exact fun h => ⟨h.resolve_right hpath, hpath⟩

theorem exists_dropped {environment : Environment} {stale pending : Path → Prop} {pass : Pass}
    (hstands : pass.workspace.Stands environment stale pending) {path : Path} {file : SourceFile}
    (hfile : pass.workspace.file? path = some file) :
    ∃ after, pass.remove path = .ok after ∧ Dropped environment pass path after := by
  have hwithdrawn := hstands.withdrawn hfile
  obtain ⟨hmem, -⟩ := Workspace.file?_mem hfile
  obtain ⟨graph, hrun, hwithout⟩ := exists_removeFile hstands hmem
  have hnodes : Workspace.nodesOf (pass.workspace.file? path) = file.nodes := by
    rw [hfile]
    rfl
  have hgone : ∀ id, (id ∈ file.nodes ∧ id ∉ Workspace.nodesOf none) ↔ id ∈ file.nodes :=
    fun id => and_iff_left List.not_mem_nil
  refine ⟨{ pass with
      workspace := { withdraw pass.workspace file with graph }
      removed := pass.removed.put path file.language
      changed := PathSet.insert path pass.changed
      bind := PathSet.remove path pass.bind
      link := PathSet.remove path pass.link }, ?_, ⟨?_, ?_, ?_, ?_, ?_, hwithdrawn.ordered,
    hwithdrawn.externals, fun place => (hwithdrawn.indexSorted place).1, ?_⟩, rfl, rfl, rfl⟩
  · rw [remove, hfile]
    simp only [hwithdrawn.graph, hrun, Except.mapError, ok_bind]
    rfl
  · rw [hnodes]
    refine ⟨hwithout.sound, hwithout.nextId.ge, List.nodup_nil, by simp [Workspace.nodesOf],
      fun id hid _ => hwithout.dead id hid, fun id _ hnone => hwithout.absent id hnone, ?_, ?_⟩
    · intro id node hold _ hnode
      obtain ⟨now, hnow, hsurvives⟩ := hwithout.kept id node hold hnode
      exact ⟨now, hnow, hsurvives.mono fun other hother => (hgone other).2 hother⟩
    · exact fun id target now htarget _ hedge hnow => hwithout.unbound id target now htarget hedge hnow
  · rintro _ ⟨⟩
  · rintro _ _ _ ⟨⟩
  · intro key
    rw [hnodes, hgone, hgone]
    refine (hwithout.hasEdge key).trans ?_
    simp
  · intro other
    refine (hwithdrawn.mem_files other).trans ?_
    simp
  · intro place other
    refine (hwithdrawn.mem_indexedAt place other).trans ?_
    simp

end Pass

end CodeGraph
