import CodeGraph.Proofs.Facts.Pairing
import CodeGraph.Proofs.Workspace.Converge

/-!
# Doing it again

What a pass has brought up to date is not changed by doing it again: every fact is paired with itself,
every node is what it is updated to, and every edge that is called for is there. So the graph stays the
same graph, with the same journal.
-/

namespace CodeGraph

namespace Pass

variable {graph : Graph}

/-! ### Nodes of a file -/

theorem placeSymbol_eq_self (hsound : graph.Sound) (hplain : graph.Plain) {id : NodeId}
    {parent : Option NodeId}
    (hparent : ∀ source, graph.hasEdge ⟨source, id, .contains⟩ ↔ parent = some source) :
    placeSymbol graph id parent = .ok graph := by
  have hstray : strayParents graph id parent = [] := by
    refine List.eq_nil_iff_forall_not_mem.2 fun key hkey => ?_
    obtain ⟨hedge, rfl, hkind, hother⟩ := mem_strayParents.1 hkey
    exact hother ((hparent key.source).1 (hkind ▸ hedge)).symm
  rw [placeSymbol, hstray]
  refine Graph.insertEdges_eq_self hsound fun edge hedge => ?_
  obtain ⟨source, hsource, rfl⟩ := List.mem_map.1 hedge
  exact hplain.shows ((hparent source).2 (Option.mem_toList.1 hsource)) (by simp)

theorem syncSymbol_eq_self (hsound : graph.Sound) (hplain : graph.Plain) (file : NodeId)
    {path : Path} {language : Language} {id : NodeId} {ids : List NodeId} {symbol : SymbolFact}
    {parent : Option NodeId} (hids : symbol.parent.bind (ids[·]?) = parent)
    (hnode : graph.node? id = some { Node.ofSymbol path language parent symbol with id })
    (hparent : ∀ source, graph.hasEdge ⟨source, id, .contains⟩ ↔ parent = some source) :
    syncSymbol path language file (graph, ids) (symbol, some id) = .ok (graph, ids ++ [id]) := by
  rw [syncSymbol]
  simp only [hids]
  rw [Graph.update_eq_self hsound hnode rfl, ok_bind, placeSymbol_eq_self hsound hplain hparent]
  rfl

theorem syncImport_eq_self (hsound : graph.Sound) (file : NodeId) {path : Path}
    {language : Language} {id : NodeId} {ids : List NodeId} {fact : ImportFact} {binding : Binding}
    (hnode : graph.node? id =
      some (({ Node.ofImport path language fact with id } : Node).rebind binding)) :
    syncImport path language file (graph, ids) (fact, some id) = .ok (graph, ids ++ [id]) := by
  rw [syncImport, Graph.update_eq_self hsound hnode rfl]
  rfl

/-- A loop over facts that all keep their nodes. -/
theorem foldlM_kept (graph : Graph) {α : Type} {facts : List α} {ids : List NodeId}
    {step : Graph × List NodeId → α × Option NodeId → Except GraphError (Graph × List NodeId)}
    (hlength : ids.length = facts.length)
    (hstep : ∀ (index : Nat) fact id, facts[index]? = some fact → ids[index]? = some id →
      step (graph, ids.take index) (fact, some id) = .ok (graph, ids.take index ++ [id])) :
    (facts.zip (ids.map some)).foldlM step (graph, []) = .ok (graph, ids) := by
  have hcount : (facts.zip (ids.map some)).length = ids.length := by simp [hlength]
  obtain ⟨last, hrun, rfl⟩ := exists_foldlM step (facts.zip (ids.map some)) (graph, [])
    (fun done state => state = (graph, ids.take done.length)) rfl (by
      rintro done ⟨fact, kept⟩ rest state hitems rfl
      have hitem : (facts.zip (ids.map some))[done.length]? = some (fact, kept) := by simp [hitems]
      obtain ⟨hfact, hkept⟩ := List.getElem?_zip_eq_some.1 hitem
      obtain ⟨id, hid, rfl⟩ := Option.map_eq_some_iff.1 (List.getElem?_map.symm.trans hkept)
      refine ⟨_, hstep done.length fact id hfact hid, ?_⟩
      rw [List.length_append, List.length_singleton, List.take_add_one, hid]
      rfl)
  rw [hrun, hcount, List.take_length]

/-- Members of a file that are paired with themselves are brought up to date, and none is free. -/
theorem syncMembers_eq_self (graph : Graph) {α : Type} {facts : List α} {ids : List NodeId}
    {matching : Matching}
    {step : Graph × List NodeId → α × Option NodeId → Except GraphError (Graph × List NodeId)}
    (hlength : ids.length = facts.length) (hmatching : matching.length = facts.length)
    (hself : ∀ index, index < facts.length → matching.partner? index = some index)
    (hstep : ∀ (index : Nat) fact id, facts[index]? = some fact → ids[index]? = some id →
      step (graph, ids.take index) (fact, some id) = .ok (graph, ids.take index ++ [id])) :
    (facts.zip (matching.carried ids)).foldlM step (graph, []) = .ok (graph, ids) ∧
      removeFree graph (matching.free ids) = .ok graph := by
  rw [← hlength] at hself
  rw [Matching.carried_eq_self hself (hmatching.trans hlength.symm), Matching.free_eq_nil hself]
  exact ⟨foldlM_kept graph hlength hstep, rfl⟩

section File

variable {environment : Environment} {stale pending : Path → Prop} {workspace : Workspace}
  (hstands : workspace.Stands environment stale pending) {file : SourceFile}
  (hfile : file ∈ workspace.files)

include hstands hfile

/-- A symbol is contained in its parent and in nothing else. -/
theorem contains_iff_parent {index : Nat} {id : NodeId} {fact : SymbolFact}
    (hid : file.symbols[index]? = some id) (hfact : file.facts.symbols[index]? = some fact)
    (source : NodeId) : workspace.graph.hasEdge ⟨source, id, .contains⟩ ↔
      fact.parent.bind (file.symbols[·]?) = some source := by
  rw [hstands.wired.contains, Option.bind_eq_some_iff]
  constructor
  · rintro ⟨other, hother, hnests⟩
    have hchild := (Workspace.mem_of_nests hnests).2
    obtain rfl := hstands.eq_of_mem hother hfile (SourceFile.mem_nodes_of_symbol hchild)
      (SourceFile.mem_nodes_of_symbol (List.mem_of_getElem? hid))
    obtain ⟨place, outer, found, hfound, houter, hsource, hplace⟩ := hnests
    have hnodup := (List.nodup_append.1 (List.nodup_cons.1 (hstands.parallel _ hfile).nodup).2).1
    obtain rfl := Matching.getElem?_inj_of_nodup hnodup hplace hid
    obtain rfl := Option.some.inj (hfound.symm.trans hfact)
    exact ⟨outer, houter, hsource⟩
  · rintro ⟨outer, houter, hsource⟩
    exact ⟨file, hfile, index, outer, fact, hfact, houter, hsource, hid⟩

variable (hstale : ¬ stale file.path)

include hstale

theorem syncSymbols_eq_self (hplain : workspace.graph.Plain) :
    syncSymbols workspace.graph file.path file.language file.node file.facts.symbols file.symbols
      file.facts.symbols = .ok (workspace.graph, file.symbols) := by
  obtain ⟨hdrawn, -⟩ := hstands.drawn file hfile hstale
  have hparallel := hstands.parallel file hfile
  obtain ⟨hloop, hfree⟩ := syncMembers_eq_self workspace.graph hparallel.symbols
    (SymbolFact.sound_pair file.facts.symbols file.facts.symbols).length
    (fun _ => SymbolFact.partner?_pair_self) fun index fact id hfact hid => by
      have hearlier : fact.parent.bind ((file.symbols.take index)[·]?) =
          fact.parent.bind (file.symbols[·]?) := by
        cases hparent : fact.parent with
        | none => rfl
        | some outer =>
          have hlt := (hparallel.formed.symbols index fact hfact).parent outer hparent
          exact List.getElem?_take_of_lt hlt
      exact syncSymbol_eq_self hstands.graph hplain file.node hearlier
        (hdrawn.symbol index id fact hid hfact) (contains_iff_parent hstands hfile hid hfact)
  rw [syncSymbols, hloop, ok_bind]
  simp only
  rw [hfree]
  rfl

theorem syncImports_eq_self :
    syncImports workspace.graph file.path file.language file.node file.facts.imports file.imports
      file.facts.imports = .ok (workspace.graph, file.imports) := by
  obtain ⟨hdrawn, -⟩ := hstands.drawn file hfile hstale
  obtain ⟨hloop, hfree⟩ := syncMembers_eq_self workspace.graph
    (hstands.parallel file hfile).imports
    (ImportFact.sound_pair file.facts.imports file.facts.imports).length
    (fun _ => ImportFact.partner?_pair_self) fun index fact id hfact hid => by
      obtain ⟨binding, hnode⟩ := hdrawn.imported index id fact hid hfact
      exact syncImport_eq_self hstands.graph file.node hnode
  rw [syncImports, hloop, ok_bind]
  simp only
  rw [hfree]
  rfl

/-- **The nodes of a file that is up to date stay as they are.** -/
theorem syncNodes_eq_self (hplain : workspace.graph.Plain) :
    syncNodes workspace.graph file.path file.parsed file.facts (some file) =
      .ok (workspace.graph, file.node, file.symbols, file.imports) := by
  obtain ⟨hdrawn, -⟩ := hstands.drawn file hfile hstale
  rw [syncNodes, fileNode, ok_bind]
  simp only [Option.map_some, Option.getD_some]
  rw [show file.parsed.language = file.language from rfl,
    syncSymbols_eq_self hstands hfile hstale hplain, ok_bind]
  simp only
  rw [syncImports_eq_self hstands hfile hstale, ok_bind]
  simp only
  rw [Graph.update_eq_self hstands.graph hdrawn.own rfl]
  rfl

end File

/-! ### The text of a file -/

section Reapply

variable {environment : Environment} {pass : Pass} (hsound : pass.workspace.Sound environment)
  {file : SourceFile} (hfile : file ∈ pass.workspace.files)

include hsound hfile

/-- A file that is up to date comes back as it is. -/
theorem install_eq (hplain : pass.workspace.graph.Plain) :
    install environment pass file.path file.parsed [] = .ok { pass with
      workspace := ((withdraw pass.workspace file).indexPlans file.path file.plans).putFile file
      bind := PathSet.insert file.path pass.bind
      link := PathSet.insert file.path pass.link } := by
  obtain ⟨-, hcurrent⟩ := hsound.drawn file hfile not_false
  have hfound := hsound.ordered.file?_self hfile
  have hgraph : (withdraw pass.workspace file).graph = pass.workspace.graph := rfl
  have hplans : plansOf environment.config file.path file.parsed.language file.facts =
    file.plans := hcurrent.plans.symm
  rw [install]
  simp only [withdrawAt, hfound, hgraph, ← hcurrent.facts,
    syncNodes_eq_self hsound hfile not_false hplain, ok_bind, hplans, Option.any_some,
    decide_true, if_true]
  rfl

/-- What bringing a file up to date with its own text comes to: the file is to be bound and linked
again, and apart from that nothing is different. -/
structure Reapplied (before : Pass) (path : Path) (after : Pass) : Prop where
  adjusted : before.workspace.Adjusted after.workspace
  graph : after.workspace.graph = before.workspace.graph
  externals : after.workspace.externals = before.workspace.externals
  changed : after.changed = before.changed
  bind : after.bind = PathSet.insert path before.bind
  link : after.link = PathSet.insert path before.link

/-- **A file is brought up to date with its own text.** -/
theorem exists_reapply (hplain : pass.workspace.graph.Plain) :
    ∃ after, pass.applyText environment file.path file.text [] = .ok after ∧
      Reapplied pass file.path after := by
  obtain ⟨-, hcurrent⟩ := hsound.drawn file hfile not_false
  have hinstall := install_eq hsound hfile hplain
  obtain ⟨put, after, hrun, happlied⟩ := exists_install hsound (hsound.ordered.normal file hfile)
    hcurrent.parsed []
  have hstands : after.workspace.Stands environment (fun _ => False) fun _ => True :=
    (happlied.swapped.stands hsound).mono (fun _ _ h => h.1) fun _ _ _ => trivial
  have hafter := Except.ok.inj (hrun.symm.trans hinstall)
  have hgraph : after.workspace.graph = pass.workspace.graph := by
    rw [hafter]
    rfl
  have hfiles : after.workspace.files = pass.workspace.files := by
    refine hstands.ordered.eq_of_mem_iff hsound.ordered fun other => ?_
    rw [hafter, Workspace.mem_putFile]
    refine (or_congr_right (and_congr_left' Workspace.mem_dropFile)).trans ⟨?_, fun hother => ?_⟩
    · rintro (rfl | ⟨⟨hother, -⟩, -⟩)
      · exact hfile
      · exact hother
    · by_cases hpath : other.path = file.path
      · exact .inl (hsound.ordered.eq_of_path hother hfile hpath)
      · exact .inr ⟨⟨hother, hpath⟩, hpath⟩
  refine ⟨after, ?_, ?_, hgraph, happlied.swapped.externals, ?_, happlied.bind, happlied.link⟩
  · rw [applyText, hcurrent.parsed]
    simp only [Except.mapError, ok_bind, hrun]
  · exact .of_sameView hsound (hgraph ▸ ⟨rfl, rfl, rfl, rfl⟩) hfiles
      (Workspace.indexedAt_eq_of_files hsound.ordered hsound.indexed hstands.indexed hfiles)
      happlied.swapped.externals
  · rw [hafter]

end Reapply

end Pass

/-! ### Binding, linking and collecting -/

namespace Workspace

variable {environment : Environment} {workspace : Workspace} (hsound : workspace.Sound environment)

include hsound

theorem bindImport_eq_self (hplain : workspace.graph.Plain) {file : SourceFile}
    (hfile : file ∈ workspace.files) {id : NodeId} (hid : id ∈ file.imports) {binding : Binding}
    (hbinding : workspace.bindingAt? id = some binding) :
    bindImport file.language workspace id binding = .ok workspace := by
  obtain ⟨node, kept, language, hnode, hkept, hlanguage, hbinds⟩ := hsound.bound file hfile id hid
  obtain rfl := hlanguage not_false
  rw [bindingAt?, hnode, Option.bind_some, hkept] at hbinding
  obtain rfl := Option.some.inj hbinding
  have hgoal : ∃ goal, workspace.bindingNode file.language kept = .ok (goal, workspace) ∧
      ∀ target, workspace.graph.hasEdge ⟨id, target, .imports⟩ ↔ goal = some target := by
    cases kept with
    | resolved target =>
      exact ⟨some target, rfl, fun other => (hbinds.2 other).trans (by simp [eq_comm])⟩
    | unresolved reason => exact ⟨none, rfl, fun other => iff_of_false (hbinds other) (by simp)⟩
    | external name =>
      obtain ⟨module, hmodule, hedges⟩ := hbinds
      refine ⟨some module, ?_, fun other => (hedges other).trans (by simp [eq_comm])⟩
      rw [bindingNode, externalNode, hmodule]
      rfl
  obtain ⟨goal, hrun, hedges⟩ := hgoal
  have hstray : strayEdges workspace.graph id goal = [] := by
    refine List.eq_nil_iff_forall_not_mem.2 fun key hkey => ?_
    obtain ⟨hedge, rfl, hkind, hother⟩ := mem_strayEdges.1 hkey
    exact hother ((hedges key.target).1 (hkind ▸ hedge)).symm
  have hinsert : workspace.graph.insertEdges
      (goal.toList.map fun target => Edge.structural id target .imports) = .ok workspace.graph := by
    refine Graph.insertEdges_eq_self hsound.graph fun edge hedge => ?_
    obtain ⟨target, htarget, rfl⟩ := List.mem_map.1 hedge
    exact hplain.shows ((hedges target).2 (Option.mem_toList.1 htarget)) (by simp)
  have hupdate : workspace.graph.update id (fun node => node.rebind kept) = .ok workspace.graph :=
    Graph.update_eq_self hsound.graph hnode
      ((Graph.changed_rebind node kept).trans (Node.rebind_eq_self hkept))
  rw [bindImport, hrun, ok_bind]
  simp only
  rw [hupdate, ok_bind]
  simp only [hstray, Graph.removeEdges, List.foldl_nil]
  rw [hinsert]
  rfl

/-- A file whose imports stand for what they resolve to is not changed by binding it. -/
theorem bindFile_eq_self (hplain : workspace.graph.Plain) {path : Path}
    (hresolved : ∀ file ∈ workspace.files, file.path = path → workspace.Resolved file) :
    workspace.bindFile path = .ok workspace := by
  rw [bindFile]
  split
  · rfl
  · rename_i file hfound
    obtain ⟨hfile, hpath⟩ := file?_mem hfound
    refine foldlM_eq_self fun entry hentry => ?_
    have hid : entry.1 ∈ file.imports :=
      map_fst_resolutions workspace (hsound.parallel file hfile) ▸ List.mem_map_of_mem hentry
    exact bindImport_eq_self hsound hplain hfile hid (hresolved file hfile hpath entry hentry)

/-- A file whose uses are what they should be is not changed by linking it. -/
theorem linkFile_eq_self {path : Path}
    (hexact : ∀ file ∈ workspace.files, file.path = path → workspace.Exact file) :
    workspace.linkFile path = .ok workspace := by
  rw [linkFile]
  split
  · rfl
  · rename_i file hfound
    obtain ⟨hfile, hpath⟩ := file?_mem hfound
    have hfileExact := hexact file hfile hpath
    have hstale : workspace.staleUses file (workspace.desiredEdges file) = [] := by
      refine List.eq_nil_iff_forall_not_mem.2 fun key hkey => ?_
      obtain ⟨hedge, huse, hother⟩ := mem_staleUses.1 hkey
      exact hother ((hfileExact.linked key huse).1 hedge)
    simp only [hstale, Graph.removeEdges, List.foldl_nil]
    rw [Graph.insertEdges_eq_self hsound.graph hfileExact.shown]
    rfl

/-- When every outside module has an importer, none goes. -/
theorem collectExternals_eq_self (htended : workspace.Tended) :
    workspace.collectExternals = .ok workspace := by
  have hunused : workspace.unusedExternals = [] := by
    refine List.eq_nil_iff_forall_not_mem.2 fun ⟨key, module⟩ hentry => ?_
    obtain ⟨hmodule, hnone⟩ := (mem_unusedExternals hsound).1 hentry
    obtain ⟨source, hsource⟩ := htended key module hmodule
    exact hnone source hsource
  rw [collectExternals, hunused]
  rfl

omit hsound in
/-- A set of paths that a pass over them stays in. The files at these paths stand for what they should,
and those that expose their imports have their importers in the set. -/
structure Quiet (workspace : Workspace) (inside : Path → Prop) : Prop where
  resolved : ∀ file ∈ workspace.files, inside file.path → workspace.Resolved file
  exact : ∀ file ∈ workspace.files, inside file.path → workspace.Exact file
  importers : ∀ file ∈ workspace.files, inside file.path → file.exposesImports →
    ∀ other ∈ workspace.importersOf file.path, inside other

/-- Whether a set is quiet depends on files, bindings and uses only. -/
theorem Quiet.adjusted {after : Workspace} {inside : Path → Prop} (hquiet : workspace.Quiet inside)
    (hadjusted : workspace.Adjusted after)
    (hedge : ∀ key, after.graph.edge? key = workspace.graph.edge? key) : after.Quiet inside where
  resolved file hfile hinside := by
    rw [hadjusted.files] at hfile
    exact hadjusted.resolved hsound hfile (hquiet.resolved file hfile hinside)
  exact file hfile hinside := by
    rw [hadjusted.files] at hfile
    exact hadjusted.exact hsound hfile (fun key _ => hedge key) (hquiet.exact file hfile hinside)
  importers file hfile hinside hexposes other hother := by
    rw [hadjusted.files] at hfile
    have himporters : after.importersOf file.path = workspace.importersOf file.path := by
      simp only [importersOf, hadjusted.indexedAt]
    exact hquiet.importers file hfile hinside hexposes other (himporters ▸ hother)

end Workspace

/-! ### Rounds over what is settled -/

namespace Pass

/-- Languages whose files share a package expose no imports. -/
theorem sharesPackage_of_exposesImports {file : SourceFile} (hexposes : file.exposesImports) :
    file.language.sharesPackage = false := by
  obtain ⟨fact, -, hexposed⟩ := List.any_eq_true.1 hexposes
  cases hlanguage : file.language with
  | python | javascript | typescript | rust => rfl
  | go | java | other =>
    rw [hlanguage] at hexposed
    cases hexposed

/-- A pass that has changed nothing and stays in a set of paths. -/
structure Within (workspace : Workspace) (inside : Path → Prop) (pass : Pass) : Prop where
  workspace_eq : pass.workspace = workspace
  bind : ∀ path ∈ pass.bind, inside path
  link : ∀ path ∈ pass.link, inside path
  changed : ∀ path ∈ pass.changed,
    inside path ∧ ∃ file ∈ workspace.files, file.path = path ∧ file.exposesImports

section Within

variable {environment : Environment} {workspace : Workspace} {inside : Path → Prop} {pass : Pass}
  (hsound : workspace.Sound environment) (hquiet : workspace.Quiet inside)

include hsound hquiet

theorem Within.spread (hwithin : pass.Within workspace inside) {path : Path} (hinside : inside path)
    {file : SourceFile} (hfile : file ∈ workspace.files) (hpath : file.path = path)
    (hexposes : file.exposesImports) : (pass.spread path).Within workspace inside := by
  subst hpath
  have hworkspace := hwithin.workspace_eq
  have himporters : ∀ other ∈ pass.workspace.importersOf file.path, inside other :=
    hworkspace ▸ hquiet.importers file hfile hinside hexposes
  have hsiblings : pass.siblingsOf file.path = [] := by
    have hfound : pass.workspace.file? file.path = some file :=
      hworkspace ▸ hsound.ordered.file?_self hfile
    rw [siblingsOf, hfound]
    simp only [Option.map_some, Option.orElse_some]
    split
    · rename_i language directory hlanguage hdirectory
      obtain rfl := Option.some.inj hlanguage
      simp [sharesPackage_of_exposesImports hexposes]
    · rfl
  refine ⟨hworkspace, fun other hother => ?_, fun other hother => ?_, hwithin.changed⟩
  · exact (PathSet.mem_insertAll.1 hother).elim (himporters other) (hwithin.bind other)
  · rw [Pass.spread, hsiblings, List.append_nil] at hother
    exact (PathSet.mem_insertAll.1 hother).elim (himporters other) (hwithin.link other)

theorem Within.rebind (hplain : workspace.graph.Plain) (hwithin : pass.Within workspace inside)
    {path : Path} (hinside : inside path) :
    ∃ next, pass.rebind path = .ok next ∧ next.Within workspace inside := by
  obtain ⟨rfl, hbind, hlink, hchanged⟩ := hwithin
  rw [Pass.rebind, Workspace.bindFile_eq_self hsound hplain fun file hfile hpath =>
    hquiet.resolved file hfile (hpath ▸ hinside), ok_bind]
  dsimp only
  split
  · rename_i hexposes
    obtain ⟨file, hfound, hfileExposes⟩ := (Option.any_eq_true _ _).1 hexposes
    obtain ⟨hfile, hpath⟩ := Workspace.file?_mem hfound
    refine ⟨_, rfl, rfl, hbind, hlink, fun other hother => ?_⟩
    obtain rfl | hother := PathSet.mem_insert.1 hother
    · exact ⟨hinside, file, hfile, hpath, hfileExposes⟩
    · exact hchanged other hother
  · exact ⟨pass, rfl, rfl, hbind, hlink, hchanged⟩

theorem Within.settle (hplain : workspace.graph.Plain) (rounds : Nat) (propagated : PathSet)
    (hwithin : pass.Within workspace inside) :
    ∃ last, Pass.settle rounds pass propagated = .ok last ∧ last.Within workspace inside := by
  induction rounds generalizing pass propagated with
  | zero => exact ⟨pass, rfl, hwithin⟩
  | succ rounds ih =>
    have hspread : (pass.passOn propagated).Within workspace inside := by
      refine List.foldlRecOn (motive := fun state : Pass => state.Within workspace inside) _ _
        ⟨hwithin.workspace_eq, hwithin.bind, hwithin.link, by simp⟩ fun state hstate path hpath => ?_
      obtain ⟨hinside, file, hfile, hfilePath, hexposes⟩ :=
        hwithin.changed path (List.mem_of_mem_filter hpath)
      exact hstate.spread hsound hquiet hinside hfile hfilePath hexposes
    rw [settle_succ]
    generalize pass.passOn propagated = spreaded at hspread
    split
    · exact ⟨spreaded, rfl, hspread⟩
    · obtain ⟨bound, hrun, hbound⟩ := exists_foldlM Pass.rebind spreaded.bind
        { spreaded with bind := [] } (fun _ state => state.Within workspace inside)
        ⟨hspread.workspace_eq, by simp, hspread.link, hspread.changed⟩
        fun done path rest state hitems hstate =>
          hstate.rebind hsound hquiet hplain (hspread.bind path (by simp [hitems]))
      rw [hrun, ok_bind]
      exact ih _ hbound

/-- **A pass over what is settled changes nothing.** -/
theorem Within.converge (hplain : workspace.graph.Plain) (htended : workspace.Tended)
    (hwithin : pass.Within workspace inside) : ∃ outcome, pass.converge = .ok outcome ∧
      outcome.delta = workspace.graph.journal.getD {} := by
  obtain ⟨settled, hsettle, rfl, -, hlink, -⟩ :=
    hwithin.settle hsound hquiet hplain pass.enoughRounds []
  have hrelink : settled.relink = .ok settled.workspace := by
    rw [relink, foldlM_eq_self fun path hpath => Workspace.linkFile_eq_self hsound
      fun file hfile hfilePath => hquiet.exact file hfile (hfilePath ▸ hlink path hpath), ok_bind]
    exact Workspace.collectExternals_eq_self hsound htended
  let last : Workspace := { settled.workspace with
    graph := settled.workspace.graph.takeJournal.2, sequence := settled.sequence }
  refine ⟨⟨last, settled.workspace.graph.takeJournal.1, settled.disk⟩, ?_, rfl⟩
  rw [Pass.converge, hsettle]
  simp only [Except.mapError, ok_bind, hrelink, hsound.check_eq_ok]
  rfl

end Within

end Pass

end CodeGraph
