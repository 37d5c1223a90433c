import CodeGraph.Proofs.Graph.Evolve
import CodeGraph.Proofs.Workspace.Names

/-!
# How the graph of a workspace evolves

Everything that is done to the graph of a workspace is a number of small steps, and apart from
references only edges of certain evidence are inserted. Binding, linking and collecting leave the files
and the index of importers alone as well.
-/

namespace CodeGraph

namespace Pass

variable {graph after : Graph} {inserted : Edge → Prop}

/-! ### Nodes of a file -/

theorem evolves_placeSymbol {id : NodeId} {parent : Option NodeId}
    (hplace : placeSymbol graph id parent = .ok after) : graph.Evolves Edge.IsPlain after :=
  (graph.evolves_removeEdges _).trans (Graph.evolves_insertEdges Edge.isPlain_of_mem_map hplace)

theorem evolves_syncSymbol {path : Path} {language : Language} {file : NodeId} {ids : List NodeId}
    {entry : SymbolFact × Option NodeId} {state : Graph × List NodeId}
    (hsync : syncSymbol path language file (graph, ids) entry = .ok state) :
    graph.Evolves Edge.IsPlain state.1 := by
  obtain ⟨symbol, kept⟩ := entry
  cases kept with
  | some id =>
    obtain ⟨updated, hupdate, hrest⟩ := exists_of_bind_eq_ok hsync
    obtain ⟨placed, hplace, hstate⟩ := exists_of_bind_eq_ok hrest
    obtain rfl := Except.ok.inj hstate
    exact (Graph.evolves_update hupdate).trans (evolves_placeSymbol hplace)
  | none =>
    obtain ⟨⟨id, inserted⟩, hinsert, hrest⟩ := exists_of_bind_eq_ok hsync
    obtain ⟨defined, hdefine, hrest⟩ := exists_of_bind_eq_ok hrest
    obtain ⟨placed, hplace, hstate⟩ := exists_of_bind_eq_ok hrest
    obtain rfl := Except.ok.inj hstate
    have hdefined := Graph.evolves_insertEdges
      (List.forall_mem_singleton.2 (Edge.isPlain_structural file id .defines)) hdefine
    exact ((Graph.Step.insertNode hinsert).evolves.trans hdefined).trans
      (evolves_placeSymbol hplace)

theorem evolves_syncImport {path : Path} {language : Language} {file : NodeId} {ids : List NodeId}
    {entry : ImportFact × Option NodeId} {state : Graph × List NodeId}
    (hsync : syncImport path language file (graph, ids) entry = .ok state) :
    graph.Evolves Edge.IsPlain state.1 := by
  obtain ⟨fact, kept⟩ := entry
  cases kept with
  | some id =>
    obtain ⟨updated, hupdate, hstate⟩ := exists_of_bind_eq_ok hsync
    obtain rfl := Except.ok.inj hstate
    exact Graph.evolves_update hupdate
  | none =>
    obtain ⟨⟨id, inserted⟩, hinsert, hrest⟩ := exists_of_bind_eq_ok hsync
    obtain ⟨linked, hlink, hstate⟩ := exists_of_bind_eq_ok hrest
    obtain rfl := Except.ok.inj hstate
    have hlinked := Graph.evolves_insertEdges
      (List.forall_mem_singleton.2 (Edge.isPlain_structural file id .imports)) hlink
    exact (Graph.Step.insertNode hinsert).evolves.trans hlinked

theorem evolves_removeFree {ids : List NodeId} (hremove : removeFree graph ids = .ok after) :
    graph.Evolves inserted after :=
  rel_of_foldlM_eq_ok (Graph.Evolves inserted) .refl .trans (fun id _ state next hstep => by
    split at hstep
    · exact Graph.evolves_remove hstep
    · exact Except.ok.inj hstep ▸ .refl state) hremove

theorem evolves_syncSymbols {path : Path} {language : Language} {file : NodeId}
    {oldFacts facts : List SymbolFact} {oldIds ids : List NodeId}
    (hsync : syncSymbols graph path language file oldFacts oldIds facts = .ok (after, ids)) :
    graph.Evolves Edge.IsPlain after := by
  obtain ⟨⟨middle, found⟩, hloop, hrest⟩ := exists_of_bind_eq_ok hsync
  obtain ⟨last, hremove, hstate⟩ := exists_of_bind_eq_ok hrest
  obtain ⟨rfl, rfl⟩ := Prod.mk.inj (Except.ok.inj hstate)
  have hmade := rel_of_foldlM_eq_ok (fun first second : Graph × List NodeId =>
    first.1.Evolves Edge.IsPlain second.1) (fun state => .refl state.1) .trans
    (fun entry _ state next => evolves_syncSymbol) hloop
  exact Graph.Evolves.trans hmade (evolves_removeFree hremove)

theorem evolves_syncImports {path : Path} {language : Language} {file : NodeId}
    {oldFacts facts : List ImportFact} {oldIds ids : List NodeId}
    (hsync : syncImports graph path language file oldFacts oldIds facts = .ok (after, ids)) :
    graph.Evolves Edge.IsPlain after := by
  obtain ⟨⟨middle, found⟩, hloop, hrest⟩ := exists_of_bind_eq_ok hsync
  obtain ⟨last, hremove, hstate⟩ := exists_of_bind_eq_ok hrest
  obtain ⟨rfl, rfl⟩ := Prod.mk.inj (Except.ok.inj hstate)
  have hmade := rel_of_foldlM_eq_ok (fun first second : Graph × List NodeId =>
    first.1.Evolves Edge.IsPlain second.1) (fun state => .refl state.1) .trans
    (fun entry _ state next => evolves_syncImport) hloop
  exact Graph.Evolves.trans hmade (evolves_removeFree hremove)

theorem evolves_syncNodes {path : Path} {parsed : Parsed} {facts : FileFacts}
    {previous : Option SourceFile} {result : NodeId × List NodeId × List NodeId}
    (hsync : syncNodes graph path parsed facts previous = .ok (after, result)) :
    graph.Evolves Edge.IsPlain after := by
  obtain ⟨⟨node, begun⟩, hnode, hrest⟩ := exists_of_bind_eq_ok hsync
  obtain ⟨⟨defined, symbols⟩, hsymbols, hrest⟩ := exists_of_bind_eq_ok hrest
  obtain ⟨⟨imported, imports⟩, himports, hrest⟩ := exists_of_bind_eq_ok hrest
  obtain ⟨last, hupdate, hstate⟩ := exists_of_bind_eq_ok hrest
  obtain ⟨rfl, -⟩ := Prod.mk.inj (Except.ok.inj hstate)
  have hbegun : graph.Evolves Edge.IsPlain begun := by
    cases previous with
    | some file => exact (Prod.mk.inj (Except.ok.inj hnode)).2 ▸ .refl graph
    | none => exact (Graph.Step.insertNode hnode).evolves
  exact ((hbegun.trans (evolves_syncSymbols hsymbols)).trans (evolves_syncImports himports)).trans
    (Graph.evolves_update hupdate)

end Pass

/-! ### Binding, linking and collecting -/

namespace Workspace

/-- A workspace whose graph evolves while its files stay, and so do their importers. -/
structure Evolves (inserted : Edge → Prop) (before after : Workspace) : Prop where
  files : after.files = before.files
  importers : after.importers = before.importers
  graph : before.graph.Evolves inserted after.graph

variable {inserted : Edge → Prop}

theorem Evolves.refl (workspace : Workspace) : workspace.Evolves inserted workspace :=
  ⟨rfl, rfl, .refl _⟩

theorem Evolves.trans {first second third : Workspace} (hfirst : first.Evolves inserted second)
    (hsecond : second.Evolves inserted third) : first.Evolves inserted third :=
  ⟨hsecond.files.trans hfirst.files, hsecond.importers.trans hfirst.importers,
    hfirst.graph.trans hsecond.graph⟩

variable {workspace after : Workspace}

theorem evolves_externalNode {language : Language} {name : String} {id : NodeId}
    (hexternal : workspace.externalNode language name = .ok (id, after)) :
    workspace.Evolves inserted after := by
  rw [externalNode] at hexternal
  split at hexternal
  · exact (Prod.mk.inj (Except.ok.inj hexternal)).2 ▸ .refl workspace
  · obtain ⟨⟨id, graph⟩, hinsert, hafter⟩ := exists_of_bind_eq_ok hexternal
    obtain ⟨-, rfl⟩ := Prod.mk.inj (Except.ok.inj hafter)
    exact ⟨rfl, rfl, (Graph.Step.insertNode hinsert).evolves⟩

theorem evolves_bindImport {language : Language} {id : NodeId} {binding : Binding}
    (hbind : bindImport language workspace id binding = .ok after) :
    workspace.Evolves Edge.IsPlain after := by
  obtain ⟨⟨target, found⟩, hnode, hrest⟩ := exists_of_bind_eq_ok hbind
  obtain ⟨updated, hupdate, hrest⟩ := exists_of_bind_eq_ok hrest
  obtain ⟨linked, hlink, hafter⟩ := exists_of_bind_eq_ok hrest
  obtain rfl := Except.ok.inj hafter
  have hfound : workspace.Evolves Edge.IsPlain found := by
    cases binding with
    | resolved target => exact (Prod.mk.inj (Except.ok.inj hnode)).2 ▸ .refl workspace
    | unresolved reason => exact (Prod.mk.inj (Except.ok.inj hnode)).2 ▸ .refl workspace
    | external name =>
      obtain ⟨⟨id, made⟩, hexternal, hpair⟩ := exists_of_bind_eq_ok hnode
      obtain ⟨-, rfl⟩ := Prod.mk.inj (Except.ok.inj hpair)
      exact evolves_externalNode hexternal
  have hupdated := hfound.graph.trans (Graph.evolves_update hupdate)
  exact ⟨hfound.files, hfound.importers, (hupdated.trans (updated.evolves_removeEdges _)).trans
    (Graph.evolves_insertEdges Edge.isPlain_of_mem_map hlink)⟩

theorem evolves_bindFile {path : Path} (hbind : workspace.bindFile path = .ok after) :
    workspace.Evolves Edge.IsPlain after := by
  rw [bindFile] at hbind
  split at hbind
  · exact Except.ok.inj hbind ▸ .refl workspace
  · exact rel_of_foldlM_eq_ok (Evolves Edge.IsPlain) .refl .trans
      (fun entry _ state next => evolves_bindImport) hbind

theorem evolves_linkFile {path : Path} (hlink : workspace.linkFile path = .ok after) :
    workspace.Evolves Edge.IsPlain after := by
  rw [linkFile] at hlink
  split at hlink
  · exact Except.ok.inj hlink ▸ .refl workspace
  · obtain ⟨linked, hinsert, hafter⟩ := exists_of_bind_eq_ok hlink
    obtain rfl := Except.ok.inj hafter
    have hinserted := Graph.evolves_insertEdges (fun edge hedge =>
      isPlain_of_mem_wantedEdges ((workspace.strongest_desiredEdges _).among edge hedge)) hinsert
    exact ⟨rfl, rfl, (workspace.graph.evolves_removeEdges _).trans hinserted⟩

theorem evolves_collectExternals (hcollect : workspace.collectExternals = .ok after) :
    workspace.Evolves inserted after := by
  refine rel_of_foldlM_eq_ok (Evolves inserted) .refl .trans
    (fun entry _ state next hstep => ?_) hcollect
  obtain ⟨graph, hremove, hnext⟩ := exists_of_bind_eq_ok hstep
  obtain rfl := Except.ok.inj hnext
  exact ⟨rfl, rfl, Graph.evolves_remove hremove⟩

end Workspace

end CodeGraph
