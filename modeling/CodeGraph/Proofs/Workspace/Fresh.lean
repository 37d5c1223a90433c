import CodeGraph.Proofs.Query.EdgeTriples
import CodeGraph.Proofs.Workspace.Build
import CodeGraph.Proofs.Workspace.Shape

/-!
# Settled workspaces with the same texts

The texts of a settled workspace determine its graph up to the ids of its nodes: two of them with the
same texts have the same edges, by what they join.
-/

namespace CodeGraph

namespace Node

/-- Nodes that look the same from outside, whatever ids they have and name. -/
structure Alike (node node' : Node) : Prop where
  kind : node.kind = node'.kind
  name : node.name = node'.name
  qualifiedName : node.qualifiedName = node'.qualifiedName
  path : node.path = node'.path
  range : node.range = node'.range
  language : node.language = node'.language

variable {node node' : Node}

theorem Alike.stableKey_eq (halike : node.Alike node') : node.stableKey = node'.stableKey := by
  rw [stableKey, stableKey, shownName, shownName, halike.kind, halike.name, halike.qualifiedName,
    halike.path, halike.range, halike.language]

variable {file file' : SourceFile} (hpath : file.path = file'.path)
  (hlanguage : file.language = file'.language)

include hpath hlanguage

theorem ShowsSymbol.alike {fact : SymbolFact} (hshows : node.ShowsSymbol file fact)
    (hshows' : node'.ShowsSymbol file' fact) : node.Alike node' where
  kind := hshows.kind.trans hshows'.kind.symm
  name := hshows.name.trans hshows'.name.symm
  qualifiedName := hshows.qualifiedName.trans hshows'.qualifiedName.symm
  path := hshows.path.trans (hpath.trans hshows'.path.symm)
  range := hshows.range.trans hshows'.range.symm
  language := hshows.language.trans (hlanguage.trans hshows'.language.symm)

theorem ShowsImport.alike {fact : ImportFact} (hshows : node.ShowsImport file fact)
    (hshows' : node'.ShowsImport file' fact) : node.Alike node' where
  kind := hshows.kind.trans hshows'.kind.symm
  name := hshows.name.trans hshows'.name.symm
  qualifiedName := hshows.qualifiedName.trans hshows'.qualifiedName.symm
  path := hshows.path.trans (hpath.trans hshows'.path.symm)
  range := hshows.range.trans hshows'.range.symm
  language := hshows.language.trans (hlanguage.trans hshows'.language.symm)

end Node

namespace Workspace

/-- Files at one path that were made from one text. -/
structure Counterpart (left right : Workspace) (file file' : SourceFile) : Prop where
  mem : file ∈ left.files
  mem' : file' ∈ right.files
  path : file.path = file'.path
  parsed : file.parsed = file'.parsed
  facts : file.facts = file'.facts
  plans : file.plans = file'.plans

/-- Nodes at one place of files that are counterparts. -/
def Paired (left right : Workspace) (id id' : NodeId) : Prop :=
  ∃ file file', Counterpart left right file file' ∧
    ∃ index : Nat, file.nodes[index]? = some id ∧ file'.nodes[index]? = some id'

theorem Counterpart.symm {left right : Workspace} {file file' : SourceFile}
    (hcounterpart : Counterpart left right file file') : Counterpart right left file' file :=
  ⟨hcounterpart.mem', hcounterpart.mem, hcounterpart.path.symm, hcounterpart.parsed.symm,
    hcounterpart.facts.symm, hcounterpart.plans.symm⟩

theorem Counterpart.language {left right : Workspace} {file file' : SourceFile}
    (hcounterpart : Counterpart left right file file') : file.language = file'.language :=
  congrArg Parsed.language hcounterpart.parsed

theorem Paired.symm {left right : Workspace} {id id' : NodeId} (hpaired : Paired left right id id') :
    Paired right left id' id := by
  obtain ⟨file, file', hcounterpart, index, hid, hid'⟩ := hpaired
  exact ⟨file', file, hcounterpart.symm, index, hid', hid⟩

section Sound

variable {environment : Environment} {left right : Workspace}
  (hleft : left.Sound environment) (hright : right.Sound environment)

include hleft hright

theorem counterpart_of_text {file file' : SourceFile} (hfile : file ∈ left.files)
    (hfile' : file' ∈ right.files) (hpath : file.path = file'.path)
    (htext : file.text = file'.text) : Counterpart left right file file' := by
  obtain ⟨-, hcurrent⟩ := hleft.drawn file hfile not_false
  obtain ⟨-, hcurrent'⟩ := hright.drawn file' hfile' not_false
  have hparsed : file.parsed = file'.parsed := by
    have hparse := hcurrent.parsed
    rw [hpath, htext, hcurrent'.parsed] at hparse
    exact (Except.ok.inj hparse).symm
  have hfacts : file.facts = file'.facts := by
    rw [hcurrent.facts, hcurrent'.facts, hparsed]
  refine ⟨hfile, hfile', hpath, hparsed, hfacts, ?_⟩
  rw [hcurrent.plans, hcurrent'.plans, hpath, hfacts, SourceFile.language, SourceFile.language,
    hparsed]

variable {file file' : SourceFile} (hcounterpart : Counterpart left right file file')

include hcounterpart

theorem Counterpart.length_symbols : file.symbols.length = file'.symbols.length := by
  rw [(hleft.parallel file hcounterpart.mem).symbols,
    (hright.parallel file' hcounterpart.mem').symbols, hcounterpart.facts]

theorem Counterpart.length_imports : file.imports.length = file'.imports.length := by
  rw [(hleft.parallel file hcounterpart.mem).imports,
    (hright.parallel file' hcounterpart.mem').imports, hcounterpart.facts]

omit hleft hright in
theorem Counterpart.paired_node : Paired left right file.node file'.node :=
  ⟨file, file', hcounterpart, 0, rfl, rfl⟩

omit hleft hright in
theorem Counterpart.paired_symbol {index : Nat} {id id' : NodeId}
    (hid : file.symbols[index]? = some id) (hid' : file'.symbols[index]? = some id') :
    Paired left right id id' := by
  refine ⟨file, file', hcounterpart, index + 1, ?_, ?_⟩
  · rw [SourceFile.nodes, List.getElem?_cons_succ,
      List.getElem?_append_left (List.getElem?_eq_some_iff.1 hid).1, hid]
  · rw [SourceFile.nodes, List.getElem?_cons_succ,
      List.getElem?_append_left (List.getElem?_eq_some_iff.1 hid').1, hid']

theorem Counterpart.paired_import {index : Nat} {id id' : NodeId}
    (hid : file.imports[index]? = some id) (hid' : file'.imports[index]? = some id') :
    Paired left right id id' := by
  have hlength := hcounterpart.length_symbols hleft hright
  refine ⟨file, file', hcounterpart, file.symbols.length + index + 1, ?_, ?_⟩
  · rw [SourceFile.nodes, List.getElem?_cons_succ, List.getElem?_append_right (Nat.le_add_right _ _),
      Nat.add_sub_cancel_left, hid]
  · rw [hlength, SourceFile.nodes, List.getElem?_cons_succ,
      List.getElem?_append_right (Nat.le_add_right _ _), Nat.add_sub_cancel_left, hid']

omit hcounterpart

/-- Nodes that are paired look the same from outside. -/
theorem Paired.exists_alike {id id' : NodeId} (hpaired : Paired left right id id') :
    ∃ node node', left.graph.node? id = some node ∧ right.graph.node? id' = some node' ∧
      node.Alike node' := by
  obtain ⟨file, file', hcounterpart, index, hid, hid'⟩ := hpaired
  have hmem := hcounterpart.mem
  have hmem' := hcounterpart.mem'
  have hlanguage := hcounterpart.language
  cases index with
  | zero =>
    obtain rfl : file.node = id := Option.some.inj hid
    obtain rfl : file'.node = id' := Option.some.inj hid'
    have hown := (hleft.drawn file hmem not_false).1.own
    have hown' := (hright.drawn file' hmem' not_false).1.own
    refine ⟨_, _, hown, hown', ?_⟩
    rw [hcounterpart.path, hcounterpart.parsed]
    exact ⟨rfl, rfl, rfl, rfl, rfl, rfl⟩
  | succ index =>
    rw [SourceFile.nodes, List.getElem?_cons_succ] at hid hid'
    have hlength := hcounterpart.length_symbols hleft hright
    by_cases hsymbol : index < file.symbols.length
    · rw [List.getElem?_append_left hsymbol] at hid
      rw [List.getElem?_append_left (hlength ▸ hsymbol)] at hid'
      obtain ⟨fact, hfact⟩ : ∃ fact, file.facts.symbols[index]? = some fact :=
        ⟨_, List.getElem?_eq_getElem ((hleft.parallel file hmem).symbols ▸ hsymbol)⟩
      obtain ⟨node, hnode, hshows⟩ := hleft.showsSymbol hmem hid hfact
      obtain ⟨node', hnode', hshows'⟩ :=
        hright.showsSymbol hmem' hid' (hcounterpart.facts ▸ hfact)
      exact ⟨node, node', hnode, hnode', hshows.alike hcounterpart.path hlanguage hshows'⟩
    · rw [List.getElem?_append_right (Nat.le_of_not_lt hsymbol)] at hid
      rw [List.getElem?_append_right (hlength ▸ Nat.le_of_not_lt hsymbol), ← hlength] at hid'
      obtain ⟨himport, -⟩ := List.getElem?_eq_some_iff.1 hid
      obtain ⟨fact, hfact⟩ : ∃ fact,
          file.facts.imports[index - file.symbols.length]? = some fact :=
        ⟨_, List.getElem?_eq_getElem ((hleft.parallel file hmem).imports ▸ himport)⟩
      obtain ⟨node, hnode, hshows⟩ := hleft.showsImport hmem hid hfact
      obtain ⟨node', hnode', hshows'⟩ :=
        hright.showsImport hmem' hid' (hcounterpart.facts ▸ hfact)
      exact ⟨node, node', hnode, hnode', hshows.alike hcounterpart.path hlanguage hshows'⟩

omit hright in
/-- A node stands at one place of one file. -/
theorem Sound.place_eq {first second : SourceFile} (hfirst : first ∈ left.files)
    (hsecond : second ∈ left.files) {id : NodeId} {index index' : Nat}
    (hat : first.nodes[index]? = some id) (hat' : second.nodes[index']? = some id) :
    first = second ∧ index = index' := by
  obtain rfl := hleft.eq_of_mem hfirst hsecond (List.mem_of_getElem? hat)
    (List.mem_of_getElem? hat')
  obtain ⟨hlt, -⟩ := List.getElem?_eq_some_iff.1 hat
  exact ⟨rfl, (List.getElem?_inj hlt (hleft.parallel first hfirst).nodup).1
    (hat.trans hat'.symm)⟩

theorem Paired.eq_left {first second other : NodeId} (hfirst : Paired left right first other)
    (hsecond : Paired left right second other) : first = second := by
  obtain ⟨file, file', hcounterpart, index, hid, hid'⟩ := hfirst
  obtain ⟨found, found', hcounterpart', place, hat, hat'⟩ := hsecond
  obtain ⟨rfl, rfl⟩ := hright.place_eq hcounterpart.mem' hcounterpart'.mem' hid' hat'
  obtain rfl := hleft.ordered.eq_of_path hcounterpart.mem hcounterpart'.mem
    (hcounterpart.path.trans hcounterpart'.path.symm)
  exact Option.some.inj (hid.symm.trans hat)

theorem oneToOne_paired : OneToOne (Paired left right) where
  left := fun hfirst hsecond => hfirst.eq_left hleft hright hsecond
  right := fun hfirst hsecond => hfirst.symm.eq_left hright hleft hsecond.symm

end Sound

/-! ### The same files -/

/-- The pairs of path and text that a workspace holds. -/
def sources (workspace : Workspace) : List Source :=
  workspace.files.map fun file => ⟨file.path, file.text⟩

section Texts

variable {environment : Environment} {left right : Workspace}

theorem mem_sources {workspace : Workspace} (hsound : workspace.Sound environment)
    {source : Source} : source ∈ workspace.sources ↔
      workspace.text? source.path = some source.text := by
  rw [sources, List.mem_map, text?, Option.map_eq_some_iff]
  constructor
  · rintro ⟨file, hfile, rfl⟩
    exact ⟨file, hsound.ordered.file?_self hfile, rfl⟩
  · rintro ⟨file, hfile, htext⟩
    obtain ⟨hmem, hpath⟩ := file?_mem hfile
    exact ⟨file, hmem, by rw [hpath, htext]⟩

theorem Sound.sources_sorted {workspace : Workspace} (hsound : workspace.Sound environment) :
    workspace.sources.Pairwise fun first second =>
      first.path.le second.path ∧ first.path ≠ second.path :=
  List.pairwise_map.2 hsound.ordered.sorted

variable (hleft : left.Sound environment) (hright : right.Sound environment)
  (htexts : ∀ path, left.text? path = right.text? path)

include hleft hright htexts

/-- The texts determine the files and their order. -/
theorem sources_eq_of_texts : left.sources = right.sources := by
  have hnodup : ∀ workspace : Workspace, workspace.Sound environment →
      workspace.sources.Nodup := fun workspace hsound =>
    hsound.sources_sorted.imp fun h heq => h.2 (congrArg Source.path heq)
  refine List.Perm.eq_of_pairwise (fun first second hfirst hsecond hle hge => ?_)
    hleft.sources_sorted hright.sources_sorted ?_
  · obtain ⟨file, hfile, rfl⟩ := List.mem_map.1 hfirst
    obtain ⟨file', hfile', rfl⟩ := List.mem_map.1 hsecond
    exact absurd ((hleft.ordered.normal file hfile).eq_of_le
      (hright.ordered.normal file' hfile') hle.1 hge.1) hle.2
  · refine (List.perm_ext_iff_of_nodup (hnodup left hleft) (hnodup right hright)).2
      fun source => ?_
    rw [mem_sources hleft, mem_sources hright, htexts]

theorem forall₂_counterpart : List.Forall₂ (Counterpart left right) left.files right.files := by
  have hsources := sources_eq_of_texts hleft hright htexts
  have hlength : left.files.length = right.files.length := by
    simpa [sources] using congrArg List.length hsources
  refine rel_of_getElem? hlength fun index file file' hfile hfile' => ?_
  have hsame : left.sources[index]? = right.sources[index]? := congrArg (·[index]?) hsources
  rw [sources, sources, List.getElem?_map, List.getElem?_map, hfile, hfile'] at hsame
  obtain ⟨hpath, htext⟩ := Source.mk.inj (Option.some.inj hsame)
  exact counterpart_of_text hleft hright (List.mem_of_getElem? hfile)
    (List.mem_of_getElem? hfile') hpath htext

theorem exists_counterpart {file : SourceFile} (hfile : file ∈ left.files) :
    ∃ file', Counterpart left right file file' := by
  obtain ⟨file', -, hcounterpart⟩ :=
    rel_exists_of_mem (forall₂_counterpart hleft hright htexts) hfile
  exact ⟨file', hcounterpart⟩

omit htexts in
theorem Counterpart.twin {imported : NodeId → NodeId → Prop} {file file' : SourceFile}
    (hcounterpart : Counterpart left right file file')
    (himports : List.Forall₂ imported file.imports file'.imports) :
    file.Twin (Paired left right) imported file' where
  path := hcounterpart.path
  parsed := hcounterpart.parsed
  facts := hcounterpart.facts
  plans := hcounterpart.plans
  node := hcounterpart.paired_node
  symbols := rel_of_getElem? (hcounterpart.length_symbols hleft hright) fun _ _ _ hid hid' =>
    hcounterpart.paired_symbol hid hid'
  imports := himports

end Texts

/-! ### The same bindings -/

section Settled

variable {environment : Environment} {left right : Workspace}
  (hleft : left.Settled environment) (hright : right.Settled environment)
  (htexts : ∀ path, left.text? path = right.text? path)

include hleft hright htexts

theorem sameFiles_of_texts :
    SameFiles (Paired left right) (fun _ _ => True) left right := by
  refine (forall₂_counterpart hleft.sound hright.sound htexts).imp fun file file' hcounterpart => ?_
  exact hcounterpart.twin hleft.sound hright.sound (rel_of_getElem?
    (hcounterpart.length_imports hleft.sound hright.sound) fun _ _ _ _ _ => trivial)

/-- Imports at one place resolve alike, and in settled workspaces they are bound as they resolve. -/
theorem Counterpart.sameBinding {file file' : SourceFile}
    (hcounterpart : Counterpart left right file file') :
    List.Forall₂ (SameBinding (Paired left right) left right) file.imports file'.imports := by
  have hparallel := hleft.sound.parallel file hcounterpart.mem
  refine rel_of_getElem? (hcounterpart.length_imports hleft.sound hright.sound)
    fun index id id' hid hid' => ?_
  obtain ⟨hlt, -⟩ := List.getElem?_eq_some_iff.1 hid
  obtain ⟨fact, hfact⟩ : ∃ fact, file.facts.imports[index]? = some fact :=
    ⟨_, List.getElem?_eq_getElem (hparallel.imports ▸ hlt)⟩
  obtain ⟨plan, hplan⟩ : ∃ plan, file.plans[index]? = some plan :=
    ⟨_, List.getElem?_eq_getElem (hparallel.plans ▸ hparallel.imports ▸ hlt)⟩
  rw [SameBinding,
    (hleft.resolved file hcounterpart.mem).bindingAt?_eq hid hfact hplan,
    (hright.resolved file' hcounterpart.mem').bindingAt?_eq hid' (hcounterpart.facts ▸ hfact)
      (hcounterpart.plans ▸ hplan), hcounterpart.language]
  exact .some ((sameFiles_of_texts hleft hright htexts).resolveImport file'.language fact plan)

theorem Counterpart.fullTwin {file file' : SourceFile}
    (hcounterpart : Counterpart left right file file') :
    file.Twin (Paired left right) (SameBinding (Paired left right) left right) file' :=
  hcounterpart.twin hleft.sound hright.sound (hcounterpart.sameBinding hleft hright htexts)

theorem mirrors_of_texts : Mirrors (Paired left right) left right where
  oneToOne := oneToOne_paired hleft.sound hright.sound
  files := (forall₂_counterpart hleft.sound hright.sound htexts).imp fun _ _ hcounterpart =>
    hcounterpart.fullTwin hleft hright htexts
  shown := by
    intro first second hpaired
    obtain ⟨node, node', hnode, hnode', halike⟩ := hpaired.exists_alike hleft.sound hright.sound
    exact ⟨node, node', hnode, hnode', halike.kind, halike.path⟩

end Settled

/-! ### The same edges -/

/-- Two nodes that look the same from outside. -/
def Seen (left right : Workspace) (id id' : NodeId) : Prop :=
  ∃ node node', left.graph.node? id = some node ∧ right.graph.node? id' = some node' ∧
    node.Alike node'

/-- The other workspace has an edge that joins what looks the same. -/
def Answers (left right : Workspace) (key : EdgeKey) : Prop :=
  ∃ source target, right.graph.hasEdge ⟨source, target, key.kind⟩ ∧
    Seen left right key.source source ∧ Seen left right key.target target

section Edges

variable {environment : Environment} {left right : Workspace}

section Counterpart

variable (hleft : left.Sound environment) (hright : right.Sound environment)
  {file file' : SourceFile} (hcounterpart : Counterpart left right file file')

include hleft hright hcounterpart

theorem Counterpart.exists_symbol {index : Nat} {id : NodeId}
    (hid : file.symbols[index]? = some id) :
    ∃ id', file'.symbols[index]? = some id' ∧ Seen left right id id' := by
  obtain ⟨hlt, -⟩ := List.getElem?_eq_some_iff.1 hid
  have hid' := List.getElem?_eq_getElem (hcounterpart.length_symbols hleft hright ▸ hlt)
  exact ⟨_, hid', (hcounterpart.paired_symbol hid hid').exists_alike hleft hright⟩

theorem Counterpart.exists_import {index : Nat} {id : NodeId}
    (hid : file.imports[index]? = some id) :
    ∃ id', file'.imports[index]? = some id' ∧ Seen left right id id' := by
  obtain ⟨hlt, -⟩ := List.getElem?_eq_some_iff.1 hid
  have hid' := List.getElem?_eq_getElem (hcounterpart.length_imports hleft hright ▸ hlt)
  exact ⟨_, hid', (hcounterpart.paired_import hleft hright hid hid').exists_alike hleft hright⟩

theorem Counterpart.seen_node : Seen left right file.node file'.node :=
  hcounterpart.paired_node.exists_alike hleft hright

end Counterpart

variable (hleft : left.Settled environment) (hright : right.Settled environment)
  (htexts : ∀ path, left.text? path = right.text? path)

include hleft hright htexts

theorem answers_defines {source target : NodeId}
    (hedge : left.graph.hasEdge ⟨source, target, .defines⟩) :
    Answers left right ⟨source, target, .defines⟩ := by
  obtain ⟨file, hfile, rfl, htarget⟩ := (hleft.sound.wired.defines _ _).1 hedge
  obtain ⟨file', hcounterpart⟩ := exists_counterpart hleft.sound hright.sound htexts hfile
  obtain ⟨index, hindex⟩ := List.mem_iff_getElem?.1 htarget
  obtain ⟨target', htarget', hseen⟩ := hcounterpart.exists_symbol hleft.sound hright.sound hindex
  exact ⟨file'.node, target', (hright.sound.wired.defines _ _).2
    ⟨file', hcounterpart.mem', rfl, List.mem_of_getElem? htarget'⟩,
    hcounterpart.seen_node hleft.sound hright.sound, hseen⟩

theorem answers_contains {source target : NodeId}
    (hedge : left.graph.hasEdge ⟨source, target, .contains⟩) :
    Answers left right ⟨source, target, .contains⟩ := by
  obtain ⟨file, hfile, index, outer, fact, hfact, hparent, hin, hat⟩ :=
    (hleft.sound.wired.contains _ _).1 hedge
  obtain ⟨file', hcounterpart⟩ := exists_counterpart hleft.sound hright.sound htexts hfile
  obtain ⟨source', hin', hsource⟩ := hcounterpart.exists_symbol hleft.sound hright.sound hin
  obtain ⟨target', hat', htarget⟩ := hcounterpart.exists_symbol hleft.sound hright.sound hat
  exact ⟨source', target', (hright.sound.wired.contains _ _).2 ⟨file', hcounterpart.mem', index,
    outer, fact, hcounterpart.facts ▸ hfact, hparent, hin', hat'⟩, hsource, htarget⟩

omit htexts in
/-- An outside module is known by its language and its name. -/
theorem seen_external {key : Language × String} {module module' : NodeId}
    (hmodule : left.externals.get? key = some module)
    (hmodule' : right.externals.get? key = some module') : Seen left right module module' :=
  ⟨_, _, (hleft.sound.registered.shown key.1 key.2 module).1 hmodule,
    (hright.sound.registered.shown key.1 key.2 module').1 hmodule', rfl, rfl, rfl, rfl, rfl, rfl⟩

theorem answers_imports {source target : NodeId}
    (hedge : left.graph.hasEdge ⟨source, target, .imports⟩) :
    Answers left right ⟨source, target, .imports⟩ := by
  rcases hleft.sound.wired.imports _ _ hedge with ⟨file, hfile, rfl, htarget⟩ | ⟨file, hfile, hid⟩
  · obtain ⟨file', hcounterpart⟩ := exists_counterpart hleft.sound hright.sound htexts hfile
    obtain ⟨index, hindex⟩ := List.mem_iff_getElem?.1 htarget
    obtain ⟨target', htarget', hseen⟩ :=
      hcounterpart.exists_import hleft.sound hright.sound hindex
    exact ⟨file'.node, target', hright.sound.wired.lists file' hcounterpart.mem' target'
      (List.mem_of_getElem? htarget'), hcounterpart.seen_node hleft.sound hright.sound, hseen⟩
  · obtain ⟨file', hcounterpart⟩ := exists_counterpart hleft.sound hright.sound htexts hfile
    obtain ⟨index, hindex⟩ := List.mem_iff_getElem?.1 hid
    obtain ⟨source', hsource', hseen⟩ :=
      hcounterpart.exists_import hleft.sound hright.sound hindex
    obtain ⟨node, hnode, -⟩ := hleft.sound.exists_node hfile (SourceFile.mem_nodes_of_import hid)
    obtain ⟨node', hnode', -⟩ := hright.sound.exists_node hcounterpart.mem'
      (SourceFile.mem_nodes_of_import (List.mem_of_getElem? hsource'))
    obtain ⟨binding, hbinding, hbinds⟩ := hleft.sound.binds_cases hfile hid hnode
    obtain ⟨binding', hbinding', hbinds'⟩ := hright.sound.binds_cases hcounterpart.mem'
      (List.mem_of_getElem? hsource') hnode'
    have hsame := rel_getElem? (hcounterpart.sameBinding hleft hright htexts) index
    rw [hindex, hsource'] at hsame
    have htwin : binding.Twin (Paired left right) binding' := by
      cases hsame with
      | some hsame =>
        rw [SameBinding, bindingAt?, bindingAt?, hnode, hnode', Option.bind_some, Option.bind_some,
          hbinding, hbinding'] at hsame
        cases hsame with
        | some htwin => exact htwin
    cases htwin with
    | @resolved _ aim hpaired =>
      obtain rfl := (hbinds.2 target).1 hedge
      exact ⟨source', aim, (hbinds'.2 aim).2 rfl, hseen,
        hpaired.exists_alike hleft.sound hright.sound⟩
    | unresolved reason => exact absurd hedge (hbinds target)
    | external name =>
      obtain ⟨module, hmodule, hedges⟩ := hbinds
      obtain ⟨module', hmodule', hedges'⟩ := hbinds'
      obtain rfl := (hedges target).1 hedge
      exact ⟨source', module', (hedges' module').2 rfl, hseen,
        seen_external hleft hright (hcounterpart.language ▸ hmodule) hmodule'⟩

theorem answers_uses {key : EdgeKey} (hedge : left.graph.hasEdge key)
    (hkind : key.kind = .references ∨ key.kind = .inherits) : Answers left right key := by
  obtain ⟨⟨file, hfile, hsource⟩, -⟩ := hleft.sound.wired.uses key hedge hkind
  obtain ⟨file', hcounterpart⟩ := exists_counterpart hleft.sound hright.sound htexts hfile
  have hwanted := mem_keys_desiredEdges.1 ((hleft.linked file hfile key ⟨hsource, hkind⟩).1 hedge)
  obtain ⟨edge, hmem, rfl⟩ := List.mem_map.1 hwanted
  obtain ⟨edge', hmem', htwin⟩ := rel_exists_of_mem
    ((mirrors_of_texts hleft hright htexts).wantedEdges
      (hcounterpart.fullTwin hleft hright htexts)) hmem
  have hdesired : edge'.key ∈ (right.desiredEdges file').map Edge.key :=
    mem_keys_desiredEdges.2 (List.mem_map_of_mem hmem')
  have huse := hright.sound.isUseOf_desiredEdges hdesired
  refine ⟨edge'.source, edge'.target, ?_, htwin.source.exists_alike hleft.sound hright.sound,
    htwin.target.exists_alike hleft.sound hright.sound⟩
  have hkept := (hright.linked file' hcounterpart.mem' edge'.key ⟨huse.source, huse.kind⟩).2 hdesired
  have hkindEq : edge.key.kind = edge'.kind := htwin.kind
  rw [hkindEq]
  exact hkept

theorem hasTriple_of_settled {triple : EdgeTriple} (htriple : left.HasTriple triple) :
    right.HasTriple triple := by
  obtain ⟨key, node, found, hedge, hnode, hfound, rfl⟩ := htriple
  have hanswers : Answers left right key := by
    obtain ⟨source, target, kind⟩ := key
    cases kind with
    | defines => exact answers_defines hleft hright htexts hedge
    | contains => exact answers_contains hleft hright htexts hedge
    | imports => exact answers_imports hleft hright htexts hedge
    | references => exact answers_uses hleft hright htexts hedge (.inl rfl)
    | inherits => exact answers_uses hleft hright htexts hedge (.inr rfl)
  obtain ⟨source, target, hright, ⟨left', node', hleft', hnode', hsource⟩,
    ⟨left'', found', hleft'', hfound', htarget⟩⟩ := hanswers
  rw [hnode] at hleft'
  rw [hfound] at hleft''
  obtain rfl := Option.some.inj hleft'
  obtain rfl := Option.some.inj hleft''
  exact ⟨⟨source, target, key.kind⟩, node', found', hright, hnode', hfound', by
    rw [hsource.stableKey_eq, htarget.stableKey_eq]⟩

/-- **The texts determine the edges of a settled workspace**, by what they join. -/
theorem edgeTriples_eq_of_texts : left.edgeTriples = right.edgeTriples :=
  edgeTriples_eq fun _ => ⟨hasTriple_of_settled hleft hright htexts,
    hasTriple_of_settled hright hleft fun path => (htexts path).symm⟩

end Edges

end Workspace

end CodeGraph
