import CodeGraph.Proofs.Transaction.Identity
import CodeGraph.Proofs.Transaction.Propagation
import CodeGraph.Proofs.Transaction.Spare
import CodeGraph.Proofs.Workspace.Track

/-!
# Renames that importers follow

A file that is renamed keeps its node and those of its symbols. The imports of other files that
stood for one of them stand for it afterwards if they keep track of the file: where the rounds of
binding reach the importer, because what is resolved anew comes to the same node, and where they do
not, because nothing took the binding away.
-/

namespace CodeGraph

namespace Workspace

section Rename

variable {environment : Environment} {before after : Workspace} {source target : Path}
  {moved : SourceFile}

/-- The paths of the files after a file has moved. -/
theorem length_files_of_contains (hbefore : Ordered before.files) (hafter : Ordered after.files)
    (hfound : before.file? source = some moved) (hfree : before.file? target = none)
    (hcontains : ∀ path, after.contains path = before.containsMoved source target path) :
    after.files.length = before.files.length := by
  have hmem : ∀ {workspace : Workspace} {path : Path}, Ordered workspace.files →
      (path ∈ workspace.files.map SourceFile.path ↔ workspace.contains path = true) := by
    intro workspace path hordered
    simp only [List.mem_map, contains_iff, hordered.file?_iff]
  have hperm : (after.files.map SourceFile.path).Perm
      ((before.files.map SourceFile.path).map (Path.moved source target)) := by
    refine (List.perm_ext_iff_of_nodup hafter.nodup ?_).2 fun path => ?_
    · refine hbefore.nodup.map_on fun first hfirst second hsecond heq => ?_
      have hapart : ∀ path ∈ before.files.map SourceFile.path, path ≠ target := by
        rintro path hpath rfl
        rw [hmem hbefore, contains, hfree] at hpath
        cases hpath
      exact Path.moved_inj (hapart first hfirst) (hapart second hsecond) heq
    · rw [hmem hafter, hcontains, containsMoved, List.mem_map]
      simp only [hmem hbefore, Path.moved, Bool.or_eq_true, Bool.and_eq_true, decide_eq_true_eq]
      constructor
      · rintro (rfl | ⟨hne, hpath⟩)
        · exact ⟨source, by rw [contains, hfound]; rfl, if_pos rfl⟩
        · exact ⟨path, hpath, if_neg hne⟩
      · rintro ⟨old, hold, rfl⟩
        split
        · exact .inl rfl
        · rename_i hne
          exact .inr ⟨hne, hold⟩
  have hlength := hperm.length_eq
  rwa [List.length_map, List.length_map, List.length_map] at hlength

section Texts

variable (hsound : before.Sound environment) (hsound' : after.Sound environment)
  (hfound : before.file? source = some moved) (hfree : before.file? target = none)
  (htexts : ∀ path, after.text? path =
    before.textAfterRename environment.config source target moved path)

include htexts

/-- There are texts where there were, but for that of the file that has moved. -/
theorem contains_of_texts (path : Path) :
    after.contains path = before.containsMoved source target path := by
  have htext := congrArg Option.isSome (htexts path)
  rw [text?, Option.isSome_map] at htext
  rw [contains, htext, textAfterRename, containsMoved]
  by_cases htarget : path = target
  · simp [htarget]
  · by_cases hsource : path = source
    · subst hsource
      simp [htarget]
    · simp [htarget, hsource, contains]

include hfound hfree

theorem text?_of_texts (hordered : Ordered before.files) {file : SourceFile}
    (hfile : file ∈ before.files) :
    after.text? (Path.moved source target file.path) =
      some (before.movedText environment source target file) := by
  have hfile? := hordered.file?_self hfile
  have hapart : file.path ≠ target := file?_eq_none_iff.1 hfree file hfile
  rw [htexts, textAfterRename, movedText, Path.moved]
  split
  · rename_i hpath
    rw [if_pos rfl]
    obtain rfl := Option.some.inj (hfound.symm.trans (hpath ▸ hfile?))
    rfl
  · rename_i hpath
    rw [hfile?]
    rfl

include hsound hsound'

/-- Every file is still there, with the text it is given. -/
theorem exists_of_texts (hlanguage : Language.ofPath target = moved.language) {file : SourceFile}
    (hfile : file ∈ before.files) :
    ∃ now, after.file? (Path.moved source target file.path) = some now ∧
      now.language = file.language ∧
      now.text = before.movedText environment source target file := by
  have hfile? := hsound.ordered.file?_self hfile
  obtain ⟨now, hnow, htext⟩ := Option.map_eq_some_iff.1
    (text?_of_texts hfound hfree htexts hsound.ordered hfile)
  obtain ⟨hmem, hpath⟩ := file?_mem hnow
  refine ⟨now, hnow, ?_, htext⟩
  rw [(hsound'.drawn now hmem not_false).2.language_eq, hpath, Path.moved]
  split
  · rename_i hsource
    obtain rfl := Option.some.inj (hfound.symm.trans (hsource ▸ hfile?))
    exact hlanguage
  · exact (hsound.drawn file hfile not_false).2.language_eq.symm

/-- The file that has moved reads as it did. -/
theorem facts_of_texts (hreads : moved.factsAt? environment target = some moved.facts)
    {now : SourceFile} (hnow : after.file? target = some now) : now.facts = moved.facts := by
  obtain ⟨hmem, rfl⟩ := file?_mem hfound
  obtain ⟨hnowMem, hpath⟩ := file?_mem hnow
  have htext := text?_of_texts hfound hfree htexts hsound.ordered hmem
  rw [show Path.moved moved.path target moved.path = target from if_pos rfl, text?, hnow,
    Option.map_some, movedText, if_pos rfl] at htext
  obtain ⟨-, hcurrent⟩ := hsound'.drawn now hnowMem not_false
  have hparsed := hcurrent.parsed
  rw [hpath, Option.some.inj htext] at hparsed
  rw [SourceFile.factsAt?, hparsed] at hreads
  rw [hcurrent.facts]
  exact Option.some.inj hreads

/-- What a rename makes of a workspace, seen from the texts afterwards and what files retain. -/
theorem moves_of_texts (hnormal : target.IsNormal)
    (hlanguage : Language.ofPath target = moved.language)
    (hreads : moved.factsAt? environment target = some moved.facts)
    (hretains : ∀ path old new, before.file? path = some old →
      after.file? (Path.moved source target path) = some new → old.Retains new) :
    Moves environment source target moved before after := by
  have hcontains := contains_of_texts htexts
  refine ⟨hsound, hsound', hfound, hfree, hnormal,
    length_files_of_contains hsound.ordered hsound'.ordered hfound hfree hcontains, hcontains,
    fun file hfile => ?_, fun now hnow => ?_⟩
  · obtain ⟨now, hnow, hsame, htext⟩ :=
      exists_of_texts hsound hsound' hfound hfree htexts hlanguage hfile
    exact ⟨now, hnow, (hretains _ file now (hsound.ordered.file?_self hfile) hnow).node, hsame,
      htext⟩
  · have hsame := facts_of_texts hsound hsound' hfound hfree htexts hreads hnow
    have hkept : moved.Retains now := by
      refine hretains source moved now hfound ?_
      rwa [show Path.moved source target source = target from if_pos rfl]
    exact ⟨hsame, hkept.symbols_eq (hsound.parallel moved (file?_mem hfound).1).symbols
      (hsound'.parallel now (file?_mem hnow).1).symbols (by rw [hsame])⟩

end Texts

end Rename

theorem exists_of_resolutions {workspace : Workspace} {file : SourceFile} {index : Nat}
    {entry : NodeId × Binding} (hentry : (workspace.resolutions file)[index]? = some entry) :
    file.imports[index]? = some entry.1 ∧ ∃ fact plan, file.planned? index = some (fact, plan) ∧
      workspace.resolveImport file.language fact plan = entry.2 := by
  rw [resolutions, List.getElem?_map, Option.map_eq_some_iff] at hentry
  obtain ⟨⟨id, fact, plan⟩, hzip, rfl⟩ := hentry
  obtain ⟨hid, hrest⟩ := List.getElem?_zip_eq_some.1 hzip
  obtain ⟨hfact, hplan⟩ := List.getElem?_zip_eq_some.1 hrest
  refine ⟨hid, fact, plan, ?_, rfl⟩
  rw [SourceFile.planned?, hfact, hplan]
  rfl

end Workspace

namespace Change

section Rename

variable {environment : Environment} {workspace : Workspace} {source target : Path}
  {outcome : Pass.Outcome} {moved : SourceFile}
  (hsound : workspace.Sound environment)
  (hadmitted : (rename source target).Admitted workspace)
  (hrun : (rename source target).run environment workspace = .ok outcome)

include hsound hadmitted hrun

/-- A rename ends with a pass that spares what it does not spell anew, and converges. -/
theorem exists_renamedPass (hmoved : workspace.file? source = some moved) :
    ∃ pass, Pass.Rewrites environment (Pass.ofWorkspace workspace) pass
        (workspace.textAfterRename environment.config source target moved) ∧
      (Pass.ofWorkspace workspace).workspace.Spares pass.Touched pass.workspace ∧
      Pass.Converged environment pass outcome := by
  obtain ⟨found, hrename, -, hconverged⟩ := exists_pass hsound hadmitted hrun
  have hspares := spares_steps hsound hadmitted hrename
  obtain ⟨-, hnormal, hsupported, hfree⟩ := hadmitted
  have hstart := Pass.sound_ofWorkspace hsound
  have hmoved' : (Pass.ofWorkspace workspace).workspace.file? source = some moved := hmoved
  obtain ⟨pass, hrenamed, hrewrites⟩ := Pass.exists_rename hstart hmoved' hnormal hfree hsupported
  obtain rfl := Except.ok.inj (hrenamed.symm.trans hrename)
  exact ⟨pass, hrewrites, hspares, hconverged⟩

/-- A rename to a path where the file reads the same moves it with its symbols. -/
theorem moves_run (hmoved : workspace.file? source = some moved)
    (hlanguage : Language.ofPath target = moved.language)
    (hreads : moved.factsAt? environment target = some moved.facts) :
    workspace.Moves environment source target moved outcome.workspace := by
  obtain ⟨pass, hrewrites, -, hconverged⟩ := exists_renamedPass hsound hadmitted hrun hmoved
  refine Workspace.moves_of_texts hsound hconverged.sound hmoved hadmitted.2.2.2 (fun path => ?_)
    hadmitted.2.1 hlanguage hreads fun path old new hold hnew =>
      retains_run hsound hadmitted hrun hold hnew
  rw [← hrewrites.texts path, Workspace.text?, Workspace.file?, hconverged.files, Workspace.text?,
    Workspace.file?]

/-- An import that keeps track of the file stands for what it stood for. If its file was reached it
is what the import resolves to; otherwise it was spared. -/
theorem bindingAt?_of_keepsTrack (hmoves : workspace.Moves environment source target moved
      outcome.workspace) {file : SourceFile} (hfile : file ∈ workspace.files)
    (hpath : file.path ≠ source) (hgo : file.language ≠ .go) (hjava : file.language ≠ .java)
    {index : Nat} {id symbol : NodeId}
    (hentry : (workspace.resolutions file)[index]? = some (id, .resolved symbol))
    (hbound : workspace.bindingAt? id = some (.resolved symbol))
    (hinside : Workspace.Inside moved symbol)
    (hkeeps : workspace.KeepsTrack environment source target file index) :
    ∃ after now, outcome.workspace.file? file.path = some after ∧
      after.imports[index]? = some now ∧
      outcome.workspace.bindingAt? now = some (.resolved symbol) := by
  obtain ⟨hid, fact, plan, hplanned, hresolve⟩ := Workspace.exists_of_resolutions hentry
  obtain ⟨pass, hrewrites, hspares, hconverged⟩ :=
    exists_renamedPass hsound hadmitted hrun hmoves.found
  obtain ⟨passed, reached, hclosed, -⟩ := hconverged.closed
  obtain ⟨after, hafter, -⟩ := hmoves.becomes file hfile
  have hstays : Path.moved source target file.path = file.path := if_neg hpath
  have hafterPath := hafter
  rw [hstays] at hafterPath
  obtain ⟨hmem, hsame⟩ := Workspace.file?_mem hafterPath
  by_cases hreached : reached file.path
  · obtain ⟨later, next, hplannedAfter, hresolveAfter⟩ := hmoves.resolveImport hfile hpath
      hafter hgo hjava hplanned hkeeps hinside hresolve
    obtain ⟨hfactAfter, hplanAfter⟩ : after.facts.imports[index]? = some later ∧
        after.plans[index]? = some next := by
      obtain ⟨_, hfact, hrest⟩ := Option.bind_eq_some_iff.1 hplannedAfter
      obtain ⟨_, hplan, hpair⟩ := Option.bind_eq_some_iff.1 hrest
      obtain ⟨rfl, rfl⟩ := Prod.mk.inj (Option.some.inj hpair)
      exact ⟨hfact, hplan⟩
    have hlt : index < after.imports.length := by
      rw [(hmoves.sound'.parallel after hmem).imports]
      exact (List.getElem?_eq_some_iff.1 hfactAfter).1
    refine ⟨after, after.imports[index], hafterPath, List.getElem?_eq_getElem hlt, ?_⟩
    have hresolved := hclosed.resolved after (hconverged.files ▸ hmem) (hsame ▸ hreached)
    rw [hresolved.bindingAt?_eq (List.getElem?_eq_getElem hlt) hfactAfter hplanAfter, hresolveAfter]
  · have hthere : pass.workspace.file? file.path = some after := by
      rw [Workspace.file?, ← hconverged.files]
      exact hafterPath
    have hnot := Pass.not_touched hthere fun hnoted => hreached (hclosed.bind _ hnoted.1)
    have hkept := (hspares.mem_files file hnot).2 hfile
    obtain rfl : file = after :=
      hmoves.sound'.ordered.eq_of_path (hconverged.files ▸ hkept) hmem hsame.symm
    refine ⟨file, id, hafterPath, hid, ?_⟩
    rw [hclosed.kept file hkept hreached id (List.mem_of_getElem? hid)]
    obtain ⟨node, hnode, -⟩ :=
      hsound.exists_node (Workspace.file?_mem hmoves.found).1 hinside.mem_nodes
    refine hspares.bindings file hfile hnot id (List.mem_of_getElem? hid) _ hbound ?_
    rintro _ ⟨⟩
    -- the file that moved is still among the files of the pass, with this node
    obtain ⟨now, hnow, hnowInside⟩ := hmoves.exists_inside hinside
    obtain ⟨found, hfound, -⟩ :=
      hrewrites.stands.exists_node (hconverged.files ▸ hnow) hnowInside.mem_nodes
    exact ⟨hsound.graph.lt_nextId hnode, Graph.contains_of_node? hfound⟩

end Rename

end Change

namespace Store

variable {environment : Environment} {store next : Store}

namespace Importing

/-- The import of a function from a module that is not relative by default, and the function. -/
def readScript (text : String) : Tree :=
  if text = "export function fmt() \x7b\x7d\n" then
    node "program" ⟨0, 25⟩ none [node "export_statement" ⟨0, 24⟩ none
      [node "function_declaration" ⟨7, 24⟩ (some "declaration")
        [node "identifier" ⟨16, 19⟩ (some "name") [],
          node "formal_parameters" ⟨19, 21⟩ (some "parameters") [],
          node "statement_block" ⟨22, 24⟩ (some "body") []]]]
  else
    node "program" ⟨0, 28⟩ none [node "import_statement" ⟨0, 27⟩ none
      [node "import_clause" ⟨7, 14⟩ none [node "named_imports" ⟨7, 14⟩ none
        [node "import_specifier" ⟨9, 12⟩ none [node "identifier" ⟨9, 12⟩ (some "name") []]]],
        node "string" ⟨20, 26⟩ (some "source") []]]

/-- The import of one name as another, from a module whose name has the given length. -/
def importAs (length : Nat) : Tree :=
  node "module" ⟨0, length + 20⟩ none [node "import_from_statement" ⟨0, length + 19⟩ none
    [node "dotted_name" ⟨5, length + 5⟩ (some "module_name") [],
      node "aliased_import" ⟨length + 13, length + 19⟩ (some "name")
        [node "dotted_name" ⟨length + 13, length + 14⟩ (some "name") [],
          node "identifier" ⟨length + 18, length + 19⟩ (some "alias") []]]]

/-- A package that takes a variable in under another name. -/
def readPackage (text : String) : Tree :=
  if text = "g = 1\n" then readPython "f = 1\n"
  else if text = "from p.__init__ import g as f\n" then importAs 10
  else if text = "from q import g as f\n" then importAs 1
  else readPython text

def package : Environment := ⟨{}, fun _ => readPackage⟩

def script : Environment := ⟨{}, fun _ => readScript⟩

theorem everywhere_node {holds : Tree → Prop} {kind : String} {range : ByteRange}
    {field : Option String} {children : List Tree} :
    (node kind range field children).Everywhere holds ↔
      holds (node kind range field children) ∧ ∀ child ∈ children, child.Everywhere holds :=
  Tree.everywhere_iff

theorem parsed_eq {path : Path} {language : Language} {text : String} {parsed : Parsed}
    (hparsed : Parsed.parse python.parser path language text = .ok parsed) :
    parsed = ⟨language, text, readPython text⟩ := by
  obtain ⟨_, -, hparsed⟩ := Parsed.exists_grammar_of_parse hparsed
  exact hparsed

theorem tidy_readPython (text : String) : (readPython text).Everywhere fun tree =>
    tree.Nested ∧ Python.attributeShape.Dotted tree := by
  rw [readPython]
  split
  · simp only [everywhere_node, List.forall_mem_cons, List.not_mem_nil, false_imp_iff,
      implies_true, and_true]
    decide
  · simp only [everywhere_node, List.forall_mem_cons, List.not_mem_nil, false_imp_iff,
      implies_true, and_true]
    decide

end Importing

open Importing

/-- The one text to put into an importer is the new name of the module, and where that stands the
parser finds it. -/
theorem Importing.exists_reread :
    let store := imported python ⟨⟨"a.py"⟩, "f = 1\n"⟩ ⟨⟨"b.py"⟩, "from a import f\n"⟩
    ∃ file, store.workspace.file? ⟨"b.py"⟩ = some file ∧
      store.workspace.Reread python ⟨"a.py"⟩ ⟨"c.py"⟩ file
        (store.workspace.ReturnsAt python ⟨"a.py"⟩ ⟨"c.py"⟩ file 0) := by
  intro store
  obtain ⟨file, hfile, hlanguage, htext, hentries, ⟨entry, hentry, hleads, hchanged⟩, hwritten,
      fact, hfact, later, hlater, hreturns⟩ :
      ∃ file ∈ store.workspace.file? ⟨"b.py"⟩,
        file.language = .python ∧ file.text = "from a import f\n" ∧
        (∀ entry ∈ file.entries, entry.2.1.specifierRange = ⟨5, 6⟩ ∧ entry.2.1.specifier = "a" ∧
          Workspace.coreOf? python.config ⟨"c.py"⟩ file entry.2.1 = some "c" ∧
          Respell.withName file.language entry.2.1 "c" = "c") ∧
        (∃ entry ∈ file.entries, store.workspace.leads ⟨"a.py"⟩ entry ∧
          "c" ≠ entry.2.1.specifierRange.read file.text) ∧
        (∀ fact ∈ file.parsed.facts.imports,
          (fact.specifierRange.read file.parsed.text).toList.head?.any
            (Respell.begins file.parsed.language)) ∧
        ∃ fact ∈ file.facts.imports[0]?,
          ∃ later ∈ (Parsed.facts ⟨.python, "from c import f\n",
            readPython "from c import f\n"⟩).imports[0]?,
            later.specifierRange = Replacement.carried [⟨⟨5, 6⟩, "c"⟩] fact.specifierRange
              (store.workspace.writtenAfter python.config ⟨"a.py"⟩ ⟨"c.py"⟩ file fact) ∧
            later.member = fact.member ∧ later.wildcard = fact.wildcard ∧
            later.isExposed file.language = fact.isExposed file.language := by decide +kernel
  have hsound := (reachable_imported .. : store.Reachable python).kept.sound
  obtain ⟨hmem, hpath⟩ := Workspace.file?_mem hfile
  have hparsed := parsed_eq (hsound.drawn file hmem not_false).2.parsed
  have hrenews : ∀ {fact text}, Workspace.Renews store.workspace python.config ⟨"a.py"⟩ ⟨"c.py"⟩ file
      fact text → fact.specifierRange = ⟨5, 6⟩ ∧ fact.specifier = "a" ∧ text = "c" := by
    rintro fact text ⟨⟨entry, hentry, -, rfl⟩, ⟨core, hcore, rfl⟩, -⟩
    obtain ⟨hrange, hspecifier, hnew, hwith⟩ := hentries entry hentry
    obtain rfl := Option.some.inj (hnew.symm.trans hcore)
    exact ⟨hrange, hspecifier, hwith⟩
  have honly : ∀ replacement, Workspace.Respelled store.workspace python.config ⟨"a.py"⟩ ⟨"c.py"⟩
      file replacement ↔ replacement = ⟨⟨5, 6⟩, "c"⟩ := by
    refine fun replacement => ⟨fun hrespelled => ?_, ?_⟩
    · cases hrespelled with
      | specifier h =>
        obtain ⟨hrange, -, rfl⟩ := hrenews h
        rw [hrange]
      | use h _ _ huse =>
        have hdotted := huse.dotted
        rw [(hrenews h).2.1] at hdotted
        exact absurd hdotted (by decide)
    · rintro rfl
      obtain ⟨hrange, -, hnew, hwith⟩ := hentries entry hentry
      rw [← hrange]
      exact .specifier ⟨⟨entry, hentry, hleads, rfl⟩, ⟨"c", hnew, hwith.symm⟩, hchanged⟩
  refine ⟨file, hfile, ⟨⟨fun node hnode => ?_, fun _ node hnode => ?_⟩, hwritten⟩, ?_⟩
  · rw [hparsed] at hnode
    exact (tidy_readPython _ node hnode).1
  · rw [hparsed] at hnode
    exact (tidy_readPython _ node hnode).2
  · intro replacements text parsed hrespelling hwoven hread
    obtain rfl := hrespelling.eq_singleton honly (by decide)
    rw [htext] at hwoven
    obtain rfl : "from c import f\n" = text :=
      Option.some.inj (Eq.trans (by decide +kernel) hwoven)
    rw [parsed_eq hread, hlanguage, Workspace.ReturnsAt, hfact, hlater]
    exact .some ⟨hreturns.1, hreturns.2.1, hreturns.2.2.1, hreturns.2.2.2⟩

end Store

end CodeGraph
