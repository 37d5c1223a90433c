import CodeGraph.Proofs.Transaction.Identity
import CodeGraph.Proofs.Transaction.Propagation

/-!
# Edits that others cannot see

An edit that keeps the signature of a file is not passed on to the importers. They are still bound to
what they resolve to if a search finds in the file what it found before. The signature sees to the
nodes of the symbols. It leaves out which symbol a name means at the top level, and which imports the
file exposes: a file that exposes some is passed on anyway, once they were bound, but one that has
just ceased to is not.
-/

namespace CodeGraph

namespace SourceFile

variable {file old new : SourceFile}

/-- What others see of a file besides its signature: it exposes imports and is passed on for that, or
it never did, and its names mean the same at the top level. -/
def KeepsOutlook (old new : SourceFile) : Prop :=
  new.exposesImports ∨ ¬ old.exposesImports ∧ new.facts.defaultExport = old.facts.defaultExport ∧
    ∀ name, new.facts.topLevelSymbol? name = old.facts.topLevelSymbol? name

theorem exposed?_eq_none (hexposes : ¬ file.exposesImports) (index : Nat) :
    file.exposed? index = none := by
  rw [exposed?, Option.filter_eq_none_iff]
  rintro ⟨fact, plan⟩ hplanned hexposed
  apply hexposes
  exact List.any_eq_true.2 ⟨fact, (mem_of_planned? hplanned).1, hexposed⟩

/-- The signature tells how the symbols are called. -/
theorem map_key_of_signature (hsignature : new.facts.signature = old.facts.signature) :
    new.facts.symbols.map SymbolFact.key = old.facts.symbols.map SymbolFact.key := by
  have hkey : ∀ facts : FileFacts, facts.symbols.map SymbolFact.key =
      facts.signature.symbols.map fun symbol => (symbol.kind, symbol.qualifiedName) := by
    intro facts
    rw [FileFacts.signature, List.map_map]
    rfl
  rw [hkey, hkey, hsignature]

/-- **A file that keeps its nodes, its signature and the meaning of its names looks the same**, if it
exposes no imports. -/
theorem Retains.looksLike (hretains : old.Retains new) (hold : old.Parallel) (hnew : new.Parallel)
    (hpath : new.path = old.path) (hlanguage : new.language = old.language)
    (hsignature : new.facts.signature = old.facts.signature)
    (hexposed : ¬ old.exposesImports) (hexposes : ¬ new.exposesImports)
    (hdefault : new.facts.defaultExport = old.facts.defaultExport)
    (htop : ∀ name, new.facts.topLevelSymbol? name = old.facts.topLevelSymbol? name) :
    old.LooksLike Eq new where
  path := hpath.symm
  language := hlanguage.symm
  node := hretains.node.symm
  sought := fun name => by rw [Workspace.soughtName?, Workspace.soughtName?, hdefault]
  declared := by
    have hsymbols :=
      hretains.symbols_eq hold.symbols hnew.symbols (map_key_of_signature hsignature)
    intro name
    have hsame : new.declared? name = old.declared? name := by
      unfold declared?
      rw [htop]
      unfold symbol?
      rw [hsymbols]
    exact hsame ▸ (LooksLike.refl old).declared name
  named := fun name => by
    rw [funext (exposed?_eq_none hexposed), funext (exposed?_eq_none hexposes),
      Option.bind_fun_none, Option.bind_fun_none]
  wildcards := by
    rw [funext (exposed?_eq_none hexposed), funext (exposed?_eq_none hexposes)]
    simp

end SourceFile

namespace Workspace

variable {environment : Environment} {before after : Workspace} {path : Path} {old put : SourceFile}

/-- The files after one was replaced. -/
theorem Swapped.files_eq (hordered : Ordered before.files)
    (hswapped : Swapped environment before path (some put) after)
    (hold : before.file? path = some old) :
    after.files = before.files.map fun file => if file.path = path then put else file := by
  have hput : put.path = path := (hswapped.brought put rfl).path_eq
  have hmapped : Ordered (before.files.map fun file => if file.path = path then put else file) :=
    hordered.map fun file => by
      split
      · rename_i hpath
        exact hput.trans hpath.symm
      · rfl
  apply hswapped.ordered.eq_of_mem_iff hmapped
  intro file
  rw [hswapped.mem_files, List.mem_map]
  constructor
  · rintro (hsame | ⟨hfile, hpath⟩)
    · obtain ⟨hmem, hpath⟩ := file?_mem hold
      exact ⟨old, hmem, by rw [if_pos hpath, Option.some.inj hsame]⟩
    · exact ⟨file, hfile, if_neg hpath⟩
  · rintro ⟨other, hother, rfl⟩
    by_cases hpath : other.path = path
    · exact .inl (by rw [if_pos hpath])
    · rw [if_neg hpath]
      exact .inr ⟨hother, hpath⟩

/-- When the file that came looks like the one before, so do all. -/
theorem Swapped.sameLooks (hordered : Ordered before.files)
    (hswapped : Swapped environment before path (some put) after)
    (hold : before.file? path = some old) (hlooks : old.LooksLike Eq put) :
    SameLooks Eq before after := by
  rw [SameLooks, hswapped.files_eq hordered hold]
  apply List.forall₂_map_right_iff.2
  apply List.forall₂_same.2
  intro file hfile
  by_cases hpath : file.path = path
  · rw [if_pos hpath]
    obtain ⟨hmem, hpath'⟩ := file?_mem hold
    rwa [hordered.eq_of_path hfile hmem (hpath.trans hpath'.symm)]
  · rw [if_neg hpath]
    exact .refl file

end Workspace

namespace Change

variable {environment : Environment} {workspace : Workspace} {path : Path} {range : ByteRange}
  {text : String} {base : Option Nat} {outcome : Pass.Outcome} {old new : SourceFile}

/-- An edit that keeps the signature and the outlook of its file leaves all imports bound to what they
resolve to. -/
theorem resolved_run_of_keepsOutlook (hsound : workspace.Sound environment)
    (hadmitted : (edit path range text base).Admitted workspace)
    (hresolved : ∀ file ∈ workspace.files, workspace.Resolved file)
    (hrun : (edit path range text base).run environment workspace = .ok outcome)
    (hold : workspace.file? path = some old) (hnew : outcome.workspace.file? path = some new)
    (hsignature : new.facts.signature = old.facts.signature) (houtlook : old.KeepsOutlook new) :
    ∀ file ∈ outcome.workspace.files, outcome.workspace.Resolved file := by
  have hretains : old.Retains new := retains_run hsound hadmitted hrun hold hnew
  obtain ⟨pass, hsteps, hconverge⟩ := exists_of_bind_eq_ok hrun
  obtain ⟨content, put, happlied, hswaps⟩ := exists_applied_edit hsound hadmitted hsteps
  obtain ⟨outcome', hconverge', hconverged⟩ := Pass.exists_converge hswaps.stands
  obtain rfl := Except.ok.inj (hconverge.symm.trans hconverge')
  have hstart := Pass.sound_ofWorkspace hsound
  have hbegun := resolved_ofWorkspace hsound hresolved
  have hold' : (Pass.ofWorkspace workspace).workspace.file? path = some old := hold
  obtain rfl : put = new := by
    have hput := hswaps.swapped.file? hstart.ordered path
    rw [if_pos rfl, Workspace.file?, ← hconverged.files] at hput
    exact Option.some.inj (hput.symm.trans hnew)
  -- the file itself is not passed on, unless it exposes imports
  have hchanged : pass.changed = [] := by
    rw [happlied.changed, hold', Option.any_some, hsignature, decide_eq_true rfl, if_pos rfl]
    rfl
  by_cases hexposes : put.exposesImports
  · exact hconverged.resolved_all_of_exposes hstart hswaps.swapped hswaps.bind hbegun hchanged rfl
      hexposes
  obtain ⟨hexposed, hdefault, htop⟩ := houtlook.resolve_left hexposes
  obtain ⟨hmem, hpath⟩ := Workspace.file?_mem hold
  have hbrought := hswaps.swapped.brought put rfl
  have hplace : put.path = old.path := hbrought.path_eq.trans hpath.symm
  have hlanguage : put.language = old.language := by
    rw [hbrought.current.language_eq, hplace, (hsound.drawn old hmem not_false).2.language_eq]
  have hlooks : old.LooksLike Eq put :=
    hretains.looksLike (hsound.parallel old hmem) hbrought.parallel hplace hlanguage hsignature
      hexposed hexposes hdefault htop
  exact hconverged.resolved_all_of_sameLooks hstart hswaps.swapped hswaps.bind hbegun
    (hswaps.swapped.sameLooks hstart.ordered hold' hlooks)

end Change

namespace Store

variable {environment : Environment} {store next : Store}

/-- **An edit that others cannot see leaves no import behind.** In a reachable store whose imports all
stand for what they resolve to, a committed edit that keeps the signature of its file, and in which
its names mean what they meant, leads to a store of the same kind: all imports of all files are among
the resolutions, and all stand for what these say. -/
theorem imports_kept (hreachable : store.Reachable environment)
    (hresolved : ∀ file ∈ store.workspace.files, store.workspace.Resolved file) {queuedAt : Nat}
    {change : Change} {path : Path} {range : ByteRange} {text : String} {base : Option Nat}
    {commit : Commit} {old new : SourceFile}
    (hvalid : change.validate environment.config store.workspace queuedAt =
      .ok (.edit path range text base))
    (hcommitted : store.process environment queuedAt change = (next, .committed commit))
    (hold : store.workspace.file? path = some old) (hnew : next.workspace.file? path = some new)
    (hsignature : new.facts.signature = old.facts.signature) (houtlook : old.KeepsOutlook new) :
    ∀ file ∈ next.workspace.files,
      (next.workspace.resolutions file).map Prod.fst = file.imports ∧
        next.workspace.Resolved file := by
  obtain ⟨checked, outcome, hvalid', hrun, hnext⟩ := exists_run_of_committed hcommitted
  obtain rfl := Except.ok.inj (hvalid.symm.trans hvalid')
  have hkept : next.Kept environment := by
    have h := kept_process hreachable.kept queuedAt change
    rwa [hcommitted] at h
  rw [hnext] at hnew
  have hall := Change.resolved_run_of_keepsOutlook hreachable.kept.sound
    (Change.admitted_of_validate hvalid) hresolved hrun hold hnew hsignature houtlook
  rw [← hnext] at hall
  exact fun file hfile => ⟨Workspace.map_fst_resolutions _ (hkept.sound.parallel file hfile),
    hall file hfile⟩

/-! ### A wildcard import inside and outside a function -/

namespace Behind

open Importing

/-- A wildcard import at a place in the text. -/
def wildcardAt (start : Nat) : Tree :=
  node "import_from_statement" ⟨start, start + 15⟩ none
    [node "dotted_name" ⟨start + 5, start + 6⟩ (some "module_name") [],
      node "wildcard_import" ⟨start + 14, start + 15⟩ none []]

/-- A wildcard import before a function. -/
def outside : String := "from a import *\ndef f():\n    pass\n"

/-- The same import inside the function. -/
def inside : String := "def f():\n    from a import *\n"

/-- A variable by default, and the two texts above with an import of the variable through them. -/
def parse (text : String) : Tree :=
  if text = outside then
    node "module" ⟨0, 34⟩ none [wildcardAt 0, node "function_definition" ⟨16, 33⟩ none
      [node "identifier" ⟨20, 21⟩ (some "name") []]]
  else if text = inside then
    node "module" ⟨0, 29⟩ none [node "function_definition" ⟨0, 28⟩ none
      [node "identifier" ⟨4, 5⟩ (some "name") [],
        node "block" ⟨13, 28⟩ (some "body") [wildcardAt 13]]]
  else if text = "from v import g\n" then
    node "module" ⟨0, 16⟩ none [node "import_from_statement" ⟨0, 15⟩ none
      [node "dotted_name" ⟨5, 6⟩ (some "module_name") [],
        node "dotted_name" ⟨14, 15⟩ (some "name") []]]
  else
    node "module" ⟨0, 6⟩ none
      [node "assignment" ⟨0, 5⟩ none [node "identifier" ⟨0, 1⟩ (some "left") []]]

def parsing : Environment := ⟨{}, fun _ => parse⟩

/-- A variable, a file with a given text, and a file that imports the variable from there. -/
def around (text : String) : Store :=
  let first := (process parsing {} 0 (.add ⟨"a.py"⟩ "g = 1\n")).1
  let second := (process parsing first 1 (.add ⟨"v.py"⟩ text)).1
  (process parsing second 2 (.add ⟨"c.py"⟩ "from v import g\n")).1

theorem reachable_around (text : String) : (around text).Reachable parsing := by
  rw [around]
  exact .process (.process (.process (.empty {}) 0 _) 1 _) 2 _

end Behind

/-- Another value for a variable that is imported through a wildcard. -/
theorem imports_kept_value :
    let edit := Change.edit ⟨"a.py"⟩ ⟨4, 5⟩ "2" none
    let store := Behind.around Behind.outside
    let next := (process Behind.parsing store 3 edit).1
    next.workspace.text? ⟨"a.py"⟩ = some "g = 2\n" ∧
      ∀ file ∈ next.workspace.files, (next.workspace.resolutions file).map Prod.fst = file.imports ∧
        next.workspace.Resolved file := by
  intro edit store next
  have hreachable : store.Reachable Behind.parsing := Behind.reachable_around Behind.outside
  obtain ⟨hresolved, hvalid, hcommits, htext⟩ :
      (∀ file ∈ store.workspace.files, store.workspace.Resolved file) ∧
      edit.validate Behind.parsing.config store.workspace 3 = .ok edit ∧
      (process Behind.parsing store 3 edit).2.isCommitted ∧
      next.workspace.text? ⟨"a.py"⟩ = some "g = 2\n" := by decide +kernel
  obtain ⟨commit, hprocess⟩ := exists_commit_of_isCommitted hcommits
  obtain ⟨old, hold, new, hnew, hsignature, hexposed, hdefault, hscopes⟩ :
      ∃ old ∈ store.workspace.file? ⟨"a.py"⟩, ∃ new ∈ next.workspace.file? ⟨"a.py"⟩,
        new.facts.signature = old.facts.signature ∧ ¬ old.exposesImports ∧
        new.facts.defaultExport = old.facts.defaultExport ∧
        new.facts.scopes = old.facts.scopes := by decide +kernel
  have htop : ∀ name, new.facts.topLevelSymbol? name = old.facts.topLevelSymbol? name := by
    intro name
    rw [FileFacts.topLevelSymbol?, hscopes, FileFacts.topLevelSymbol?]
  exact ⟨htext, imports_kept hreachable hresolved hvalid hprocess hold hnew hsignature
    (.inr ⟨hexposed, hdefault, htop⟩)⟩

/-! ### A name that means another symbol -/

namespace Covered

open Importing

/-- A class called `f`. -/
def classAt (start : Nat) (field : Option String) : Tree :=
  node "class_declaration" ⟨start, start + 10⟩ field
    [node "identifier" ⟨start + 6, start + 7⟩ (some "name") [],
      node "class_body" ⟨start + 8, start + 10⟩ (some "body") []]

/-- The class exported. -/
def exportedAt (start : Nat) : Tree :=
  node "export_statement" ⟨start, start + 17⟩ none [classAt (start + 7) (some "declaration")]

/-- The class inside a nameless function that is called where it stands. -/
def coveredAt (start : Nat) : Tree :=
  node "expression_statement" ⟨start, start + 25⟩ none
    [node "call_expression" ⟨start, start + 24⟩ none
      [node "parenthesized_expression" ⟨start, start + 22⟩ (some "function")
        [node "arrow_function" ⟨start + 1, start + 21⟩ none
          [node "formal_parameters" ⟨start + 1, start + 3⟩ (some "parameters") [],
            node "statement_block" ⟨start + 7, start + 21⟩ (some "body")
              [classAt (start + 9) none]]],
        node "arguments" ⟨start + 22, start + 24⟩ (some "arguments") []]]

/-- The class that others see stands last. -/
def last : String :=
  "(() => \x7b class f \x7b\x7d \x7d)();\nexport class f \x7b\x7d\n"

/-- The class that others see stands first. -/
def first : String :=
  "export class f \x7b\x7d\n(() => \x7b class f \x7b\x7d \x7d)();\n"

/-- The import of the class by default, and the two texts above. -/
def parse (text : String) : Tree :=
  if text = last then node "program" ⟨0, 44⟩ none [coveredAt 0, exportedAt 26]
  else if text = first then node "program" ⟨0, 44⟩ none [exportedAt 0, coveredAt 18]
  else
    node "program" ⟨0, 25⟩ none [node "import_statement" ⟨0, 24⟩ none
      [node "import_clause" ⟨7, 12⟩ none [node "named_imports" ⟨7, 12⟩ none
        [node "import_specifier" ⟨9, 10⟩ none [node "identifier" ⟨9, 10⟩ (some "name") []]]],
        node "string" ⟨18, 23⟩ (some "source") []]]

def parsing : Environment := ⟨{}, fun _ => parse⟩

/-- A file with the two classes, and one that imports the class. -/
def imported : Store :=
  let first := (process parsing {} 0 (.add ⟨"v.js"⟩ last)).1
  (process parsing first 1 (.add ⟨"c.js"⟩ "import \x7b f \x7d from './v';\n")).1

theorem reachable_imported : imported.Reachable parsing := by
  rw [imported]
  exact .process (.process (.empty {}) 0 _) 1 _

/-- What comes of an edit that makes the class others see the first. -/
def edited : Store × TransactionResult :=
  process parsing imported 2 (.edit ⟨"v.js"⟩ ⟨0, Text.size last⟩ first none)

end Covered

/-- An edit that moves the class that others see before the one of the same name inside keeps the
signature. The import is not bound again, and it is left with the class inside. -/
theorem import_left_behind :
    Covered.imported.Reachable Covered.parsing ∧
      (∀ file ∈ Covered.imported.workspace.files, Covered.imported.workspace.Resolved file) ∧
      Covered.edited.2.isCommitted ∧
      (Covered.edited.1.workspace.file? ⟨"v.js"⟩).map (fun file => file.facts.signature) =
        (Covered.imported.workspace.file? ⟨"v.js"⟩).map (fun file => file.facts.signature) ∧
      ∃ file ∈ Covered.edited.1.workspace.files, file.path = ⟨"c.js"⟩ ∧
        ¬ Covered.edited.1.workspace.Resolved file :=
  ⟨Covered.reachable_imported, by decide +kernel⟩

end Store

end CodeGraph
