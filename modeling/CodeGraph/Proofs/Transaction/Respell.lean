import CodeGraph.Proofs.Transaction.Rename
import CodeGraph.Proofs.Workspace.Importers

/-!
# Importers of a file that moves

A rename that validation accepts makes all replacements in every importer, and nothing else.
-/

namespace CodeGraph.Store

variable {environment : Environment} {store : Store}

/-- **Importers are respelled by clean splices.** In a reachable store, when a rename is accepted, the
replacements in an importer lie apart and part no character, none is left out when they are made from
back to front, and the text that comes out is the old one with all of them put in at once. Each is made
at the specifier of an import that led to the file, or where a dotted module that is taken in whole is
used by its name. Trees are well nested, and those of Python have a dot before an attribute. -/
theorem importers_spliced (hreachable : store.Reachable environment) {queuedAt : Nat}
    {change : Change} {source target : Path}
    (hvalid : change.validate environment.config store.workspace queuedAt =
      .ok (.rename source target)) {path : Path} {replacements : List Replacement}
    (himporter : (path, replacements) ∈
      store.workspace.affectedImporters environment.config source target) {file : SourceFile}
    (hfile : store.workspace.file? path = some file)
    (hnested : file.parsed.tree.Everywhere Tree.Nested)
    (hdotted : file.language = .python →
      file.parsed.tree.Everywhere Python.attributeShape.Dotted) :
    ∃ outcome after,
      (Change.rename source target).run environment store.workspace = .ok outcome ∧
      Replacement.Splices file.text replacements after ∧
      outcome.workspace.text? path = some after ∧
      (∀ replacement ∈ replacements,
        store.workspace.Follows file source replacement.range) ∧
      ∀ next commit, store.process environment queuedAt change = (next, .committed commit) →
        next.workspace = outcome.workspace := by
  have hsound := hreachable.kept.sound
  have hadmitted := Change.admitted_of_validate hvalid
  obtain ⟨outcome, hrun, -, -, -, -, -, -, htexts⟩ := Change.exists_run hsound hadmitted
  obtain ⟨-, -, -, hfree⟩ := hadmitted
  obtain ⟨found, himports, hfound, rfl⟩ := Workspace.mem_affectedImporters.1 himporter
  obtain rfl := Option.some.inj (hfile.symm.trans hfound)
  have hcurrent := (hsound.drawn file (Workspace.file?_mem hfile).1 not_false).2
  obtain ⟨after, hsplices⟩ : ∃ after, Replacement.Splices file.text
      (store.workspace.importerReplacements environment.config source target file) after :=
    Workspace.exists_splices hcurrent.facts ⟨hnested, hdotted⟩
  refine ⟨outcome, after, hrun, hsplices, ?_,
    fun replacement hmem => (Workspace.follows_of_mem_importerReplacements hmem).1, ?_⟩
  · have hne : path ≠ target := by
      rintro rfl
      rw [hfree] at hfile
      cases hfile
    rw [htexts path (Workspace.mem_importersOf.1 himports).2 hne, if_pos himports, hfile,
      Option.map_some, hsplices.applied]
  · intro next commit hcommitted
    obtain ⟨checked, last, hchecked, hlast, hworkspace⟩ := exists_run_of_committed hcommitted
    obtain rfl := Except.ok.inj (hvalid.symm.trans hchecked)
    rw [hworkspace, Except.ok.inj (hlast.symm.trans hrun)]

/-! ### A module in a package -/

namespace Packaged

open Importing

/-- The import of a module in a package, and a use of it. -/
def parse (text : String) : Tree :=
  if text = "import p.a\np.a.f\n" then
    node "module" ⟨0, 17⟩ none
      [node "import_statement" ⟨0, 10⟩ none [node "dotted_name" ⟨7, 10⟩ (some "name") []],
        node "expression_statement" ⟨11, 16⟩ none
          [node "attribute" ⟨11, 16⟩ none
            [node "attribute" ⟨11, 14⟩ (some "object")
              [node "identifier" ⟨11, 12⟩ (some "object") [],
                node "identifier" ⟨13, 14⟩ (some "attribute") []],
              node "identifier" ⟨15, 16⟩ (some "attribute") []]]]
  else node "module" ⟨0, 6⟩ none []

def parsing : Environment := ⟨{}, fun _ => parse⟩

def packaged : Store :=
  imported parsing ⟨⟨"p/a.py"⟩, "f = 1\n"⟩ ⟨⟨"b.py"⟩, "import p.a\np.a.f\n"⟩

theorem tidy_parse (text : String) : (parse text).Everywhere fun tree =>
    tree.Nested ∧ Python.attributeShape.Dotted tree := by
  rw [parse]
  split
  · simp only [everywhere_node, List.forall_mem_cons, List.not_mem_nil, false_imp_iff,
      implies_true, and_true]
    decide
  · simp only [everywhere_node, List.not_mem_nil, false_imp_iff, implies_true, and_true]
    decide

end Packaged

open Packaged Importing

/-- The import and the use are spelled anew together. -/
theorem importers_spliced_packaged : ∃ outcome,
    (Change.rename ⟨"p/a.py"⟩ ⟨"p/b.py"⟩).run parsing packaged.workspace = .ok outcome ∧
    Replacement.Splices "import p.a\np.a.f\n" [⟨⟨7, 10⟩, "p.b"⟩, ⟨⟨11, 14⟩, "p.b"⟩]
      "import p.b\np.b.f\n" ∧
    outcome.workspace.text? ⟨"b.py"⟩ = some "import p.b\np.b.f\n" := by
  have hreachable : packaged.Reachable parsing := reachable_imported ..
  have hvalid : (Change.rename ⟨"p/a.py"⟩ ⟨"p/b.py"⟩).validate parsing.config packaged.workspace 2 =
      .ok (.rename ⟨"p/a.py"⟩ ⟨"p/b.py"⟩) := by decide +kernel
  obtain ⟨himports, file, hfile, htext, hlist⟩ :
      ⟨"b.py"⟩ ∈ packaged.workspace.importersOf ⟨"p/a.py"⟩ ∧
      ∃ file ∈ packaged.workspace.file? ⟨"b.py"⟩, file.text = "import p.a\np.a.f\n" ∧
        (file.imports.zip (file.facts.imports.zip file.plans)).flatMap
          (packaged.workspace.respellings parsing.config file ⟨"p/a.py"⟩ ⟨"p/b.py"⟩) =
            [⟨⟨7, 10⟩, "p.b"⟩, ⟨⟨11, 14⟩, "p.b"⟩] := by
    decide +kernel
  have himporter : (⟨"b.py"⟩, [⟨⟨7, 10⟩, "p.b"⟩, ⟨⟨11, 14⟩, "p.b"⟩]) ∈
      packaged.workspace.affectedImporters parsing.config ⟨"p/a.py"⟩ ⟨"p/b.py"⟩ := by
    refine Workspace.mem_affectedImporters.2 ⟨file, himports, hfile, ?_⟩
    rw [Workspace.importerReplacements, hlist, Replacement.inOrder,
      List.mergeSort_of_pairwise (by decide)]
    rfl
  obtain ⟨text, htree⟩ : ∃ text, file.parsed.tree = parse text := by
    have hmem := (Workspace.file?_mem hfile).1
    have hparsed := (hreachable.kept.sound.drawn file hmem not_false).2.parsed
    rw [Parsed.parse] at hparsed
    split at hparsed
    · exact ⟨_, by rw [← Except.ok.inj hparsed]; rfl⟩
    · cases hparsed
  obtain ⟨outcome, after, hrun, hsplices, hafter, -⟩ := importers_spliced hreachable hvalid
    himporter hfile (fun node hnode => (tidy_parse text node (htree ▸ hnode)).1)
    fun _ node hnode => (tidy_parse text node (htree ▸ hnode)).2
  rw [htext] at hsplices
  obtain rfl : "import p.b\np.b.f\n" = after :=
    Option.some.inj (Eq.trans (by decide +kernel) hsplices.woven)
  exact ⟨outcome, hrun, hsplices, hafter⟩

end CodeGraph.Store
