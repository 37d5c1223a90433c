import CodeGraph.Proofs.Transaction.Outlook
import CodeGraph.Proofs.Workspace.Acyclic

/-!
# Searches in a store

In every store that transactions lead to, a search ends, however the imports lead round in circles, and
what it finds lies where the imports lead. That it passes over the files it has seen is not only for
its end, though: asked for another name, such a file may have had an answer.
-/

namespace CodeGraph.Store

variable {environment : Environment} {store : Store}

/-- **Every search is settled in a reachable store**, for each import of a file and for a name among
any files: by the rules it has one outcome, which is the one that is computed. It looks at no file twice.
A node that it finds is a file's own or that of a symbol which a name means at the top of a file, and the
search comes to that file from a candidate of the import by candidates of exposed imports. -/
theorem searches_settle (hreachable : store.Reachable environment) :
    (∀ file ∈ store.workspace.files, ∀ index < file.imports.length,
      ∃ fact plan, file.planned? index = some (fact, plan) ∧
        store.workspace.Settles (.imported file index)
          (some (store.workspace.resolveImport file.language fact plan))) ∧
      ∀ files, (∀ file ∈ files, file ∈ store.workspace.files) → ∀ name,
        store.workspace.Settles (.member files name) (store.workspace.lookupMember files name) := by
  have hsound := hreachable.kept.sound
  refine ⟨fun file hfile index hindex => ?_, fun files hfiles name =>
    hsound.settles_lookupMember hfiles name⟩
  have hparallel := hsound.parallel file hfile
  obtain ⟨fact, plan, hplanned⟩ :=
    Workspace.exists_planned hparallel (hparallel.imports ▸ hindex)
  exact ⟨fact, plan, hplanned, hsound.settles_resolveImport hplanned⟩

/-- **An import stands for what a search finds that forgets what it has seen**, in a reachable store
whose exposed imports lead in no circle. That search has one outcome, and the import resolves to it as
long as the search asks no file for two names. -/
theorem resolves_as_forgetting (hreachable : store.Reachable environment)
    (hacyclic : ∀ file, ¬ Relation.TransGen store.workspace.LeadsTo file file) {file : SourceFile}
    (hfile : file ∈ store.workspace.files) {index : Nat} (hindex : index < file.imports.length) :
    ∃ fact plan binding stops, file.planned? index = some (fact, plan) ∧
      (∀ answer others, store.workspace.Finds false (.imported file index) [] answer others ↔
        answer = some binding ∧ others = stops) ∧
      (Workspace.Steady stops →
        store.workspace.resolveImport file.language fact plan = binding) := by
  have hsound := hreachable.kept.sound
  have hparallel := hsound.parallel file hfile
  obtain ⟨fact, plan, hplanned⟩ :=
    Workspace.exists_planned hparallel (hparallel.imports ▸ hindex)
  obtain ⟨binding, stops, hfinds, hsteady⟩ :=
    hsound.resolveImport_eq_of_steady hacyclic hplanned
  exact ⟨fact, plan, binding, stops, hplanned, hfinds, hsteady⟩

/-! ### Files that import each other -/

namespace Renamed

open Behind Importing

/-- All names of two files. -/
def both : String := "from a import *\nfrom b import *\n"

/-- A variable under another name. -/
def aliased : String := "from a import x as n\n"

/-- A variable by default, and imports of several kinds. -/
def parse (text : String) : Tree :=
  if text = both then node "module" ⟨0, 32⟩ none [wildcardAt 0, wildcardAt 16]
  else if text = aliased then
    node "module" ⟨0, 21⟩ none [node "import_from_statement" ⟨0, 20⟩ none
      [node "dotted_name" ⟨5, 6⟩ (some "module_name") [],
        node "aliased_import" ⟨14, 20⟩ (some "name")
          [node "dotted_name" ⟨14, 15⟩ (some "name") [],
            node "identifier" ⟨19, 20⟩ (some "alias") []]]]
  else if text = "from a import *\n" then node "module" ⟨0, 16⟩ none [wildcardAt 0]
  else if text = "from m import n\n" then
    node "module" ⟨0, 16⟩ none [node "import_from_statement" ⟨0, 15⟩ none
      [node "dotted_name" ⟨5, 6⟩ (some "module_name") [],
        node "dotted_name" ⟨14, 15⟩ (some "name") []]]
  else
    node "module" ⟨0, 6⟩ none
      [node "assignment" ⟨0, 5⟩ none [node "identifier" ⟨0, 1⟩ (some "left") []]]

def parsing : Environment := ⟨{}, fun _ => parse⟩

/-- Three files with given texts, and one that imports a name from the last of them. -/
def project (first second third : String) : Store :=
  let store := (process parsing {} 0 (.add ⟨"a.py"⟩ first)).1
  let store := (process parsing store 1 (.add ⟨"b.py"⟩ second)).1
  let store := (process parsing store 2 (.add ⟨"m.py"⟩ third)).1
  (process parsing store 3 (.add ⟨"c.py"⟩ "from m import n\n")).1

theorem reachable_project (first second third : String) :
    (project first second third).Reachable parsing := by
  rw [project]
  exact .process (.process (.process (.process (.empty {}) 0 _) 1 _) 2 _) 3 _

/-- Two files with all names of both, and a third that has a variable of the first under another name.
-/
def circular : Store := project both both aliased

/-- A file that is come to in two ways, and asked for the same name. -/
def common : Store := project "x = 1\n" "from a import *\n" both

/-- A file that is come to in two ways, and asked for two names. -/
def renamed : Store := project "x = 1\n" aliased both

/-- The files from the one that imports nothing to the one that no other imports. -/
def rank (path : Path) : Nat :=
  [(⟨"a.py"⟩ : Path), ⟨"b.py"⟩, ⟨"m.py"⟩, ⟨"c.py"⟩].idxOf path

end Renamed

open Renamed

theorem searches_settle_circular :
    ∃ file ∈ circular.workspace.files, file.path = ⟨"c.py"⟩ ∧ ∃ fact plan,
      file.planned? 0 = some (fact, plan) ∧
        circular.workspace.resolveImport file.language fact plan =
          .unresolved "n not found in m" ∧
        circular.workspace.Settles (.imported file 0) (some (.unresolved "n not found in m")) := by
  obtain ⟨file, hfile, hpath, hindex, entry, hentry, hresolve⟩ :
      ∃ file ∈ circular.workspace.files, file.path = ⟨"c.py"⟩ ∧ 0 < file.imports.length ∧
        ∃ entry ∈ file.planned? 0,
          circular.workspace.resolveImport file.language entry.1 entry.2 =
            .unresolved "n not found in m" := by decide +kernel
  have hreachable : circular.Reachable parsing := reachable_project both both aliased
  obtain ⟨fact, plan, hplanned, hsettles⟩ := (searches_settle hreachable).1 file hfile 0 hindex
  obtain rfl : entry = (fact, plan) := Option.some.inj (hentry.symm.trans hplanned)
  exact ⟨file, hfile, hpath, fact, plan, hplanned, hresolve, hresolve ▸ hsettles⟩

theorem resolves_as_forgetting_common :
    ∃ file ∈ common.workspace.files, file.path = ⟨"c.py"⟩ ∧ ∃ fact plan stops,
      file.planned? 0 = some (fact, plan) ∧
        common.workspace.Finds false (.imported file 0) []
          (some (.unresolved "n not found in m")) stops ∧
        common.workspace.resolveImport file.language fact plan =
          .unresolved "n not found in m" := by
  obtain ⟨hrank, file, hfile, hpath, hindex, ⟨answer, stops⟩, hfreely, hanswer, hsteady⟩ :
      (∀ file ∈ common.workspace.files, ∀ entry ∈ file.facts.imports.zip file.plans,
        ∀ candidate ∈ entry.2.all, ∀ next ∈ common.workspace.present file.language candidate,
          rank next.path < rank file.path) ∧
      ∃ file ∈ common.workspace.files, file.path = ⟨"c.py"⟩ ∧ 0 < file.imports.length ∧
        ∃ outcome ∈ common.workspace.freely 20 (.imported file 0),
          outcome.1 = some (.unresolved "n not found in m") ∧
          ∀ stop ∈ outcome.2, ∀ other ∈ outcome.2, stop.file.path = other.file.path →
            stop.name = other.name := by decide +kernel
  obtain rfl : answer = some (.unresolved "n not found in m") := hanswer
  have hreachable : common.Reachable parsing :=
    reachable_project "x = 1\n" "from a import *\n" both
  obtain ⟨fact, plan, binding, others, hplanned, hunique, hresolve⟩ :=
    resolves_as_forgetting hreachable (Workspace.acyclic_of_rank rank hrank) hfile hindex
  have hfinds := Workspace.finds_of_freely hfreely []
  obtain ⟨hbinding, rfl⟩ := (hunique _ _).1 hfinds
  obtain rfl := Option.some.inj hbinding
  exact ⟨file, hfile, hpath, fact, plan, stops, hplanned, hfinds, hresolve hsteady⟩

/-- One file has a variable, the second has it under another name, and the third has all names of both.
The import of the other name comes to the first file, asks it in vain for that name, and then passes it
over when the second file asks it for the variable. No imports lead in a circle, and a search that
forgets what it has seen finds the variable. -/
theorem resolves_not_as_forgetting :
    renamed.Reachable parsing ∧
      (∀ file, ¬ Relation.TransGen renamed.workspace.LeadsTo file file) ∧
      ∃ file ∈ renamed.workspace.files, file.path = ⟨"c.py"⟩ ∧ ∃ fact plan stops,
        file.planned? 0 = some (fact, plan) ∧
          renamed.workspace.resolveImport file.language fact plan =
            .unresolved "n not found in m" ∧
          renamed.workspace.Finds false (.imported file 0) [] (some (.resolved 2)) stops := by
  obtain ⟨hrank, file, hfile, hpath, ⟨fact, plan⟩, hplanned, hresolve, ⟨answer, stops⟩, hfreely,
      hanswer⟩ :
      (∀ file ∈ renamed.workspace.files, ∀ entry ∈ file.facts.imports.zip file.plans,
        ∀ candidate ∈ entry.2.all, ∀ next ∈ renamed.workspace.present file.language candidate,
          rank next.path < rank file.path) ∧
      ∃ file ∈ renamed.workspace.files, file.path = ⟨"c.py"⟩ ∧ ∃ entry ∈ file.planned? 0,
        renamed.workspace.resolveImport file.language entry.1 entry.2 =
          .unresolved "n not found in m" ∧
        ∃ outcome ∈ renamed.workspace.freely 20 (.imported file 0),
          outcome.1 = some (.resolved 2) := by decide +kernel
  obtain rfl : answer = some (.resolved 2) := hanswer
  exact ⟨reachable_project "x = 1\n" aliased both, Workspace.acyclic_of_rank rank hrank, file,
    hfile, hpath, fact, plan, stops, hplanned, hresolve, Workspace.finds_of_freely hfreely []⟩

end CodeGraph.Store
