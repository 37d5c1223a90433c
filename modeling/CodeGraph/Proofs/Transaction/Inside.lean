import CodeGraph.Proofs.Path.Walk
import CodeGraph.Proofs.Transaction.Reachable

/-!
# Paths stay inside the project

Whatever path a caller gives, what it means lies below the root or it means nothing. So all files of
a store lie at normal paths, and so does every place that an import may point to, which is why the two
can be compared by their spelling.
-/

namespace CodeGraph.Store

variable {environment : Environment} {store : Store}

/-- **Paths are brought into one form and do not lead outside.** A path that means a file means the
place where its walk from the root ends. The walk never steps above its start and does not end there,
and what it comes to is made of names only and means itself. A path that means nothing is absolute
and not under the root, or its walk steps above the start or ends there. All paths of files in a
reachable store, and all places that any import may point to, are in this form. -/
theorem paths_inside (hreachable : store.Reachable environment) :
    (∀ root path found, Path.inProject? root path = some found →
      (∃ components names, Path.Strips root path components ∧ ¬ Path.StepsAbove components ∧
        Path.Leads [] components names ∧ names ≠ [] ∧ found.components = names.map .named ∧
        found = Path.ofNames names) ∧
      Path.inProject? root found = some found) ∧
    (∀ root path, Path.inProject? root path = none →
      (path.isAbsolute ∧ ∀ rest, path.components ≠ root.components ++ rest) ∨
      ∃ components, Path.Strips root path components ∧
        (Path.StepsAbove components ∨ Path.Leads [] components [])) ∧
    (∀ file ∈ store.workspace.files, file.path.normalize? = some file.path) ∧
    ∀ language importer fact config,
      ∀ candidate ∈ (ModulePlan.make language importer fact config).all,
        candidate.path.normalize? = some candidate.path := by
  refine ⟨fun root path found hfound => ⟨Path.leads_of_inProject? hfound, ?_⟩,
    fun root path => Path.strays_of_inProject?, fun file hfile => ?_,
    fun language importer fact config candidate hcandidate => ?_⟩
  · exact (Path.isNormal_of_inProject? hfound).inProject?_eq root
  · exact (hreachable.kept.sound.ordered.normal file hfile).isPlain.normalize?_eq
  · exact (ModulePlan.isPlain_of_mem_all hcandidate).normalize?_eq

/-- An absolute path into the project means the file that its detour ends at, and one that climbs out
of the project means nothing. -/
theorem paths_inside_detour : ∃ store : Store, store.Reachable ⟨{}, fun _ _ => default⟩ ∧
    (∃ file ∈ store.workspace.files, file.path = ⟨"a.py"⟩ ∧
      file.path.normalize? = some file.path) ∧
    Path.inProject? ⟨"/p"⟩ ⟨"/p/lib/../a.py"⟩ = some ⟨"a.py"⟩ ∧
    (∃ components, Path.Strips ⟨"/p"⟩ ⟨"/p/lib/../a.py"⟩ components ∧
      Path.Leads [] components ["a.py"]) ∧
    ∃ components, Path.Strips ⟨"/p"⟩ ⟨"lib/../../a.py"⟩ components ∧
      (Path.StepsAbove components ∨ Path.Leads [] components []) := by
  have hempty : Reachable ⟨{}, fun _ _ => default⟩ {} := .empty {}
  have hreachable := hempty.process 0 (.add ⟨"a.py"⟩ "x = 1\n")
  obtain ⟨hinside, hstray, hfiles, -⟩ := paths_inside hreachable
  have hfound : Path.inProject? ⟨"/p"⟩ ⟨"/p/lib/../a.py"⟩ = some ⟨"a.py"⟩ := by decide
  obtain ⟨⟨components, names, hstrips, -, hleads, -, hcomponents, -⟩, -⟩ := hinside _ _ _ hfound
  have hnames : names = ["a.py"] := by
    have hnamed : (⟨"a.py"⟩ : Path).components = ["a.py"].map Component.named := by decide
    have hinjective : Function.Injective Component.named := fun _ _ h => Component.named.inj h
    exact hinjective.list_map (hcomponents.symm.trans hnamed)
  obtain ⟨habsolute, -⟩ | hclimbs := hstray ⟨"/p"⟩ ⟨"lib/../../a.py"⟩ (by decide)
  · exact absurd habsolute (by decide)
  · obtain ⟨file, hfile, hpath⟩ : ∃ file ∈ (process ⟨{}, fun _ _ => default⟩ {} 0
        (.add ⟨"a.py"⟩ "x = 1\n")).1.workspace.files, file.path = ⟨"a.py"⟩ := by
      decide +kernel
    exact ⟨_, hreachable, ⟨file, hfile, hpath, hfiles file hfile⟩, hfound,
      ⟨components, hstrips, hnames ▸ hleads⟩, hclimbs⟩

end CodeGraph.Store
