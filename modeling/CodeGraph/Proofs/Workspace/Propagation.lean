import CodeGraph.Proofs.Workspace.Converge
import CodeGraph.Proofs.Workspace.Move

/-!
# Imports that a change does not reach

When the file at one path comes, goes or is replaced, the rounds of binding reach the importers of that
path, the importers of those that expose their imports, and so on. All other files point to places
where nothing changed, and wherever a search from there leads, nothing changed either. So their
imports stand for what they stood for.
-/

namespace CodeGraph

/-- An import with this candidate may point to the path, as a file or as part of a package. -/
def Candidate.Leads (candidate : Candidate) (path : Path) : Prop :=
  candidate.path = path ∨ path.parent? = some candidate.path

theorem SourceFile.mem_of_planned? {file : SourceFile} {index : Nat} {fact : ImportFact}
    {plan : ModulePlan} (hplanned : file.planned? index = some (fact, plan)) :
    fact ∈ file.facts.imports ∧ plan ∈ file.plans := by
  obtain ⟨found, hfact, hrest⟩ := Option.bind_eq_some_iff.1 hplanned
  obtain ⟨place, hplan, hrest⟩ := Option.bind_eq_some_iff.1 hrest
  obtain ⟨rfl, rfl⟩ := Prod.mk.inj (Option.some.inj hrest)
  exact ⟨List.mem_of_getElem? hfact, List.mem_of_getElem? hplan⟩

namespace Workspace

/-! ### Workspaces that differ at one path -/

theorem mem_present {workspace : Workspace} {language : Language} {candidate : Candidate}
    {file : SourceFile} (hfile : file ∈ workspace.present language candidate) :
    file ∈ workspace.files ∧ candidate.Leads file.path := by
  cases candidate with
  | file path =>
    obtain ⟨hmem, hpath⟩ := file?_mem (Option.mem_toList.1 hfile)
    exact ⟨hmem, .inl hpath.symm⟩
  | package directory =>
    obtain ⟨hmem, hkeep⟩ := List.mem_filter.1 hfile
    rw [Bool.and_eq_true, decide_eq_true_eq, decide_eq_true_eq] at hkeep
    exact ⟨hmem, .inr hkeep.2⟩

theorem mem_firstPresent {workspace : Workspace} {language : Language}
    {candidates : List Candidate} {file : SourceFile}
    (hfile : file ∈ workspace.firstPresent language candidates) :
    ∃ candidate ∈ candidates, file ∈ workspace.present language candidate := by
  rw [firstPresent] at hfile
  cases hfound : (candidates.map (workspace.present language)).find? fun files =>
      !files.isEmpty with
  | none =>
    rw [hfound] at hfile
    exact absurd hfile List.not_mem_nil
  | some files =>
    rw [hfound] at hfile
    obtain ⟨candidate, hcandidate, rfl⟩ := List.mem_map.1 (List.mem_of_find?_eq_some hfound)
    exact ⟨candidate, hcandidate, hfile⟩

/-- The same files but at one path. -/
structure AlikeBut (path : Path) (before after : Workspace) : Prop where
  ordered : Ordered before.files
  ordered' : Ordered after.files
  mem_files : ∀ file : SourceFile, file.path ≠ path →
    (file ∈ after.files ↔ file ∈ before.files)

section AlikeBut

variable {path : Path} {before after : Workspace} (halike : AlikeBut path before after)

include halike

theorem AlikeBut.filter_eq {keep : SourceFile → Bool}
    (hkeep : ∀ file, keep file = true → file.path ≠ path) :
    after.files.filter keep = before.files.filter keep := by
  refine (halike.ordered'.filter keep).eq_of_mem_iff (halike.ordered.filter keep) fun file => ?_
  rw [List.mem_filter, List.mem_filter]
  exact and_congr_left fun h => halike.mem_files file (hkeep file h)

/-- A candidate that does not lead to the path finds the same files. -/
theorem AlikeBut.present_eq {candidate : Candidate} (hleads : ¬ candidate.Leads path)
    (language : Language) :
    after.present language candidate = before.present language candidate := by
  rw [Candidate.Leads, not_or] at hleads
  cases candidate with
  | file other =>
    have hfile? : after.file? other = before.file? other := by
      refine Option.ext fun file => ?_
      rw [halike.ordered'.file?_iff, halike.ordered.file?_iff]
      exact and_congr_left fun h => halike.mem_files file (h ▸ hleads.1)
    rw [present, hfile?, present]
  | package directory =>
    refine halike.filter_eq fun file hkeep => ?_
    rw [Bool.and_eq_true, decide_eq_true_eq, decide_eq_true_eq] at hkeep
    rintro rfl
    exact hleads.2 hkeep.2

theorem AlikeBut.firstPresent_eq {candidates : List Candidate}
    (hleads : ∀ candidate ∈ candidates, ¬ candidate.Leads path) (language : Language) :
    after.firstPresent language candidates = before.firstPresent language candidates := by
  rw [firstPresent, firstPresent, List.map_congr_left fun candidate hcandidate =>
    halike.present_eq (hleads candidate hcandidate) language]

end AlikeBut

theorem Swapped.alikeBut {environment : Environment} {before after : Workspace} {path : Path}
    {put? : Option SourceFile} (hordered : Ordered before.files)
    (hswapped : Swapped environment before path put? after) : AlikeBut path before after where
  ordered := hordered
  ordered' := hswapped.ordered
  mem_files := fun file hpath => by
    rw [hswapped.mem_files]
    refine ⟨fun h => ?_, fun h => .inr ⟨h, hpath⟩⟩
    rcases h with hput | h
    · exact absurd (hswapped.brought file hput).path_eq hpath
    · exact h.1

/-- The index lists a file for all paths that its imports may point to. -/
theorem Indexed.mem_importersOf {workspace : Workspace}
    (hindexed : workspace.Indexed fun _ => False) {file : SourceFile}
    (hfile : file ∈ workspace.files) {plan : ModulePlan} (hplan : plan ∈ file.plans)
    {candidate : Candidate} (hcandidate : candidate ∈ plan.all) {path : Path}
    (hleads : candidate.Leads path) (hne : file.path ≠ path) :
    file.path ∈ workspace.importersOf path := by
  have hplace : file.path ∈ workspace.indexedAt candidate.path :=
    hindexed.all file hfile id candidate.path
      (List.mem_map.2 ⟨candidate, List.mem_flatMap.2 ⟨plan, hplan, hcandidate⟩, rfl⟩)
  refine Workspace.mem_importersOf.2 ⟨?_, hne⟩
  rcases hleads with rfl | hparent
  · exact .inl hplace
  · exact .inr ⟨candidate.path, hparent, hplace⟩

end Workspace

namespace Pass

/-! ### What the rounds of binding do not reach -/

open Workspace

section Unreached

variable {environment : Environment} {before after : Workspace} {pass : Pass} {path : Path}
  {passed reached : Path → Prop}
  (hindexed : pass.workspace.Indexed fun _ => False)
  (hclosed : Closed [] pass passed reached after)
  (horigin : ∀ other, passed other → ¬ reached other →
    ∀ file ∈ pass.workspace.files, file.path ≠ other)

include hindexed hclosed horigin

/-- No import of a file that is not reached may point to a path that was passed on. -/
theorem Closed.not_leads {file : SourceFile} (hfile : file ∈ pass.workspace.files)
    (hunreached : ¬ reached file.path) {plan : ModulePlan} (hplan : plan ∈ file.plans)
    {candidate : Candidate} (hcandidate : candidate ∈ plan.all) {other : Path}
    (hpassed : passed other) : ¬ candidate.Leads other := by
  intro hleads
  by_cases hpath : file.path = other
  · exact horigin other hpassed (hpath ▸ hunreached) file hfile hpath
  · exact hunreached (hclosed.importers other hpassed _
      (hindexed.mem_importersOf hfile hplan hcandidate hleads hpath))

variable (halike : AlikeBut path before pass.workspace) (hpassed : passed path)

include halike hpassed

theorem Closed.samePlaces {file : SourceFile} (hfile : file ∈ pass.workspace.files)
    (hunreached : ¬ reached file.path) {plan : ModulePlan} (hplan : plan ∈ file.plans)
    (language : Language) :
    SamePlaces (fun other => other ∈ pass.workspace.files ∧ ¬ passed other.path) pass.workspace
      before language plan where
  candidates := halike.firstPresent_eq (fun candidate hcandidate =>
    hclosed.not_leads hindexed horigin hfile hunreached hplan (List.mem_append_left _ hcandidate)
      hpassed) language
  members := halike.firstPresent_eq (fun candidate hcandidate =>
    hclosed.not_leads hindexed horigin hfile hunreached hplan (List.mem_append_right _ hcandidate)
      hpassed) language
  good := fun other hother => by
    obtain ⟨candidate, hcandidate, hpresent⟩ := mem_firstPresent hother
    obtain ⟨hmem, hleads⟩ := mem_present hpresent
    exact ⟨hmem, fun hpassed => hclosed.not_leads hindexed horigin hfile hunreached hplan
      (List.mem_append_left _ hcandidate) hpassed hleads⟩

/-- **What an import stands for is the same before and after if its file is not reached.** A search
comes only to files that were not passed on, and of these the ones that expose imports were not
reached either. -/
theorem Closed.resolveImport_eq {file : SourceFile} (hfile : file ∈ pass.workspace.files)
    (hunreached : ¬ reached file.path) {plan : ModulePlan} (hplan : plan ∈ file.plans)
    (language : Language) (fact : ImportFact) : pass.workspace.resolveImport language fact plan =
      before.resolveImport language fact plan := by
  have hothers : pass.workspace.files.filter (fun other => other.path ≠ path) =
      before.files.filter fun other => other.path ≠ path :=
    halike.filter_eq fun other hother => of_decide_eq_true hother
  refine resolveImport_eq_of_agree (pass.workspace.files.filter fun other => other.path ≠ path)
    (fun other hother => ?_) (List.length_filter_le _ _) ?_
    (fun other hother index fact plan hplanned hexposed => ?_)
    (hclosed.samePlaces hindexed horigin halike hpassed hfile hunreached hplan language) fact
  · refine List.mem_filter.2 ⟨hother.1, decide_eq_true ?_⟩
    rintro rfl
    exact hother.2 hpassed
  · rw [hothers]
    exact List.length_filter_le _ _
  · obtain ⟨hfact, hplan⟩ := SourceFile.mem_of_planned? hplanned
    have hexposes : other.exposesImports := List.any_eq_true.2 ⟨fact, hfact, hexposed⟩
    have hunreached : ¬ reached other.path := fun hreached =>
      (hclosed.exposing other hother.1 hreached hexposes).elim hother.2 List.not_mem_nil
    exact hclosed.samePlaces hindexed horigin halike hpassed hother.1 hunreached hplan _

theorem Closed.resolutions_eq {file : SourceFile} (hfile : file ∈ pass.workspace.files)
    (hunreached : ¬ reached file.path) :
    pass.workspace.resolutions file = before.resolutions file := by
  rw [resolutions, resolutions]
  refine List.map_congr_left fun entry hentry => ?_
  obtain ⟨id, fact, plan⟩ := entry
  have hplan : plan ∈ file.plans := (List.of_mem_zip (List.of_mem_zip hentry).2).2
  exact congrArg (Prod.mk id) (hclosed.resolveImport_eq hindexed horigin halike hpassed hfile
    hunreached hplan file.language fact)

end Unreached

end Pass

/-! ### Bindings -/

namespace Workspace

section Swapped

variable {environment : Environment} {stale pending : Path → Prop} {before after : Workspace}
  {path : Path} {put? : Option SourceFile}

theorem exists_of_mem_resolutions {workspace : Workspace} {file : SourceFile}
    {entry : NodeId × Binding} (hentry : entry ∈ workspace.resolutions file) :
    entry.1 ∈ file.imports ∧ ∃ fact plan,
      entry.2 = workspace.resolveImport file.language fact plan := by
  obtain ⟨⟨id, fact, plan⟩, hmem, rfl⟩ := List.mem_map.1 hentry
  exact ⟨(List.of_mem_zip hmem).1, fact, plan, rfl⟩

/-- What a file resolves to did not go when another was replaced, so its imports stay bound. -/
theorem Swapped.resolved_other (hstands : before.Stands environment stale pending)
    (hswapped : Swapped environment before path put? after)
    {file : SourceFile} (hfile : file ∈ before.files) (hpath : file.path ≠ path)
    (hsame : after.resolutions file = before.resolutions file) (hresolved : before.Resolved file) :
    after.Resolved file := by
  intro entry hentry
  obtain ⟨hid, fact, plan, hbinding⟩ := exists_of_mem_resolutions hentry
  obtain ⟨old, hold, hbound⟩ := Option.bind_eq_some_iff.1 (hresolved entry (hsame ▸ hentry))
  obtain ⟨now, hnow, hsurvives⟩ :=
    hswapped.exists_now hstands hfile hpath (SourceFile.mem_nodes_of_import hid) hold
  rw [bindingAt?, hnow, Option.bind_some]
  rcases hsurvives with ⟨keep, -, rfl⟩ | ⟨target, reason, ⟨hmem, hgone⟩, htarget, -⟩
  · rw [Node.binding?_relist, hbound]
  · have hentry : entry.2 = .resolved target := Option.some.inj (hbound.symm.trans htarget)
    obtain ⟨node, hlive, -⟩ := (hswapped.stands hstands).exists_target
      (isTarget_of_resolveImport (hbinding.symm.trans hentry))
    rw [hswapped.replaced.dead target hmem hgone] at hlive
    cases hlive

end Swapped

end Workspace

namespace Pass

section Replaced

variable {environment : Environment} {before after : Workspace} {pass : Pass} {path : Path}
  {put? : Option SourceFile} {passed reached : Path → Prop}
  (hsound : before.Sound environment)
  (hswapped : Workspace.Swapped environment before path put? pass.workspace)
  (hclosed : Closed [] pass passed reached after)
  (hcame : ∀ file ∈ pass.workspace.files, file.path = path → reached path)

include hsound hswapped hclosed hcame

/-- The imports of files that are reached are bound again, and those of the others stay bound as long
as they stand for the same. -/
theorem Closed.resolved_all (hfiles : after.files = pass.workspace.files)
    (hsame : ∀ file ∈ pass.workspace.files, ¬ reached file.path →
      pass.workspace.resolutions file = before.resolutions file)
    (hresolved : ∀ file ∈ before.files, before.Resolved file) :
    ∀ file ∈ after.files, after.Resolved file := by
  rw [hfiles]
  intro file hfile
  by_cases hreached : reached file.path
  · exact hclosed.resolved file hfile hreached
  · have hpath : file.path ≠ path := fun h => hreached (h.symm ▸ hcame file hfile h)
    have hold : file ∈ before.files :=
      ((hswapped.alikeBut hsound.ordered).mem_files file hpath).1 hfile
    have hstays := hswapped.resolved_other hsound hold hpath (hsame file hfile hreached)
      (hresolved file hold)
    intro entry hentry
    rw [Workspace.resolutions_eq_of_files hfiles] at hentry
    rw [hclosed.kept file hfile hreached _ (Workspace.exists_of_mem_resolutions hentry).1]
    exact hstays entry hentry

/-- Where the path is passed on, what an import of a file that is not reached stands for is the same. -/
theorem Closed.resolutions_eq_of_passed (hpassed : passed path)
    (horigin : ∀ other, passed other → other = path ∨ reached other) :
    ∀ file ∈ pass.workspace.files, ¬ reached file.path →
      pass.workspace.resolutions file = before.resolutions file := by
  have hindex := hswapped.indexed hsound
  have hindexed : pass.workspace.Indexed fun _ => False :=
    ⟨hindex.sorted, hindex.only, fun file hfile _ => hindex.all file hfile fun h => h.1⟩
  have habsent : ∀ other, passed other → ¬ reached other →
      ∀ file ∈ pass.workspace.files, file.path ≠ other := by
    intro other hother hunreached file hfile hpath
    have heq := (horigin other hother).resolve_right hunreached
    exact hunreached (heq ▸ hcame file hfile (hpath.trans heq))
  exact fun file hfile hunreached => hclosed.resolutions_eq hindexed habsent
    (hswapped.alikeBut hsound.ordered) hpassed hfile hunreached

end Replaced

section Converged

variable {environment : Environment} {before : Workspace} {pass : Pass} {path : Path}
  {put? : Option SourceFile} {outcome : Outcome}
  (hsound : before.Sound environment)
  (hswapped : Workspace.Swapped environment before path put? pass.workspace)
  (hbind : put?.isSome → path ∈ pass.bind)
  (hconverged : Converged environment pass outcome)
  (hresolved : ∀ file ∈ before.files, before.Resolved file)

include hswapped hbind

/-- What came at the path is bound. -/
theorem Closed.reached_of_bind {after : Workspace} {passed reached : Path → Prop}
    (hclosed : Closed [] pass passed reached after) :
    ∀ file ∈ pass.workspace.files, file.path = path → reached path := by
  intro file hfile hpath
  refine hclosed.bind path (hbind ?_)
  rcases (hswapped.mem_files file).1 hfile with hput | ⟨-, hne⟩
  · rw [hput, Option.isSome_some]
  · exact absurd hpath hne

include hsound hconverged hresolved

/-- **Propagation is complete.** When the file at one path came, went or was replaced, and the pass
passes that path on and binds what came, all imports of all files stand afterwards for what they
resolve to, if they did before. -/
theorem Converged.resolved_all (hchanged : ∀ other, other ∈ pass.changed ↔ other = path) :
    ∀ file ∈ outcome.workspace.files, outcome.workspace.Resolved file := by
  obtain ⟨passed, reached, hclosed, -⟩ := hconverged.closed
  have hcame := hclosed.reached_of_bind hswapped hbind
  have hpassed : passed path :=
    (hclosed.changed path ((hchanged path).2 rfl)).resolve_right List.not_mem_nil
  have hsame := hclosed.resolutions_eq_of_passed hsound hswapped hcame hpassed
    fun other hother => (hclosed.origin other hother).imp_left (hchanged other).1
  exact hclosed.resolved_all hsound hswapped hcame hconverged.files hsame hresolved

/-- A file that exposes imports is passed on once these are bound. -/
theorem Converged.resolved_all_of_exposes (hchanged : pass.changed = []) {put : SourceFile}
    (hput : put? = some put) (hexposes : put.exposesImports) :
    ∀ file ∈ outcome.workspace.files, outcome.workspace.Resolved file := by
  obtain ⟨passed, reached, hclosed, -⟩ := hconverged.closed
  have hcame := hclosed.reached_of_bind hswapped hbind
  have hmem : put ∈ pass.workspace.files := hswapped.mem_of_put hput
  have hpath : put.path = path := (hswapped.brought put hput).path_eq
  have hreached : reached put.path := hpath ▸ hcame put hmem hpath
  have hpassed : passed path :=
    hpath ▸ (hclosed.exposing put hmem hreached hexposes).resolve_right List.not_mem_nil
  have hsame := hclosed.resolutions_eq_of_passed hsound hswapped hcame hpassed
    fun other hother => (hclosed.origin other hother).imp_left (by simp [hchanged])
  exact hclosed.resolved_all hsound hswapped hcame hconverged.files hsame hresolved

/-- A file that looks the same to others need not be passed on. -/
theorem Converged.resolved_all_of_sameLooks
    (hlooks : Workspace.SameLooks Eq before pass.workspace) :
    ∀ file ∈ outcome.workspace.files, outcome.workspace.Resolved file := by
  obtain ⟨passed, reached, hclosed, -⟩ := hconverged.closed
  have hcame := hclosed.reached_of_bind hswapped hbind
  refine hclosed.resolved_all hsound hswapped hcame hconverged.files (fun file _ _ => ?_) hresolved
  rw [Workspace.resolutions, Workspace.resolutions]
  refine List.map_congr_left fun entry _ => ?_
  obtain ⟨id, fact, plan⟩ := entry
  exact congrArg (Prod.mk id) (hlooks.resolveImport file.language fact plan).eq.symm

end Converged

end Pass

end CodeGraph
