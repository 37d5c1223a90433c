import CodeGraph.Proofs.Workspace.Resolve

/-!
# Searches that agree

A search for a member looks at the candidates of one import and then at the exposed imports of the
files that it finds, each once. So two workspaces answer alike when they have the same files at all
places where the search can come to, however deep each of them may search, as long as that is deeper
than there are such files.
-/

namespace CodeGraph.Workspace

/-- Two searches with the same outcome for all that has seen `floor`, which only see more. -/
def Concur {α : Type} (floor : List Path) (first second : Seeking α) : Prop :=
  ∀ seen, floor ⊆ seen → first seen = second seen ∧ seen ⊆ (first seen).2

/-- Two searches for members that concur among good files. -/
def Agree (good : SourceFile → Prop) (floor : List Path) (first second : MemberSearch) : Prop :=
  ∀ files, (∀ file ∈ files, good file) → ∀ name, Concur floor (first files name) (second files name)

/-- Two workspaces with the same files at the places of a plan, and good ones where it looks for the
module. -/
structure SamePlaces (good : SourceFile → Prop) (left right : Workspace) (language : Language)
    (plan : ModulePlan) : Prop where
  candidates : left.firstPresent language plan.candidates =
    right.firstPresent language plan.candidates
  members : left.firstPresent language plan.memberCandidates =
    right.firstPresent language plan.memberCandidates
  good : ∀ file ∈ left.firstPresent language plan.candidates, good file

section Concur

variable {α β : Type} {floor : List Path}

theorem concur_none (floor : List Path) :
    Concur floor (fun seen => ((none : Option α), seen)) fun seen => (none, seen) :=
  fun _ _ => ⟨rfl, fun _ h => h⟩

theorem concur_firstFound {items : List α} {first second : α → Seeking (Option β)}
    (hitems : ∀ item ∈ items, Concur floor (first item) (second item)) :
    Concur floor (firstFound first items) (firstFound second items) := by
  induction items with
  | nil => exact concur_none floor
  | cons item items ih =>
    intro seen hseen
    obtain ⟨hsame, hgrows⟩ := hitems item List.mem_cons_self seen hseen
    have hrest := ih fun other hother => hitems other (List.mem_cons_of_mem _ hother)
    rw [firstFound, firstFound, ← hsame]
    revert hgrows
    generalize first item seen = answer
    intro hgrows
    obtain ⟨found, later⟩ := answer
    cases found with
    | some found => exact ⟨rfl, hgrows⟩
    | none =>
      obtain ⟨hsame', hgrows'⟩ := hrest later fun _ h => hgrows (hseen h)
      exact ⟨hsame', fun _ h => hgrows' (hgrows h)⟩

end Concur

section Agree

variable {good : SourceFile → Prop} {floor : List Path} {left right : Workspace}
  {first second : MemberSearch}

theorem concur_resolveWith {language : Language} {plan : ModulePlan}
    (hplaces : SamePlaces good left right language plan) (hagree : Agree good floor first second)
    (fact : ImportFact) : Concur floor (left.resolveWith first language fact plan)
      (right.resolveWith second language fact plan) := by
  intro seen hseen
  have hgood := hplaces.good
  have hsubmodule : left.submodule? language plan = right.submodule? language plan := by
    rw [submodule?, hplaces.members, submodule?]
  rw [resolveWith, resolveWith, ← hplaces.candidates, ← hsubmodule]
  revert hgood
  generalize left.firstPresent language plan.candidates = files
  intro hgood
  cases files with
  | nil => cases fact.member <;> exact ⟨rfl, fun _ h => h⟩
  | cons file files =>
    cases fact.member with
    | none => exact ⟨rfl, fun _ h => h⟩
    | some member =>
      simp only
      split
      · exact ⟨rfl, fun _ h => h⟩
      · obtain ⟨hsame, hgrows⟩ := hagree (file :: files) hgood member seen hseen
        rw [← hsame]
        revert hgrows
        generalize first (file :: files) member seen = answer
        intro hgrows
        obtain ⟨found, later⟩ := answer
        cases found <;> exact ⟨rfl, hgrows⟩

variable {file : SourceFile}
  (hopen : ∀ (index : Nat) fact plan, file.planned? index = some (fact, plan) →
    fact.isExposed file.language → SamePlaces good left right file.language plan)
  (hagree : Agree good floor first second)

include hopen hagree

theorem concur_searchImport (name : String) : Concur floor (left.searchImport first file name)
    (right.searchImport second file name) := by
  intro seen hseen
  rw [searchImport, searchImport]
  dsimp only
  split
  · exact ⟨rfl, fun _ h => h⟩
  · rename_i fact plan hbound
    obtain ⟨scope, -, hbound⟩ := Option.bind_eq_some_iff.1 hbound
    obtain ⟨index, -, hbound⟩ := Option.bind_eq_some_iff.1 hbound
    obtain ⟨⟨found, place⟩, hplanned, hbound⟩ := Option.bind_eq_some_iff.1 hbound
    obtain ⟨_, hexposed, hbound⟩ := Option.bind_eq_some_iff.1 hbound
    obtain ⟨rfl, rfl⟩ := Prod.mk.inj (Option.some.inj hbound)
    have hshown : found.isExposed file.language = true := by
      simpa [guard] using hexposed
    obtain ⟨hsame, hgrows⟩ := concur_resolveWith (hopen index found place hplanned hshown) hagree
      found seen hseen
    rw [← hsame]
    revert hgrows
    generalize left.resolveWith first file.language found place seen = answer
    intro hgrows
    obtain ⟨binding, later⟩ := answer
    cases binding <;> exact ⟨rfl, hgrows⟩

theorem concur_searchWildcard (name : String) (index : Nat) :
    Concur floor (left.searchWildcard first file name index)
      (right.searchWildcard second file name index) := by
  intro seen hseen
  rw [searchWildcard, searchWildcard]
  split
  · exact ⟨rfl, fun _ h => h⟩
  · rename_i fact plan hplanned
    split
    · rename_i hexposed
      have hplaces := hopen index fact plan hplanned hexposed
      rw [← hplaces.candidates]
      exact hagree _ hplaces.good name seen hseen
    · exact ⟨rfl, fun _ h => h⟩

end Agree

/-- A file is looked at with searches that agree once the file has been seen. -/
theorem concur_searchFile {good : SourceFile → Prop} {floor : List Path} {left right : Workspace}
    {first second : MemberSearch} {file : SourceFile}
    (hopen : ∀ (index : Nat) fact plan, file.planned? index = some (fact, plan) →
      fact.isExposed file.language → SamePlaces good left right file.language plan)
    (hagree : file.path ∉ floor → Agree good (file.path :: floor) first second) (name : String) :
    Concur floor (left.searchFile first name file) (right.searchFile second name file) := by
  intro seen hseen
  rw [searchFile, searchFile]
  split
  · exact ⟨rfl, fun _ h => h⟩
  · rename_i hunseen
    have hmore : file.path :: floor ⊆ file.path :: seen := List.cons_subset_cons _ hseen
    have hgrows : seen ⊆ file.path :: seen := List.subset_cons_self _ _
    have hagree := hagree fun h => hunseen (hseen h)
    dsimp only
    split
    · exact ⟨rfl, hgrows⟩
    · rename_i sought _
      split
      · exact ⟨rfl, hgrows⟩
      · obtain ⟨hsame, hlater⟩ := concur_searchImport hopen hagree sought _ hmore
        rw [← hsame]
        revert hlater
        generalize left.searchImport first file sought (file.path :: seen) = answer
        intro hlater
        obtain ⟨found, later⟩ := answer
        cases found with
        | some found => exact ⟨rfl, fun _ h => hlater (hgrows h)⟩
        | none =>
          obtain ⟨hsame', hlater'⟩ := concur_firstFound (fun index _ =>
            concur_searchWildcard hopen hagree sought index) later fun _ h => hlater (hmore h)
          exact ⟨hsame', fun _ h => hlater' (hlater (hgrows h))⟩

/-- Files that have not been seen. -/
def unseen (files : List SourceFile) (seen : List Path) : List SourceFile :=
  files.filter fun file => file.path ∉ seen

theorem unseen_sublist {files : List SourceFile} {seen more : List Path} (hmore : seen ⊆ more) :
    (unseen files more).Sublist (unseen files seen) := by
  refine List.monotone_filter_right files fun file hfile => ?_
  rw [decide_eq_true_eq] at hfile ⊢
  exact fun h => hfile (hmore h)

theorem length_unseen_lt {files : List SourceFile} {seen more : List Path} {file : SourceFile}
    (hmore : seen ⊆ more) (hfile : file ∈ files) (hunseen : file.path ∉ seen)
    (hseen : file.path ∈ more) : (unseen files more).length < (unseen files seen).length := by
  have hsub : (unseen files more).Sublist (unseen files seen) := unseen_sublist hmore
  refine lt_of_le_of_ne hsub.length_le fun hlength => ?_
  have hmem : file ∈ unseen files seen := List.mem_filter.2 ⟨hfile, by simpa using hunseen⟩
  rw [← hsub.eq_of_length hlength] at hmem
  exact absurd hseen (by simpa using (List.mem_filter.1 hmem).2)

/-- **Searches agree that are deeper than there are good files to see**, in workspaces with the same
files wherever the exposed imports of good files may point. By induction on the depth. -/
theorem agree_searchWithin {good : SourceFile → Prop} {left right : Workspace}
    (files : List SourceFile) (hgood : ∀ file, good file → file ∈ files)
    (hopen : ∀ file, good file → ∀ (index : Nat) fact plan, file.planned? index = some (fact, plan) →
      fact.isExposed file.language → SamePlaces good left right file.language plan)
    (depth depth' : Nat) (floor : List Path) (hdepth : (unseen files floor).length < depth)
    (hdepth' : (unseen files floor).length < depth') :
    Agree good floor (left.searchWithin depth) (right.searchWithin depth') := by
  induction depth generalizing depth' floor with
  | zero => exact absurd hdepth (Nat.not_lt_zero _)
  | succ depth ih =>
    obtain ⟨depth', rfl⟩ := Nat.exists_eq_succ_of_ne_zero (Nat.ne_zero_of_lt hdepth')
    intro found hfound name
    refine concur_firstFound fun file hfile => ?_
    have hfileGood := hfound file hfile
    refine concur_searchFile (hopen file hfileGood) (fun hunseen => ?_) name
    have hlt := length_unseen_lt (List.subset_cons_self file.path floor) (hgood file hfileGood)
      hunseen List.mem_cons_self
    exact ih depth' (file.path :: floor) (by omega) (by omega)

/-- **An import stands for the same in both workspaces** when they have the same files at its places
and at all that the search may come to. -/
theorem resolveImport_eq_of_agree {good : SourceFile → Prop} {left right : Workspace}
    (files : List SourceFile) (hgood : ∀ file, good file → file ∈ files)
    (hleft : files.length ≤ left.files.length) (hright : files.length ≤ right.files.length)
    (hopen : ∀ file, good file → ∀ (index : Nat) fact plan, file.planned? index = some (fact, plan) →
      fact.isExposed file.language → SamePlaces good left right file.language plan)
    {language : Language} {plan : ModulePlan} (hplaces : SamePlaces good left right language plan)
    (fact : ImportFact) : left.resolveImport language fact plan =
      right.resolveImport language fact plan := by
  have hunseen : (unseen files []).length ≤ files.length := List.length_filter_le _ _
  have hagree : Agree good [] left.searchMember right.searchMember :=
    agree_searchWithin files hgood hopen _ _ [] (by omega) (by omega)
  have hsame := (concur_resolveWith hplaces hagree fact [] (List.Subset.refl _)).1
  rw [resolveImport, resolveImport, hsame]

end CodeGraph.Workspace
