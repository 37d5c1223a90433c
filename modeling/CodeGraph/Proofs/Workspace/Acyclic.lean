import CodeGraph.Proofs.Workspace.Ending

/-!
# Looking at files again

A search that passes over nothing finds nothing in a file that it looked at in vain, as long as it is
asked for the same name. So when no file is asked for two names, and no file is come to while it is
still open, passing over what has been seen makes no difference.
-/

namespace CodeGraph.Workspace

variable {workspace : Workspace} {once : Bool} {quest : Quest} {seen : List Path}
  {answer : Option Binding} {stops : List Stop}

/-- Nothing is found in a file that is asked for a name. -/
def Fruitless (workspace : Workspace) (stop : Stop) : Prop :=
  ∃ stops, workspace.Finds false (.along (.file stop.file stop.name)) [] none stops

/-- No file is asked for two names. -/
def Steady (stops : List Stop) : Prop :=
  ∀ stop ∈ stops, ∀ other ∈ stops, stop.file.path = other.file.path → stop.name = other.name

/-- A search that passes over nothing does not depend on what has been seen. -/
theorem Finds.anywhere (hfinds : workspace.Finds false quest seen answer stops)
    (past : List Path) : workspace.Finds false quest past answer stops := by
  induction hfinds generalizing past with
  | ended => exact .ended
  | hit _ ih => exact .hit (ih past)
  | miss _ _ ih ihrest => exact .miss (ih past) (ihrest _)
  | skipped honce _ => cases honce
  | nameless _ hname => exact .nameless nofun hname
  | declared _ hname htop hid => exact .declared nofun hname htop hid
  | opened _ hname htop _ ih => exact .opened nofun hname htop (ih _)
  | unbound hbound => exact .unbound hbound
  | hidden hbound hplanned hhidden => exact .hidden hbound hplanned hhidden
  | followed hbound hplanned hexposed _ ih => exact .followed hbound hplanned hexposed (ih past)
  | closed hplanned hhidden => exact .closed hplanned hhidden
  | reached hplanned hexposed _ ih => exact .reached hplanned hexposed (ih past)
  | absent hplanned hfiles hmember => exact .absent hplanned hfiles hmember
  | submodule hplanned hfiles hmember => exact .submodule hplanned hfiles hmember
  | whole hplanned hfiles hmember => exact .whole hplanned hfiles hmember
  | asked hplanned hfiles hmember _ ih => exact .asked hplanned hfiles hmember (ih past)

theorem found?_found? (binding : Binding) :
    binding.found?.bind Binding.found? = binding.found? := by
  cases binding <;> rfl

/-- A search that finds nothing has stopped at all files in vain. By induction on the rules. -/
theorem Finds.fruitless (hfinds : workspace.Finds false quest seen answer stops)
    (hnothing : answer.bind Binding.found? = none) : ∀ stop ∈ stops, workspace.Fruitless stop := by
  induction hfinds with
  | hit _ ih | reached _ _ _ ih => exact ih hnothing
  | miss _ _ ih ihrest => exact List.forall_mem_append.2 ⟨ihrest hnothing, ih rfl⟩
  | nameless _ hname => simpa using ⟨_, .nameless nofun hname⟩
  | declared => cases hnothing
  | @opened file name _ sought answer stops _ hname htop hrest ih =>
    refine List.forall_mem_append.2 ⟨ih hnothing, ?_⟩
    have hnone : answer = none := by
      cases answer with
      | none => rfl
      | some binding =>
        cases binding with
        | unresolved reason => exact absurd rfl (hrest.ne_unresolved rfl reason)
        | resolved | external => cases hnothing
    subst hnone
    simpa using ⟨_, .opened nofun hname htop (hrest.anywhere _)⟩
  | followed _ _ _ _ ih => exact ih ((found?_found? _).symm.trans hnothing)
  | @asked _ _ _ _ _ _ _ _ answer _ _ _ _ _ ih =>
    cases answer with
    | none => exact ih rfl
    | some binding => exact ih hnothing
  | _ => simp

/-- The outcome of a search that passes over nothing, when it ends within some steps. -/
def freely (workspace : Workspace) : Nat → Quest → Option (Option Binding × List Stop)
  | 0, _ => none
  | _ + 1, .first [] => some (none, [])
  | fuel + 1, .first (trail :: rest) => do
    match ← freely workspace fuel (.along trail) with
    | (some binding, stops) => return (some binding, stops)
    | (none, stops) =>
      let (answer, later) ← freely workspace fuel (.first rest)
      return (answer, later ++ stops)
  | fuel + 1, .along (.file file name) =>
    match soughtName? file name with
    | none => some (none, [⟨file, name⟩])
    | some sought =>
      match file.facts.topLevelSymbol? sought with
      | some index => do return (some (.resolved (← file.symbol? index)), [⟨file, name⟩])
      | none => do
        let (answer, stops) ← freely workspace fuel (.first (trailsFrom file sought))
        return (answer, stops ++ [⟨file, name⟩])
  | fuel + 1, .along (.named file name) =>
    match file.facts.rootImport? name with
    | none => some (none, [])
    | some index => do
      let (fact, _) ← file.planned? index
      if fact.isExposed file.language then
        let (answer, stops) ← freely workspace fuel (.imported file index)
        return (answer.bind Binding.found?, stops)
      else return (none, [])
  | fuel + 1, .along (.wildcard file name index) => do
    let (fact, plan) ← file.planned? index
    if fact.isExposed file.language then
      freely workspace fuel (.member (workspace.firstPresent file.language plan.candidates) name)
    else return (none, [])
  | fuel + 1, .imported file index => do
    let (fact, plan) ← file.planned? index
    let submodule := workspace.submodule? file.language plan
    match workspace.firstPresent file.language plan.candidates, fact.member, fact.sought? with
    | [], none, _ => return (some plan.fallback.binding, [])
    | [], some _, _ => return (some (submodule.getD plan.fallback.binding), [])
    | target :: _, _, none => return (some (.resolved target.node), [])
    | target :: rest, _, some member =>
      let (answer, stops) ← freely workspace fuel (.member (target :: rest) member)
      let missing := Binding.unresolved (member ++ " not found in " ++ fact.specifier)
      return (some (answer.getD (submodule.getD missing)), stops)

/-- What is found within some steps is derived by the rules. By induction on the steps. -/
theorem finds_of_freely {fuel : Nat} (hfreely : workspace.freely fuel quest = some (answer, stops))
    (seen : List Path) : workspace.Finds false quest seen answer stops := by
  induction fuel generalizing quest answer stops seen with
  | zero => cases hfreely
  | succ fuel ih =>
    cases quest with
    | first trails =>
      cases trails with
      | nil =>
        cases hfreely
        exact .ended
      | cons trail rest =>
        obtain ⟨⟨found, stops'⟩, hfirst, hrest⟩ := Option.bind_eq_some_iff.1 hfreely
        cases found with
        | some binding =>
          cases hrest
          exact .hit (ih hfirst seen)
        | none =>
          obtain ⟨⟨found, later⟩, hlater, hrest⟩ := Option.bind_eq_some_iff.1 hrest
          cases hrest
          exact .miss (ih hfirst seen) (ih hlater _)
    | along trail =>
      cases trail with
      | file file name =>
        rw [freely] at hfreely
        split at hfreely
        · rename_i hname
          cases hfreely
          exact .nameless nofun hname
        · rename_i sought hname
          split at hfreely
          · rename_i index htop
            obtain ⟨id, hid, hrest⟩ := Option.bind_eq_some_iff.1 hfreely
            cases hrest
            exact .declared nofun hname htop hid
          · rename_i htop
            obtain ⟨⟨found, inner⟩, hinner, hrest⟩ := Option.bind_eq_some_iff.1 hfreely
            cases hrest
            exact .opened nofun hname htop (ih hinner _)
      | named file name =>
        rw [freely] at hfreely
        split at hfreely
        · rename_i hbound
          cases hfreely
          exact .unbound hbound
        · rename_i index hbound
          obtain ⟨⟨fact, plan⟩, hplanned, hrest⟩ := Option.bind_eq_some_iff.1 hfreely
          simp only at hrest
          split at hrest
          · rename_i hexposed
            obtain ⟨⟨found, inner⟩, hinner, hrest⟩ := Option.bind_eq_some_iff.1 hrest
            cases hrest
            have himport := ih hinner seen
            obtain ⟨binding, rfl⟩ := himport.exists_of_imported
            exact .followed hbound hplanned hexposed himport
          · rename_i hhidden
            cases hrest
            exact .hidden hbound hplanned (Bool.eq_false_iff.2 hhidden)
      | wildcard file name index =>
        obtain ⟨⟨fact, plan⟩, hplanned, hrest⟩ := Option.bind_eq_some_iff.1 hfreely
        simp only at hrest
        split at hrest
        · rename_i hexposed
          exact .reached hplanned hexposed (ih hrest seen)
        · rename_i hhidden
          cases hrest
          exact .closed hplanned (Bool.eq_false_iff.2 hhidden)
    | imported file index =>
      obtain ⟨⟨fact, plan⟩, hplanned, hrest⟩ := Option.bind_eq_some_iff.1 hfreely
      simp only at hrest
      split at hrest
      · rename_i hfiles hmember
        cases hrest
        exact .absent hplanned hfiles hmember
      · rename_i hfiles hmember
        cases hrest
        exact .submodule hplanned hfiles hmember
      · rename_i hfiles hmember
        cases hrest
        exact .whole hplanned hfiles hmember
      · rename_i hfiles hmember
        obtain ⟨⟨found, inner⟩, hinner, hrest⟩ := Option.bind_eq_some_iff.1 hrest
        cases hrest
        exact .asked hplanned hfiles hmember (ih hinner seen)

/-- Imports that all lead down a ranking lead in no circle. -/
theorem acyclic_of_rank (rank : Path → Nat)
    (hrank : ∀ file ∈ workspace.files, ∀ entry ∈ file.facts.imports.zip file.plans,
      ∀ candidate ∈ entry.2.all, ∀ next ∈ workspace.present file.language candidate,
        rank next.path < rank file.path) (file : SourceFile) :
    ¬ Relation.TransGen workspace.LeadsTo file file := by
  have hstep : ∀ file next, file ∈ workspace.files → workspace.LeadsTo file next →
      rank next.path < rank file.path := by
    rintro file next hfile ⟨index, -, fact, plan, hplanned, -, candidate, hcandidate, hnext⟩
    obtain ⟨found, hfact, hrest⟩ := Option.bind_eq_some_iff.1 hplanned
    obtain ⟨place, hplan, hrest⟩ := Option.bind_eq_some_iff.1 hrest
    cases hrest
    have hentry : (file.facts.imports.zip file.plans)[index]? = some (fact, plan) :=
      List.getElem?_zip_eq_some.2 ⟨hfact, hplan⟩
    exact hrank file hfile _ (List.mem_of_getElem? hentry) candidate hcandidate next hnext
  have hchain : ∀ first last, first ∈ workspace.files →
      Relation.TransGen workspace.LeadsTo first last →
      last ∈ workspace.files ∧ rank last.path < rank first.path := by
    intro first last hfirst hchain
    induction hchain with
    | single hleads => exact ⟨hleads.mem_files, hstep _ _ hfirst hleads⟩
    | tail _ hleads ih => exact ⟨hleads.mem_files, (hstep _ _ ih.1 hleads).trans ih.2⟩
  intro hcycle
  have hfile : file ∈ workspace.files := by
    cases hcycle with
    | single hleads => exact hleads.mem_files
    | tail _ hleads => exact hleads.mem_files
  exact (hchain file file hfile hcycle).2.false

/-! ### Passing over what has been seen -/

theorem append_subset_append {first second first' second' : List Stop} (hfirst : first ⊆ first')
    (hsecond : second ⊆ second') : first ++ second ⊆ first' ++ second' :=
  List.append_subset_of_subset_of_subset (fun _ h => List.mem_append_left _ (hfirst h))
    fun _ h => List.mem_append_right _ (hsecond h)

/-- What has been seen by `past` is of no use to a search that stops at these files. -/
structure Past (workspace : Workspace) (stops : List Stop) (past : List Path) : Prop where
  steady : Steady stops
  files : ∀ stop ∈ stops, stop.file ∈ workspace.files
  vain : ∀ stop ∈ stops, stop.file.path ∈ past → workspace.Fruitless stop

theorem Past.mono {past : List Path} (hpast : workspace.Past stops past) {part : List Stop}
    (hpart : part ⊆ stops) : workspace.Past part past where
  steady := fun stop hstop other hother => hpast.steady stop (hpart hstop) other (hpart hother)
  files := fun stop hstop => hpast.files stop (hpart hstop)
  vain := fun stop hstop => hpast.vain stop (hpart hstop)

section Ordered

variable (hordered : Ordered workspace.files)

include hordered

/-- The files at which a search has stopped in vain can be passed over by what follows. -/
theorem Past.after {past : List Path} {later : List Stop}
    (hpast : workspace.Past (later ++ stops) past)
    (hvain : ∀ stop ∈ stops, workspace.Fruitless stop) {done : List Stop} (hdone : done ⊆ stops) :
    workspace.Past later (seenAfter done past) where
  steady := (hpast.mono (List.subset_append_left later stops)).steady
  files := (hpast.mono (List.subset_append_left later stops)).files
  vain stop hstop hseen := by
    have hmem : stop ∈ later ++ stops := List.mem_append_left _ hstop
    rcases List.mem_append.1 hseen with hseen | hseen
    · obtain ⟨other, hother, hpath⟩ := List.mem_map.1 hseen
      have hmem' : other ∈ later ++ stops := List.mem_append_right _ (hdone hother)
      have hfile := hordered.eq_of_path (hpast.files other hmem') (hpast.files stop hmem) hpath
      have hname := hpast.steady other hmem' stop hmem hpath
      obtain ⟨file, name⟩ := stop
      obtain ⟨file', name'⟩ := other
      obtain rfl : file' = file := hfile
      obtain rfl : name' = name := hname
      exact hvain _ (hdone hother)
    · exact hpast.vain stop hmem hseen

/-- A file that no exposed import leads back to is not come to while it is open. -/
theorem Past.opened {past : List Path} {file : SourceFile} {name sought : String}
    (hacyclic : ¬ Relation.TransGen workspace.LeadsTo file file)
    (hpast : workspace.Past (stops ++ [⟨file, name⟩]) past)
    (harrives : workspace.Arrives (.first (trailsFrom file sought)) answer stops) :
    workspace.Past stops (file.path :: past) where
  steady := (hpast.mono (List.subset_append_left _ _)).steady
  files := (hpast.mono (List.subset_append_left _ _)).files
  vain stop hstop hseen := by
    have hmem : stop ∈ stops ++ [⟨file, name⟩] := List.mem_append_left _ hstop
    rcases List.mem_cons.1 hseen with hpath | hseen
    · have hfile : stop.file = file := hordered.eq_of_path (hpast.files stop hmem)
        (hpast.files ⟨file, name⟩ (List.mem_append_right _ List.mem_cons_self)) hpath
      obtain ⟨first, hfirst, hchain⟩ := harrives.stops stop hstop
      rw [hfile] at hchain
      exact absurd (.head' (leadsTo_of_starts_trailsFrom hfirst) hchain) hacyclic
    · exact hpast.vain stop hmem hseen

/-- **Passing over what has been seen changes nothing** where imports lead in no circle and no file is
asked for two names. By induction on the rules of the search that passes over nothing. -/
theorem Finds.once_of_steady (hacyclic : ∀ file, ¬ Relation.TransGen workspace.LeadsTo file file)
    (hfinds : workspace.Finds false quest seen answer stops) {past : List Path}
    (hpast : workspace.Past stops past) :
    ∃ done, workspace.Finds true quest past answer done ∧ done ⊆ stops := by
  induction hfinds generalizing past with
  | ended => exact ⟨[], .ended, List.Subset.refl _⟩
  | hit _ ih =>
    obtain ⟨done, hdone, hsub⟩ := ih hpast
    exact ⟨done, .hit hdone, hsub⟩
  | miss hnone _ ih ihrest =>
    obtain ⟨done, hdone, hsub⟩ := ih (hpast.mono (List.subset_append_right _ _))
    obtain ⟨later, hlater, hsub'⟩ := ihrest (hpast.after hordered (hnone.fruitless rfl) hsub)
    exact ⟨later ++ done, .miss hdone hlater, append_subset_append hsub' hsub⟩
  | skipped honce _ => cases honce
  | @nameless file name _ _ hname =>
    by_cases hseen : file.path ∈ past
    · exact ⟨[], .skipped rfl hseen, List.nil_subset _⟩
    · exact ⟨_, .nameless (fun _ => hseen) hname, List.Subset.refl _⟩
  | @declared file name _ _ _ _ _ hname htop hid =>
    by_cases hseen : file.path ∈ past
    · obtain ⟨_, hvain⟩ := hpast.vain ⟨file, name⟩ List.mem_cons_self hseen
      cases (hvain.unique (.declared nofun hname htop hid)).1
    · exact ⟨_, .declared (fun _ => hseen) hname htop hid, List.Subset.refl _⟩
  | @opened file name _ _ _ stops _ hname htop hrest ih =>
    by_cases hseen : file.path ∈ past
    · obtain ⟨_, hvain⟩ := hpast.vain ⟨file, name⟩ (List.mem_append_right _ List.mem_cons_self) hseen
      obtain ⟨rfl, -⟩ := hvain.unique (.opened nofun hname htop (hrest.anywhere _))
      exact ⟨[], .skipped rfl hseen, List.nil_subset _⟩
    · obtain ⟨done, hdone, hsub⟩ := ih (hpast.opened hordered (hacyclic file) hrest.arrives)
      exact ⟨_, .opened (fun _ => hseen) hname htop hdone,
        append_subset_append hsub (List.Subset.refl _)⟩
  | unbound hbound => exact ⟨[], .unbound hbound, List.Subset.refl _⟩
  | hidden hbound hplanned hhidden =>
    exact ⟨[], .hidden hbound hplanned hhidden, List.Subset.refl _⟩
  | followed hbound hplanned hexposed _ ih =>
    obtain ⟨done, hdone, hsub⟩ := ih hpast
    exact ⟨done, .followed hbound hplanned hexposed hdone, hsub⟩
  | closed hplanned hhidden => exact ⟨[], .closed hplanned hhidden, List.Subset.refl _⟩
  | reached hplanned hexposed _ ih =>
    obtain ⟨done, hdone, hsub⟩ := ih hpast
    exact ⟨done, .reached hplanned hexposed hdone, hsub⟩
  | absent hplanned hfiles hmember =>
    exact ⟨[], .absent hplanned hfiles hmember, List.Subset.refl _⟩
  | submodule hplanned hfiles hmember =>
    exact ⟨[], .submodule hplanned hfiles hmember, List.Subset.refl _⟩
  | whole hplanned hfiles hmember =>
    exact ⟨[], .whole hplanned hfiles hmember, List.Subset.refl _⟩
  | asked hplanned hfiles hmember _ ih =>
    obtain ⟨done, hdone, hsub⟩ := ih hpast
    exact ⟨done, .asked hplanned hfiles hmember hdone, hsub⟩

end Ordered

/-- **An import stands for what a search finds that passes over nothing.** Where the exposed imports
lead in no circle, that search has one outcome, and the import resolves to it if no file is asked for two
names. -/
theorem Stands.resolveImport_eq_of_steady {environment : Environment} {stale pending : Path → Prop}
    (hstands : workspace.Stands environment stale pending)
    (hacyclic : ∀ file, ¬ Relation.TransGen workspace.LeadsTo file file) {file : SourceFile}
    {index : Nat} {fact : ImportFact} {plan : ModulePlan}
    (hplanned : file.planned? index = some (fact, plan)) :
    ∃ binding stops, (∀ answer others, workspace.Finds false (.imported file index) [] answer others ↔
        answer = some binding ∧ others = stops) ∧
      (Steady stops → workspace.resolveImport file.language fact plan = binding) := by
  have hends : ∀ next, workspace.Offers file.language plan next → workspace.EndsAt false [] next :=
    fun _ hoffers => hstands.endsAt_of_acyclic hacyclic (mem_files_of_offers hoffers) []
  obtain ⟨answer, stops, hfinds⟩ := ends_imported hplanned hends [] (List.Subset.refl _)
  have hfiles : ∀ stop ∈ stops, stop.file ∈ workspace.files := fun stop hstop =>
    (hfinds.arrives.stops stop hstop).mem_files fun first hfirst => by
      obtain ⟨_, _, -, hoffers⟩ := hfirst
      exact mem_files_of_offers hoffers
  obtain ⟨binding, rfl⟩ := hfinds.exists_of_imported
  refine ⟨binding, stops, fun other others => ⟨hfinds.unique, ?_⟩, fun hsteady => ?_⟩
  · rintro ⟨rfl, rfl⟩
    exact hfinds
  · have hpast : workspace.Past stops [] := ⟨hsteady, hfiles, by simp⟩
    obtain ⟨done, hdone, -⟩ := hfinds.once_of_steady hstands.ordered hacyclic hpast
    exact (Option.some.inj (hdone.eq_resolveImport hplanned)).symm

end CodeGraph.Workspace
