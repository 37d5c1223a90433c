import CodeGraph.Proofs.Workspace.Quest
import Mathlib.Data.Set.Finite.Basic

/-!
# Every search ends

A search that passes over what it has seen ends, since each file that it opens leaves fewer to open. One
that does not pass over anything ends when the exposed imports lead to no file from itself. What the
first one finds is what an import of the workspace stands for.
-/

namespace CodeGraph.Workspace

variable {workspace : Workspace}

/-! ### Ends of searches -/

/-- A search that has seen some files, and maybe more, comes to an end. -/
def Ends (workspace : Workspace) (once : Bool) (floor : List Path) (quest : Quest) : Prop :=
  ∀ seen, floor ⊆ seen → ∃ answer stops, workspace.Finds once quest seen answer stops

section Ends

variable {once : Bool} {floor : List Path}

theorem subset_seenAfter {seen : List Path} (stops : List Stop) (hfloor : floor ⊆ seen) :
    floor ⊆ seenAfter stops seen :=
  fun _ hpath => List.mem_append_right _ (hfloor hpath)

theorem ends_first {trails : List Trail}
    (htrails : ∀ trail ∈ trails, workspace.Ends once floor (.along trail)) :
    workspace.Ends once floor (.first trails) := by
  induction trails with
  | nil => exact fun seen _ => ⟨none, [], .ended⟩
  | cons trail rest ih =>
    intro seen hfloor
    obtain ⟨answer, stops, hfinds⟩ := htrails trail List.mem_cons_self seen hfloor
    cases answer with
    | some binding => exact ⟨some binding, stops, .hit hfinds⟩
    | none =>
      obtain ⟨answer, later, hrest⟩ := ih (fun other hother =>
        htrails other (List.mem_cons_of_mem _ hother)) _ (subset_seenAfter stops hfloor)
      exact ⟨answer, later ++ stops, .miss hfinds hrest⟩

/-- Asking any of these files for a name comes to an end. -/
def EndsAt (workspace : Workspace) (once : Bool) (floor : List Path) (file : SourceFile) : Prop :=
  ∀ name, workspace.Ends once floor (.along (.file file name))

theorem ends_member {files : List SourceFile}
    (hfiles : ∀ file ∈ files, workspace.EndsAt once floor file) (name : String) :
    workspace.Ends once floor (.member files name) := by
  refine ends_first fun trail htrail => ?_
  obtain ⟨file, hfile, rfl⟩ := List.mem_map.1 htrail
  exact hfiles file hfile name

theorem ends_imported {file : SourceFile} {index : Nat} {fact : ImportFact} {plan : ModulePlan}
    (hplanned : file.planned? index = some (fact, plan))
    (hnext : ∀ next, workspace.Offers file.language plan next →
      workspace.EndsAt once floor next) :
    workspace.Ends once floor (.imported file index) := by
  intro seen hfloor
  cases hfiles : workspace.firstPresent file.language plan.candidates with
  | nil =>
    cases hmember : fact.member with
    | none => exact ⟨_, _, .absent hplanned hfiles hmember⟩
    | some member => exact ⟨_, _, .submodule hplanned hfiles hmember⟩
  | cons target rest =>
    cases hsought : fact.sought? with
    | none => exact ⟨_, _, .whole hplanned hfiles hsought⟩
    | some member =>
      have htargets : ∀ next ∈ target :: rest, workspace.EndsAt once floor next :=
        fun next hmem => hnext next (offers_of_mem_candidates (hfiles ▸ hmem))
      obtain ⟨answer, stops, hfinds⟩ := ends_member htargets member seen hfloor
      exact ⟨_, _, .asked hplanned hfiles hsought hfinds⟩

/-- The imports that a file binds at its top level are there, each with its plan. -/
theorem exists_planned {file : SourceFile} (hparallel : file.Parallel) {index : Nat}
    (hindex : index < file.facts.imports.length) :
    ∃ fact plan, file.planned? index = some (fact, plan) := by
  have hplan : index < file.plans.length := hparallel.plans ▸ hindex
  refine ⟨file.facts.imports[index], file.plans[index], ?_⟩
  rw [SourceFile.planned?, List.getElem?_eq_getElem hindex, List.getElem?_eq_getElem hplan]
  rfl

theorem lt_of_rootImport? {file : SourceFile} (hparallel : file.Parallel) {name : String}
    {index : Nat} (hbound : file.facts.rootImport? name = some index) :
    index < file.facts.imports.length := by
  obtain ⟨scope, hscope, himport⟩ := Option.bind_eq_some_iff.1 hbound
  obtain ⟨fact, hfact, -⟩ := (hparallel.formed.scopes _ scope hscope).importing name index himport
  exact (List.getElem?_eq_some_iff.1 hfact).1

theorem lt_of_mem_wildcardsOf {file : SourceFile} (hparallel : file.Parallel) {index : Nat}
    (hindex : index ∈ wildcardsOf file) : index < file.facts.imports.length := by
  rw [wildcardsOf] at hindex
  cases hscope : file.facts.scopes.rootScope? with
  | none =>
    rw [hscope] at hindex
    cases hindex
  | some scope =>
    rw [hscope] at hindex
    obtain ⟨fact, hfact, -⟩ := (hparallel.formed.scopes _ scope hscope).wildcard index hindex
    exact (List.getElem?_eq_some_iff.1 hfact).1

/-- A file whose exposed imports lead to files where a search ends. -/
theorem ends_trailsFrom {file : SourceFile} (hparallel : file.Parallel)
    (hnext : ∀ next, workspace.LeadsTo file next → workspace.EndsAt once floor next)
    (name : String) : workspace.Ends once floor (.first (trailsFrom file name)) := by
  refine ends_first fun trail htrail => ?_
  have hpoints : ∀ index fact plan,
      ((∃ name, file.facts.rootImport? name = some index) ∨ index ∈ wildcardsOf file) →
      file.planned? index = some (fact, plan) → fact.isExposed file.language = true →
      ∀ next, workspace.Offers file.language plan next → workspace.EndsAt once floor next :=
    fun index fact plan hindex hplanned hexposed next hoffers =>
      hnext next ⟨index, hindex, fact, plan, hplanned, hexposed, hoffers⟩
  intro seen hfloor
  rcases List.mem_cons.1 htrail with rfl | htrail
  · cases hbound : file.facts.rootImport? name with
    | none => exact ⟨_, _, .unbound hbound⟩
    | some index =>
      obtain ⟨fact, plan, hplanned⟩ := exists_planned hparallel (lt_of_rootImport? hparallel hbound)
      cases hexposed : fact.isExposed file.language with
      | false => exact ⟨_, _, .hidden hbound hplanned hexposed⟩
      | true =>
        obtain ⟨answer, stops, hfinds⟩ := ends_imported hplanned
          (hpoints index fact plan (.inl ⟨name, hbound⟩) hplanned hexposed) seen hfloor
        obtain ⟨binding, rfl⟩ := hfinds.exists_of_imported
        exact ⟨_, _, .followed hbound hplanned hexposed hfinds⟩
  · obtain ⟨index, hindex, rfl⟩ := List.mem_map.1 htrail
    obtain ⟨fact, plan, hplanned⟩ :=
      exists_planned hparallel (lt_of_mem_wildcardsOf hparallel hindex)
    cases hexposed : fact.isExposed file.language with
    | false => exact ⟨_, _, .closed hplanned hexposed⟩
    | true =>
      obtain ⟨answer, stops, hfinds⟩ := ends_member (fun next hmem =>
        hpoints index fact plan (.inr hindex) hplanned hexposed next
          (offers_of_mem_candidates hmem)) name seen hfloor
      exact ⟨_, _, .reached hplanned hexposed hfinds⟩

/-- A search ends at a file when it ends at those that the file leads to, once it has seen the file. -/
theorem endsAt_of_leadsTo {file : SourceFile} (hparallel : file.Parallel)
    (hnext : (once = true → file.path ∉ floor) → ∀ next, workspace.LeadsTo file next →
      workspace.EndsAt once (file.path :: floor) next) : workspace.EndsAt once floor file := by
  intro name seen hfloor
  by_cases hfresh : once = true → file.path ∉ seen
  · cases hname : soughtName? file name with
    | none => exact ⟨_, _, .nameless hfresh hname⟩
    | some sought =>
      cases htop : file.facts.topLevelSymbol? sought with
      | some index =>
        have hindex : index < file.symbols.length :=
          hparallel.symbols ▸ hparallel.formed.topLevelSymbol?_lt htop
        exact ⟨_, _, .declared hfresh hname htop (List.getElem?_eq_getElem hindex)⟩
      | none =>
        obtain ⟨answer, stops, hfinds⟩ := ends_trailsFrom hparallel
          (hnext fun honce h => hfresh honce (hfloor h)) sought (file.path :: seen)
          (List.cons_subset_cons _ hfloor)
        exact ⟨_, _, .opened hfresh hname htop hfinds⟩
  · obtain ⟨honce, hseen⟩ := Classical.not_imp.1 hfresh
    exact ⟨_, _, .skipped honce (not_not.1 hseen)⟩

end Ends

/-- Exposed imports that lead in no circle lead on for a while only. -/
theorem wellFounded_leadsTo
    (hacyclic : ∀ file, ¬ Relation.TransGen workspace.LeadsTo file file) :
    WellFounded fun next file : { file // file ∈ workspace.files } =>
      workspace.LeadsTo file.1 next.1 := by
  let below := fun next file : { file // file ∈ workspace.files } =>
    Relation.TransGen workspace.LeadsTo file.1 next.1
  have hfinite : Finite { file // file ∈ workspace.files } :=
    (List.finite_toSet workspace.files).to_subtype
  have htrans : IsTrans _ below := ⟨fun _ _ _ hfirst hsecond => hsecond.trans hfirst⟩
  have hirrefl : Std.Irrefl below := ⟨fun file => hacyclic file.1⟩
  exact Subrelation.wf (fun hleads => Relation.TransGen.single hleads)
    (Finite.wellFounded_of_trans_of_irrefl below)

section Stands

variable {environment : Environment} {stale pending : Path → Prop}
  (hstands : workspace.Stands environment stale pending)

include hstands

/-- **A search that passes over what it has seen ends**, in whatever circles the imports lead. By
induction on the number of files that have not been seen. -/
theorem Stands.endsAt_once {file : SourceFile} (hfile : file ∈ workspace.files)
    (floor : List Path) : workspace.EndsAt true floor file := by
  generalize hcount : (unseen workspace.files floor).length = count
  induction count using Nat.strong_induction_on generalizing file floor with
  | _ count ih =>
    refine endsAt_of_leadsTo (hstands.parallel file hfile) fun hfresh next hleads => ?_
    have hlt := length_unseen_lt (List.subset_cons_self file.path floor) hfile (hfresh rfl)
      List.mem_cons_self
    exact ih _ (hcount ▸ hlt) hleads.mem_files _ rfl

/-- **A search that passes over nothing ends** when the exposed imports lead in no circle. -/
theorem Stands.endsAt_of_acyclic
    (hacyclic : ∀ file, ¬ Relation.TransGen workspace.LeadsTo file file) {file : SourceFile}
    (hfile : file ∈ workspace.files) (floor : List Path) : workspace.EndsAt false floor file := by
  have hfiles (file : { file // file ∈ workspace.files }) :
      ∀ floor, workspace.EndsAt false floor file.1 := by
    induction file using (wellFounded_leadsTo hacyclic).induction with
    | _ file ih =>
      exact fun floor => endsAt_of_leadsTo (hstands.parallel file.1 file.2) fun _ next hleads =>
        ih ⟨next, hleads.mem_files⟩ hleads _
  exact hfiles ⟨file, hfile⟩ floor

end Stands

/-! ### What the search of a workspace finds -/

/-- The search of a workspace along a trail, which asks files further on with `search`. -/
def pursue (workspace : Workspace) (search : MemberSearch) : Trail → Seeking (Option Binding)
  | .file file name => workspace.searchFile search name file
  | .named file name => workspace.searchImport search file name
  | .wildcard file name index => workspace.searchWildcard search file name index

/-- The search of a workspace for what is asked. -/
def inquire (workspace : Workspace) (search : MemberSearch) : Quest → Seeking (Option Binding)
  | .imported file index => fun seen =>
    match file.planned? index with
    | none => (none, seen)
    | some (fact, plan) =>
      let answer := workspace.resolveWith search file.language fact plan seen
      (some answer.1, answer.2)
  | .along trail => workspace.pursue search trail
  | .first trails => firstFound (workspace.pursue search) trails

section Inquire

variable {search : MemberSearch} {seen : List Path}

theorem seenAfter_append (later stops : List Stop) (seen : List Path) :
    seenAfter (later ++ stops) seen = seenAfter later (seenAfter stops seen) := by
  rw [seenAfter, List.map_append, List.append_assoc]
  rfl

theorem firstFound_map {α β γ : Type} (search : β → Seeking (Option γ)) (f : α → β) (items : List α)
    (seen : List Path) :
    firstFound search (items.map f) seen = firstFound (fun item => search (f item)) items seen := by
  induction items generalizing seen with
  | nil => rfl
  | cons item rest ih => simp only [List.map_cons, firstFound, ih]

/-- Each level of the search asks the next one. -/
theorem searchWithin_succ (depth : Nat) (files : List SourceFile) (name : String) :
    workspace.searchWithin (depth + 1) files name seen =
      workspace.inquire (workspace.searchWithin depth) (.member files name) seen := by
  rw [searchWithin, Quest.member, inquire, firstFound_map]
  rfl

/-- What is found one level down, and on all levels below, is found from here. -/
theorem searchWithin_of_inquire {files : List SourceFile} {name : String} {enough : Nat}
    {found : Option Binding × List Path}
    (hfound : ∀ depth, enough ≤ depth →
      workspace.inquire (workspace.searchWithin depth) (.member files name) seen = found)
    (depth : Nat) (hdepth : enough + 1 ≤ depth) :
    workspace.searchWithin depth files name seen = found := by
  obtain ⟨depth, rfl⟩ := Nat.exists_eq_add_of_le' (Nat.le_of_add_left_le hdepth)
  rw [searchWithin_succ, hfound depth (Nat.le_of_succ_le_succ hdepth)]

/-- A file that does not declare the name is opened. -/
theorem searchFile_opened {file : SourceFile} {name sought : String} (hfresh : file.path ∉ seen)
    (hname : soughtName? file name = some sought)
    (htop : file.facts.topLevelSymbol? sought = none) :
    workspace.searchFile search name file seen =
      firstFound (workspace.pursue search) (trailsFrom file sought) (file.path :: seen) := by
  rw [searchFile, if_neg hfresh, hname, trailsFrom, firstFound]
  simp only [htop, Option.bind_none, firstFound_map, pursue]
  generalize workspace.searchImport search file sought (file.path :: seen) = answer
  obtain ⟨found, later⟩ := answer
  cases found <;> rfl

theorem searchImport_followed {file : SourceFile} {name : String} {index : Nat} {fact : ImportFact}
    {plan : ModulePlan} (hbound : file.facts.rootImport? name = some index)
    (hplanned : file.planned? index = some (fact, plan))
    (hexposed : fact.isExposed file.language = true) :
    workspace.searchImport search file name seen =
      ((workspace.resolveWith search file.language fact plan seen).1.found?,
        (workspace.resolveWith search file.language fact plan seen).2) := by
  have hentry : (file.facts.rootImport? name).bind file.exposed? = some (fact, plan) := by
    rw [hbound, Option.bind_some, SourceFile.exposed?, hplanned]
    simp [Option.filter, hexposed]
  rw [searchImport_eq, hentry]
  simp only
  generalize workspace.resolveWith search file.language fact plan seen = answer
  obtain ⟨binding, later⟩ := answer
  cases binding <;> rfl

theorem searchWildcard_reached {file : SourceFile} {name : String} {index : Nat}
    {fact : ImportFact} {plan : ModulePlan} (hplanned : file.planned? index = some (fact, plan))
    (hexposed : fact.isExposed file.language = true) :
    workspace.searchWildcard search file name index seen =
      search (workspace.firstPresent file.language plan.candidates) name seen := by
  rw [searchWildcard, hplanned]
  simp only [hexposed, if_true]

theorem resolveWith_asked {language : Language} {fact : ImportFact} {plan : ModulePlan}
    {target : SourceFile} {rest : List SourceFile} {member : String}
    (hfiles : workspace.firstPresent language plan.candidates = target :: rest)
    (hmember : fact.sought? = some member) :
    workspace.resolveWith search language fact plan seen =
      ((search (target :: rest) member seen).1.getD ((workspace.submodule? language plan).getD
          (.unresolved (member ++ " not found in " ++ fact.specifier))),
        (search (target :: rest) member seen).2) := by
  rw [ImportFact.sought?] at hmember
  split at hmember
  · cases hmember
  · rename_i hwildcard
    rw [resolveWith, hfiles, hmember]
    simp only [if_neg hwildcard]
    generalize search (target :: rest) member seen = answer
    obtain ⟨found, later⟩ := answer
    cases found <;> rfl

theorem resolveWith_whole {language : Language} {fact : ImportFact} {plan : ModulePlan}
    {target : SourceFile} {rest : List SourceFile}
    (hfiles : workspace.firstPresent language plan.candidates = target :: rest)
    (hmember : fact.sought? = none) :
    workspace.resolveWith search language fact plan seen = (.resolved target.node, seen) := by
  rw [ImportFact.sought?] at hmember
  rw [resolveWith, hfiles]
  cases hfact : fact.member with
  | none => rfl
  | some member =>
    rw [hfact] at hmember
    split at hmember
    · rename_i hwildcard
      simp only [if_pos hwildcard]
    · cases hmember

/-- **What the rules derive, a search finds that goes deep enough.** By induction on the rules; one
more level is needed wherever files are asked. -/
theorem Finds.inquire_eq {quest : Quest} {answer : Option Binding} {stops : List Stop}
    (hfinds : workspace.Finds true quest seen answer stops) :
    ∃ enough, ∀ depth, enough ≤ depth →
      workspace.inquire (workspace.searchWithin depth) quest seen =
        (answer, seenAfter stops seen) := by
  induction hfinds with
  | ended => exact ⟨0, fun _ _ => rfl⟩
  | hit _ ih =>
    obtain ⟨enough, hpart⟩ := ih
    refine ⟨enough, fun depth hdepth => ?_⟩
    have hhead := hpart depth hdepth
    rw [inquire] at hhead
    rw [inquire, firstFound, hhead]
  | miss _ _ ih ihrest =>
    obtain ⟨enough, hpart⟩ := ih
    obtain ⟨enough', hrest⟩ := ihrest
    refine ⟨max enough enough', fun depth hdepth => ?_⟩
    have hhead := hpart depth (le_of_max_le_left hdepth)
    have htail := hrest depth (le_of_max_le_right hdepth)
    rw [inquire] at hhead
    rw [inquire] at htail
    rw [inquire, firstFound, hhead, seenAfter_append]
    exact htail
  | skipped _ hseen =>
    refine ⟨0, fun depth _ => ?_⟩
    rw [inquire, pursue, searchFile, if_pos hseen]
    rfl
  | nameless hfresh hname =>
    refine ⟨0, fun depth _ => ?_⟩
    rw [inquire, pursue, searchFile, if_neg (hfresh rfl), hname]
    rfl
  | declared hfresh hname htop hid =>
    refine ⟨0, fun depth _ => ?_⟩
    rw [inquire, pursue, searchFile, if_neg (hfresh rfl), hname]
    simp only [htop, Option.bind_some, hid]
    rfl
  | opened hfresh hname htop _ ih =>
    obtain ⟨enough, hpart⟩ := ih
    refine ⟨enough, fun depth hdepth => ?_⟩
    have hinside := hpart depth hdepth
    rw [inquire] at hinside
    rw [inquire, pursue, searchFile_opened (hfresh rfl) hname htop, hinside, seenAfter_append]
    rfl
  | unbound hbound =>
    refine ⟨0, fun depth _ => ?_⟩
    rw [inquire, pursue, searchImport_eq, hbound]
    rfl
  | hidden hbound hplanned hhidden =>
    refine ⟨0, fun depth _ => ?_⟩
    rw [inquire, pursue, searchImport_eq, hbound, Option.bind_some, SourceFile.exposed?, hplanned]
    simp [Option.filter, hhidden, seenAfter]
  | followed hbound hplanned hexposed _ ih =>
    obtain ⟨enough, hpart⟩ := ih
    refine ⟨enough, fun depth hdepth => ?_⟩
    have himport := hpart depth hdepth
    simp only [inquire, hplanned] at himport
    obtain ⟨hbinding, hseen⟩ := Prod.mk.inj himport
    rw [inquire, pursue, searchImport_followed hbound hplanned hexposed,
      Option.some.inj hbinding, hseen]
  | closed hplanned hhidden =>
    refine ⟨0, fun depth _ => ?_⟩
    rw [inquire, pursue, searchWildcard, hplanned]
    simp [hhidden, seenAfter]
  | reached hplanned hexposed _ ih =>
    obtain ⟨enough, hpart⟩ := ih
    refine ⟨enough + 1, fun depth hdepth => ?_⟩
    rw [inquire, pursue, searchWildcard_reached hplanned hexposed,
      searchWithin_of_inquire hpart depth hdepth]
  | absent hplanned hfiles hmember | submodule hplanned hfiles hmember =>
    refine ⟨0, fun depth _ => ?_⟩
    simp only [inquire, hplanned, resolveWith, hfiles, hmember]
    rfl
  | whole hplanned hfiles hmember =>
    refine ⟨0, fun depth _ => ?_⟩
    simp only [inquire, hplanned, resolveWith_whole hfiles hmember]
    rfl
  | asked hplanned hfiles hmember _ ih =>
    obtain ⟨enough, hpart⟩ := ih
    refine ⟨enough + 1, fun depth hdepth => ?_⟩
    simp only [inquire, hplanned, resolveWith_asked hfiles hmember,
      searchWithin_of_inquire hpart depth hdepth]

end Inquire

/-! ### Searches of a workspace -/

/-- A workspace has the same files as itself wherever its imports may point. -/
theorem samePlaces_self (workspace : Workspace) (language : Language) (plan : ModulePlan) :
    SamePlaces (· ∈ workspace.files) workspace workspace language plan :=
  ⟨rfl, rfl, fun _ hfile => mem_files_of_offers (offers_of_mem_candidates hfile)⟩

/-- The search of a workspace goes deep enough. -/
theorem agree_searchMember (workspace : Workspace) {depth : Nat}
    (hdepth : workspace.files.length < depth) :
    Agree (· ∈ workspace.files) [] (workspace.searchWithin depth) workspace.searchMember := by
  have hunseen : (unseen workspace.files []).length ≤ workspace.files.length :=
    List.length_filter_le _ _
  exact agree_searchWithin workspace.files (fun _ hfile => hfile)
    (fun file _ _ _ plan _ _ => samePlaces_self workspace file.language plan) depth _ []
    (by omega) (by omega)

/-- A search has one outcome. It stops at each file at most once and at files of the workspace only. A
node that it finds is one that a file denotes, to which the imports lead from where the search starts. -/
structure Settles (workspace : Workspace) (quest : Quest) (answer : Option Binding) : Prop where
  ends : ∃ stops, (∀ other others, workspace.Finds true quest [] other others ↔
      other = answer ∧ others = stops) ∧
    (stops.map fun stop => stop.file.path).Nodup ∧ ∀ stop ∈ stops, stop.file ∈ workspace.files
  found : ∀ id, answer = some (.resolved id) → ∃ first last, workspace.Starts quest first ∧
    Relation.ReflTransGen workspace.LeadsTo first last ∧ last ∈ workspace.files ∧ last.Denotes id

theorem ComesTo.mem_files {quest : Quest} {file : SourceFile}
    (hcomes : workspace.ComesTo quest file)
    (hstarts : ∀ first, workspace.Starts quest first → first ∈ workspace.files) :
    file ∈ workspace.files := by
  obtain ⟨first, hfirst, hchain⟩ := hcomes
  cases hchain with
  | refl => exact hstarts _ hfirst
  | tail _ hleads => exact hleads.mem_files

theorem Finds.settles {quest : Quest} {answer : Option Binding} {stops : List Stop}
    (hfinds : workspace.Finds true quest [] answer stops)
    (hstarts : ∀ first, workspace.Starts quest first → first ∈ workspace.files) :
    workspace.Settles quest answer where
  ends := by
    refine ⟨stops, fun other others => ⟨hfinds.unique, ?_⟩, hfinds.stops_once.1, fun stop hstop =>
      (hfinds.arrives.stops stop hstop).mem_files hstarts⟩
    rintro ⟨rfl, rfl⟩
    exact hfinds
  found := fun id hid => by
    obtain ⟨last, hcomes, hdenotes⟩ := hfinds.arrives.found id hid
    have hlast := hcomes.mem_files hstarts
    obtain ⟨first, hfirst, hchain⟩ := hcomes
    exact ⟨first, last, hfirst, hchain, hlast, hdenotes⟩

section Searches

variable {environment : Environment} {stale pending : Path → Prop}
  (hstands : workspace.Stands environment stale pending)

/-- What the rules derive for a name is what the workspace finds. -/
theorem Finds.eq_lookupMember {files : List SourceFile} {name : String} {answer : Option Binding}
    {stops : List Stop} (hfinds : workspace.Finds true (.member files name) [] answer stops)
    (hfiles : ∀ file ∈ files, file ∈ workspace.files) :
    answer = workspace.lookupMember files name := by
  obtain ⟨enough, hinquire⟩ := hfinds.inquire_eq
  let depth := max enough workspace.files.length
  have hfound := hinquire depth (Nat.le_max_left _ _)
  have hdepth : workspace.files.length < depth + 1 := Nat.lt_succ_of_le (Nat.le_max_right _ _)
  have hagree := agree_searchMember workspace hdepth
  rw [← searchWithin_succ] at hfound
  rw [lookupMember, ← (hagree files hfiles name [] (List.Subset.refl _)).1, hfound]

/-- What the rules derive for an import is what it resolves to. -/
theorem Finds.eq_resolveImport {file : SourceFile} {index : Nat} {fact : ImportFact}
    {plan : ModulePlan} {answer : Option Binding} {stops : List Stop}
    (hfinds : workspace.Finds true (.imported file index) [] answer stops)
    (hplanned : file.planned? index = some (fact, plan)) :
    answer = some (workspace.resolveImport file.language fact plan) := by
  obtain ⟨enough, hinquire⟩ := hfinds.inquire_eq
  let depth := max enough (workspace.files.length + 1)
  have hfound := hinquire depth (Nat.le_max_left _ _)
  have hdepth : workspace.files.length < depth := Nat.le_max_right _ _
  have hagree := agree_searchMember workspace hdepth
  have hsame := (concur_resolveWith (samePlaces_self workspace file.language plan) hagree fact []
    (List.Subset.refl _)).1
  simp only [inquire, hplanned] at hfound
  rw [resolveImport, ← hsame]
  exact (congrArg Prod.fst hfound).symm

include hstands

/-- **What a name means is settled** among any files of the workspace. -/
theorem Stands.settles_lookupMember {files : List SourceFile}
    (hfiles : ∀ file ∈ files, file ∈ workspace.files) (name : String) :
    workspace.Settles (.member files name) (workspace.lookupMember files name) := by
  have hends : ∀ file ∈ files, workspace.EndsAt true [] file :=
    fun file hfile => hstands.endsAt_once (hfiles file hfile) []
  obtain ⟨answer, stops, hfinds⟩ := ends_member hends name [] (List.Subset.refl _)
  rw [← hfinds.eq_lookupMember hfiles]
  exact hfinds.settles fun first hfirst => hfiles first (mem_of_starts_member hfirst)

/-- **What an import stands for is settled.** -/
theorem Stands.settles_resolveImport {file : SourceFile} {index : Nat} {fact : ImportFact}
    {plan : ModulePlan} (hplanned : file.planned? index = some (fact, plan)) :
    workspace.Settles (.imported file index)
      (some (workspace.resolveImport file.language fact plan)) := by
  have hends : ∀ next, workspace.Offers file.language plan next → workspace.EndsAt true [] next :=
    fun _ hoffers => hstands.endsAt_once (mem_files_of_offers hoffers) []
  obtain ⟨answer, stops, hfinds⟩ := ends_imported hplanned hends [] (List.Subset.refl _)
  rw [← hfinds.eq_resolveImport hplanned]
  refine hfinds.settles fun first hfirst => ?_
  obtain ⟨_, _, -, hoffers⟩ := hfirst
  exact mem_files_of_offers hoffers

end Searches

end CodeGraph.Workspace
