import CodeGraph.Proofs.Workspace.Follow
import CodeGraph.Proofs.Workspace.Propagation
import CodeGraph.Proofs.Workspace.Search
import Mathlib.Logic.Relation

/-!
# The search as a derivation

What an import stands for and what a name means ask for each other, with no bound on how often. Here
this is a system of rules, which derives nothing for a search that goes on for ever or looks past the
end of a list. The rules come in two kinds. With `once` a file that has been seen is passed over, and
without it a file is looked at whenever the search comes to it.
-/

namespace CodeGraph

/-- What others make of a binding: an unresolved one leads nowhere. -/
def Binding.found? : Binding → Option Binding
  | .unresolved _ => none
  | binding => some binding

/-- A node that a file stands for: its own, or that of a symbol that a name means at its top level. -/
def SourceFile.Denotes (file : SourceFile) (id : NodeId) : Prop :=
  id = file.node ∨ ∃ name index, file.facts.topLevelSymbol? name = some index ∧
    file.symbol? index = some id

/-- A file that a search looks at, and the name it asks for there. -/
structure Stop where
  file : SourceFile
  name : String

/-- Where a name may be found: in a file that is asked for it, through the exposed import that binds
it, or through a wildcard. -/
inductive Trail where
  | file (file : SourceFile) (name : String)
  | named (file : SourceFile) (name : String)
  | wildcard (file : SourceFile) (name : String) (index : Nat)

/-- What an import of a file stands for, what is found along a trail, or what is found first. -/
inductive Quest where
  | imported (file : SourceFile) (index : Nat)
  | along (trail : Trail)
  | first (trails : List Trail)

def Quest.isImport : Quest → Bool
  | .imported _ _ => true
  | .along _ | .first _ => false

/-- The files that a search asks for a name, one after the other. -/
def Quest.member (files : List SourceFile) (name : String) : Quest :=
  .first (files.map (Trail.file · name))

namespace Workspace

/-- Where a file that does not declare a name may have it from: the import of that name, and then the
wildcards in order. -/
def trailsFrom (file : SourceFile) (name : String) : List Trail :=
  .named file name :: (wildcardsOf file).map (Trail.wildcard file name)

/-- The files seen after some stops, the latest first. -/
def seenAfter (stops : List Stop) (seen : List Path) : List Path :=
  stops.map (fun stop => stop.file.path) ++ seen

/-- What is found from the files in `seen` on, and where the search stops on the way, the latest
first. -/
inductive Finds (workspace : Workspace) (once : Bool) :
    Quest → List Path → Option Binding → List Stop → Prop
  | ended {seen} : Finds workspace once (.first []) seen none []
  | hit {trail rest seen binding stops}
    (hfound : Finds workspace once (.along trail) seen (some binding) stops) :
    Finds workspace once (.first (trail :: rest)) seen (some binding) stops
  | miss {trail rest seen answer stops later}
    (hnone : Finds workspace once (.along trail) seen none stops)
    (hrest : Finds workspace once (.first rest) (seenAfter stops seen) answer later) :
    Finds workspace once (.first (trail :: rest)) seen answer (later ++ stops)
  | skipped {file name seen} (honce : once = true) (hseen : file.path ∈ seen) :
    Finds workspace once (.along (.file file name)) seen none []
  | nameless {file name seen} (hfresh : once = true → file.path ∉ seen)
    (hname : soughtName? file name = none) :
    Finds workspace once (.along (.file file name)) seen none [⟨file, name⟩]
  | declared {file name seen sought index id} (hfresh : once = true → file.path ∉ seen)
    (hname : soughtName? file name = some sought)
    (htop : file.facts.topLevelSymbol? sought = some index) (hid : file.symbol? index = some id) :
    Finds workspace once (.along (.file file name)) seen (some (.resolved id)) [⟨file, name⟩]
  | opened {file name seen sought answer stops} (hfresh : once = true → file.path ∉ seen)
    (hname : soughtName? file name = some sought)
    (htop : file.facts.topLevelSymbol? sought = none)
    (hrest : Finds workspace once (.first (trailsFrom file sought)) (file.path :: seen) answer
      stops) :
    Finds workspace once (.along (.file file name)) seen answer (stops ++ [⟨file, name⟩])
  | unbound {file name seen} (hbound : file.facts.rootImport? name = none) :
    Finds workspace once (.along (.named file name)) seen none []
  | hidden {file name seen index fact plan} (hbound : file.facts.rootImport? name = some index)
    (hplanned : file.planned? index = some (fact, plan))
    (hhidden : fact.isExposed file.language = false) :
    Finds workspace once (.along (.named file name)) seen none []
  | followed {file name seen index fact plan binding stops}
    (hbound : file.facts.rootImport? name = some index)
    (hplanned : file.planned? index = some (fact, plan))
    (hexposed : fact.isExposed file.language = true)
    (hfound : Finds workspace once (.imported file index) seen (some binding) stops) :
    Finds workspace once (.along (.named file name)) seen binding.found? stops
  | closed {file name seen index fact plan} (hplanned : file.planned? index = some (fact, plan))
    (hhidden : fact.isExposed file.language = false) :
    Finds workspace once (.along (.wildcard file name index)) seen none []
  | reached {file name seen index fact plan answer stops}
    (hplanned : file.planned? index = some (fact, plan))
    (hexposed : fact.isExposed file.language = true)
    (hfound : Finds workspace once
      (.member (workspace.firstPresent file.language plan.candidates) name) seen answer stops) :
    Finds workspace once (.along (.wildcard file name index)) seen answer stops
  | absent {file seen index fact plan} (hplanned : file.planned? index = some (fact, plan))
    (hfiles : workspace.firstPresent file.language plan.candidates = [])
    (hmember : fact.member = none) :
    Finds workspace once (.imported file index) seen (some plan.fallback.binding) []
  | submodule {file seen index fact plan member}
    (hplanned : file.planned? index = some (fact, plan))
    (hfiles : workspace.firstPresent file.language plan.candidates = [])
    (hmember : fact.member = some member) :
    Finds workspace once (.imported file index) seen
      (some ((workspace.submodule? file.language plan).getD plan.fallback.binding)) []
  | whole {file seen index fact plan target rest}
    (hplanned : file.planned? index = some (fact, plan))
    (hfiles : workspace.firstPresent file.language plan.candidates = target :: rest)
    (hmember : fact.sought? = none) :
    Finds workspace once (.imported file index) seen (some (.resolved target.node)) []
  | asked {file seen index fact plan target rest member answer stops}
    (hplanned : file.planned? index = some (fact, plan))
    (hfiles : workspace.firstPresent file.language plan.candidates = target :: rest)
    (hmember : fact.sought? = some member)
    (hfound : Finds workspace once (.member (target :: rest) member) seen answer stops) :
    Finds workspace once (.imported file index) seen
      (some (answer.getD ((workspace.submodule? file.language plan).getD
        (.unresolved (member ++ " not found in " ++ fact.specifier))))) stops

section Finds

variable {workspace : Workspace} {once : Bool} {quest : Quest} {seen : List Path}
  {answer : Option Binding} {stops : List Stop}

/-- At most one outcome can be derived. -/
theorem Finds.unique (hfinds : workspace.Finds once quest seen answer stops)
    {other : Option Binding} {others : List Stop}
    (hother : workspace.Finds once quest seen other others) : other = answer ∧ others = stops := by
  induction hfinds generalizing other others with
  | ended => cases hother; exact ⟨rfl, rfl⟩
  | hit _ ih =>
    cases hother with
    | hit hfound => exact ih hfound
    | miss hnone _ => cases (ih hnone).1
  | miss _ _ ih ihrest =>
    cases hother with
    | hit hfound => cases (ih hfound).1
    | miss hnone hrest =>
      obtain rfl := (ih hnone).2
      obtain ⟨rfl, rfl⟩ := ihrest hrest
      exact ⟨rfl, rfl⟩
  | opened hfresh hname htop _ ih =>
    cases hother with
    | skipped honce hseen => exact absurd hseen (hfresh honce)
    | nameless _ hname' => rw [hname] at hname'; cases hname'
    | declared _ hname' htop' _ =>
      rw [hname] at hname'
      obtain rfl := Option.some.inj hname'
      rw [htop] at htop'
      cases htop'
    | opened _ hname' _ hrest =>
      rw [hname] at hname'
      obtain rfl := Option.some.inj hname'
      obtain ⟨rfl, rfl⟩ := ih hrest
      exact ⟨rfl, rfl⟩
  | followed hbound hplanned hexposed _ ih =>
    cases hother with
    | unbound hbound' => rw [hbound] at hbound'; cases hbound'
    | hidden hbound' hplanned' hhidden =>
      rw [hbound] at hbound'
      obtain rfl := Option.some.inj hbound'
      rw [hplanned] at hplanned'
      cases hplanned'
      rw [hexposed] at hhidden
      cases hhidden
    | followed hbound' _ _ hfound =>
      rw [hbound] at hbound'
      obtain rfl := Option.some.inj hbound'
      obtain ⟨hbinding, rfl⟩ := ih hfound
      exact ⟨congrArg Binding.found? (Option.some.inj hbinding), rfl⟩
  | reached hplanned hexposed _ ih =>
    cases hother with
    | closed hplanned' hhidden =>
      rw [hplanned] at hplanned'
      cases hplanned'
      rw [hexposed] at hhidden
      cases hhidden
    | reached hplanned' _ hfound =>
      rw [hplanned] at hplanned'
      cases hplanned'
      exact ih hfound
  | asked hplanned hfiles hmember _ ih =>
    cases hother with
    | absent hplanned' hfiles' _ | submodule hplanned' hfiles' _ =>
      rw [hplanned] at hplanned'
      cases hplanned'
      rw [hfiles] at hfiles'
      cases hfiles'
    | whole hplanned' _ hmember' =>
      rw [hplanned] at hplanned'
      cases hplanned'
      rw [hmember] at hmember'
      cases hmember'
    | asked hplanned' hfiles' hmember' hfound =>
      rw [hplanned] at hplanned'
      cases hplanned'
      rw [hfiles] at hfiles'
      cases hfiles'
      rw [hmember] at hmember'
      cases hmember'
      obtain ⟨rfl, rfl⟩ := ih hfound
      exact ⟨rfl, rfl⟩
  | _ => cases hother <;> simp_all

/-- Every import comes to something. -/
theorem Finds.exists_of_imported {file : SourceFile} {index : Nat}
    (hfinds : workspace.Finds once (.imported file index) seen answer stops) :
    ∃ binding, answer = some binding := by
  cases hfinds <;> exact ⟨_, rfl⟩

/-- Only an import can come to something unresolved. -/
theorem Finds.ne_unresolved (hfinds : workspace.Finds once quest seen answer stops)
    (hquest : quest.isImport = false) (reason : String) :
    answer ≠ some (.unresolved reason) := by
  induction hfinds with
  | hit _ ih | opened _ _ _ _ ih | reached _ _ _ ih => exact ih rfl
  | miss _ _ _ ihrest => exact ihrest rfl
  | @followed _ _ _ _ _ _ binding => cases binding <;> simp [Binding.found?]
  | ended | skipped | nameless | declared | unbound | hidden | closed => simp
  | absent | submodule | whole | asked => cases hquest

/-- A search that passes over what it has seen looks at each file at most once. -/
theorem Finds.stops_once (hfinds : workspace.Finds true quest seen answer stops) :
    (stops.map fun stop => stop.file.path).Nodup ∧ ∀ stop ∈ stops, stop.file.path ∉ seen := by
  induction hfinds with
  | hit _ ih | followed _ _ _ _ ih | reached _ _ _ ih | asked _ _ _ _ ih => exact ih
  | @miss _ _ _ _ stops later _ _ ih ihrest =>
    have hapart : ∀ stop ∈ later, stop.file.path ∉ stops.map fun stop => stop.file.path :=
      fun stop hstop h => ihrest.2 stop hstop (List.mem_append_left _ h)
    rw [List.map_append]
    refine ⟨ihrest.1.append ih.1 ?_, fun stop hstop => ?_⟩
    · rintro path hpath hpath'
      obtain ⟨stop, hstop, rfl⟩ := List.mem_map.1 hpath
      exact hapart stop hstop hpath'
    · rcases List.mem_append.1 hstop with hstop | hstop
      · exact fun h => ihrest.2 stop hstop (List.mem_append_right _ h)
      · exact ih.2 stop hstop
  | opened hfresh _ _ _ ih =>
    rw [List.map_append]
    refine ⟨ih.1.append (List.nodup_singleton _) ?_, fun stop hstop => ?_⟩
    · rintro path hpath hpath'
      obtain ⟨stop, hstop, rfl⟩ := List.mem_map.1 hpath
      exact ih.2 stop hstop (List.mem_singleton.1 hpath' ▸ List.mem_cons_self)
    · rcases List.mem_append.1 hstop with hstop | hstop
      · exact fun h => ih.2 stop hstop (List.mem_cons_of_mem _ h)
      · rw [List.mem_singleton.1 hstop]
        exact hfresh rfl
  | nameless hfresh _ | declared hfresh _ _ _ => simpa using hfresh
  | _ => simp

end Finds

/-! ### Where a search comes to -/

/-- A candidate of the plan is there. -/
def Offers (workspace : Workspace) (language : Language) (plan : ModulePlan) (next : SourceFile) :
    Prop :=
  ∃ candidate ∈ plan.all, next ∈ workspace.present language candidate

/-- An import at a place of a file, which the file exposes, has the other file as a candidate. -/
def PointsTo (workspace : Workspace) (file : SourceFile) (index : Nat) (next : SourceFile) : Prop :=
  ∃ fact plan, file.planned? index = some (fact, plan) ∧ fact.isExposed file.language = true ∧
    workspace.Offers file.language plan next

/-- An import or a wildcard at the top level of a file, which the file exposes, has the other file as
a candidate. -/
def LeadsTo (workspace : Workspace) (file next : SourceFile) : Prop :=
  ∃ index, ((∃ name, file.facts.rootImport? name = some index) ∨ index ∈ wildcardsOf file) ∧
    workspace.PointsTo file index next

/-- The files that a trail leads to at once. -/
def TrailStarts (workspace : Workspace) : Trail → SourceFile → Prop
  | .file file _, next => next = file
  | .named file name, next =>
    ∃ index, file.facts.rootImport? name = some index ∧ workspace.PointsTo file index next
  | .wildcard file _ index, next => workspace.PointsTo file index next

/-- The files that a search leads to at once. -/
def Starts (workspace : Workspace) : Quest → SourceFile → Prop
  | .imported file index, next => ∃ fact plan, file.planned? index = some (fact, plan) ∧
    workspace.Offers file.language plan next
  | .along trail, next => workspace.TrailStarts trail next
  | .first trails, next => ∃ trail ∈ trails, workspace.TrailStarts trail next

/-- A file that a search can come to. -/
def ComesTo (workspace : Workspace) (quest : Quest) (file : SourceFile) : Prop :=
  ∃ first, workspace.Starts quest first ∧ Relation.ReflTransGen workspace.LeadsTo first file

section Reach

variable {workspace : Workspace} {once : Bool} {quest : Quest} {seen : List Path}
  {answer : Option Binding} {stops : List Stop}

theorem mem_files_of_offers {language : Language} {plan : ModulePlan} {next : SourceFile}
    (hoffers : workspace.Offers language plan next) : next ∈ workspace.files := by
  obtain ⟨candidate, -, hnext⟩ := hoffers
  exact (mem_present hnext).1

theorem LeadsTo.mem_files {file next : SourceFile} (hleads : workspace.LeadsTo file next) :
    next ∈ workspace.files := by
  obtain ⟨index, -, fact, plan, -, -, hoffers⟩ := hleads
  exact mem_files_of_offers hoffers

theorem offers_of_mem_candidates {language : Language} {plan : ModulePlan} {next : SourceFile}
    (hnext : next ∈ workspace.firstPresent language plan.candidates) :
    workspace.Offers language plan next := by
  obtain ⟨candidate, hcandidate, hpresent⟩ := mem_firstPresent hnext
  exact ⟨candidate, List.mem_append_left _ hcandidate, hpresent⟩

theorem exists_of_submodule? {language : Language} {plan : ModulePlan} {binding : Binding}
    (hsubmodule : workspace.submodule? language plan = some binding) :
    ∃ next, workspace.Offers language plan next ∧ binding = .resolved next.node := by
  obtain ⟨next, hnext, rfl⟩ := Option.map_eq_some_iff.1 hsubmodule
  obtain ⟨candidate, hcandidate, hpresent⟩ := mem_firstPresent (List.mem_of_mem_head? hnext)
  exact ⟨next, ⟨candidate, List.mem_append_right _ hcandidate, hpresent⟩, rfl⟩

/-- From a file that has a name from elsewhere a search goes where the exposed imports lead. -/
theorem leadsTo_of_starts_trailsFrom {file next : SourceFile} {name : String}
    (hstarts : workspace.Starts (.first (trailsFrom file name)) next) :
    workspace.LeadsTo file next := by
  obtain ⟨trail, htrail, hnext⟩ := hstarts
  rcases List.mem_cons.1 htrail with rfl | htrail
  · obtain ⟨index, hbound, hpoints⟩ := hnext
    exact ⟨index, .inl ⟨name, hbound⟩, hpoints⟩
  · obtain ⟨index, hindex, rfl⟩ := List.mem_map.1 htrail
    exact ⟨index, .inr hindex, hnext⟩

theorem mem_of_starts_member {files : List SourceFile} {name : String} {next : SourceFile}
    (hstarts : workspace.Starts (.member files name) next) : next ∈ files := by
  obtain ⟨trail, htrail, hnext⟩ := hstarts
  obtain ⟨file, hfile, rfl⟩ := List.mem_map.1 htrail
  exact (show next = file from hnext) ▸ hfile

theorem ComesTo.of_starts {next : SourceFile} (hstarts : workspace.Starts quest next) :
    workspace.ComesTo quest next :=
  ⟨next, hstarts, .refl⟩

/-- An outcome that the imports lead to: the search comes to all files where it stops, and to the one
that has the node it finds. -/
structure Arrives (workspace : Workspace) (quest : Quest) (answer : Option Binding)
    (stops : List Stop) : Prop where
  stops : ∀ stop ∈ stops, workspace.ComesTo quest stop.file
  found : ∀ id, answer = some (.resolved id) →
    ∃ last, workspace.ComesTo quest last ∧ last.Denotes id

theorem arrives_none : workspace.Arrives quest none [] :=
  ⟨by simp, by simp⟩

/-- A search arrives where a part of it does. -/
theorem Arrives.mono {part : Quest} (harrives : workspace.Arrives part answer stops)
    (hstarts : ∀ first, workspace.Starts part first → workspace.ComesTo quest first) :
    workspace.Arrives quest answer stops := by
  have hcomes : ∀ file, workspace.ComesTo part file → workspace.ComesTo quest file := by
    rintro file ⟨first, hfirst, hchain⟩
    obtain ⟨start, hstart, hchain'⟩ := hstarts first hfirst
    exact ⟨start, hstart, hchain'.trans hchain⟩
  refine ⟨fun stop hstop => hcomes _ (harrives.stops stop hstop), fun id hid => ?_⟩
  obtain ⟨last, hlast, hdenotes⟩ := harrives.found id hid
  exact ⟨last, hcomes _ hlast, hdenotes⟩

/-- The search stops at the file it asks, and answers what comes of that. -/
theorem Arrives.stop {file : SourceFile} {name : String}
    (harrives : workspace.Arrives (.along (.file file name)) answer stops) :
    workspace.Arrives (.along (.file file name)) answer (stops ++ [⟨file, name⟩]) where
  stops := by
    rw [List.forall_mem_append, List.forall_mem_singleton]
    exact ⟨harrives.stops, .of_starts rfl⟩
  found := harrives.found

section Imported

variable {file : SourceFile} {index : Nat} {fact : ImportFact} {plan : ModulePlan}
  (hplanned : file.planned? index = some (fact, plan))

include hplanned

theorem arrives_of_offers {next : SourceFile}
    (hoffers : workspace.Offers file.language plan next) :
    workspace.Arrives (.imported file index) (some (.resolved next.node)) [] where
  stops := by simp
  found := fun id hid => ⟨next, .of_starts ⟨fact, plan, hplanned, hoffers⟩,
    .inl (Binding.resolved.inj (Option.some.inj hid)).symm⟩

/-- An import without its member in the module is a submodule, or does not lead to a node. -/
theorem arrives_submodule {default : Binding} (hdefault : ∀ id, default ≠ .resolved id) :
    workspace.Arrives (.imported file index)
      (some ((workspace.submodule? file.language plan).getD default)) [] := by
  cases hfound : workspace.submodule? file.language plan with
  | none => exact ⟨by simp, fun id hid => absurd (Option.some.inj hid) (hdefault id)⟩
  | some binding =>
    obtain ⟨next, hoffers, rfl⟩ := exists_of_submodule? hfound
    exact arrives_of_offers hplanned hoffers

/-- What the modules of an import are asked for, the import stands for. -/
theorem Arrives.imported {name : String}
    (harrives : workspace.Arrives
      (.member (workspace.firstPresent file.language plan.candidates) name) answer stops) :
    workspace.Arrives (.imported file index) answer stops :=
  harrives.mono fun _ hfirst => .of_starts
    ⟨fact, plan, hplanned, offers_of_mem_candidates (mem_of_starts_member hfirst)⟩

end Imported

/-- Whatever is found, the imports lead there. By induction on the rules. -/
theorem Finds.arrives (hfinds : workspace.Finds once quest seen answer stops) :
    workspace.Arrives quest answer stops := by
  induction hfinds with
  | ended | skipped | unbound | hidden | closed => exact arrives_none
  | hit _ ih => exact ih.mono fun _ hfirst => .of_starts ⟨_, List.mem_cons_self, hfirst⟩
  | @miss trail rest _ answer stops later _ _ ih ihrest =>
    have hhead : workspace.Arrives (.first (trail :: rest)) none stops :=
      ih.mono fun _ hfirst => .of_starts ⟨trail, List.mem_cons_self, hfirst⟩
    have htail : workspace.Arrives (.first (trail :: rest)) answer later :=
      ihrest.mono fun _ ⟨other, hother, hfirst⟩ =>
        .of_starts ⟨other, List.mem_cons_of_mem trail hother, hfirst⟩
    exact ⟨List.forall_mem_append.2 ⟨htail.stops, hhead.stops⟩, htail.found⟩
  | nameless => exact arrives_none.stop
  | @declared file name _ sought index id _ _ htop hid =>
    have hself : workspace.Arrives (.along (.file file name)) (some (.resolved id)) [] := by
      refine ⟨by simp, fun other hsame => ⟨file, .of_starts rfl, .inr ⟨sought, index, htop, ?_⟩⟩⟩
      cases hsame
      exact hid
    exact hself.stop
  | @opened file name _ _ answer stops _ _ _ _ ih =>
    have hself : workspace.Arrives (.along (.file file name)) answer stops :=
      ih.mono fun _ hfirst => ⟨file, rfl, .single (leadsTo_of_starts_trailsFrom hfirst)⟩
    exact hself.stop
  | @followed file name _ index fact plan binding stops hbound hplanned hexposed _ ih =>
    have hnamed : workspace.Arrives (.along (.named file name)) (some binding) stops := by
      refine ih.mono fun _ hfirst => ?_
      obtain ⟨found, place, hplanned', hoffers⟩ := hfirst
      rw [hplanned] at hplanned'
      cases hplanned'
      exact .of_starts ⟨index, hbound, fact, plan, hplanned, hexposed, hoffers⟩
    refine ⟨hnamed.stops, fun id hid => hnamed.found id ?_⟩
    cases binding <;> simp_all [Binding.found?]
  | reached hplanned hexposed _ ih =>
    exact ih.mono fun _ hfirst => .of_starts ⟨_, _, hplanned, hexposed,
      offers_of_mem_candidates (mem_of_starts_member hfirst)⟩
  | @absent _ _ _ _ plan hplanned _ _ =>
    exact ⟨by simp, fun id hid =>
      absurd (Option.some.inj hid) (fallback_ne_resolved plan.fallback id)⟩
  | submodule hplanned _ _ => exact arrives_submodule hplanned (fallback_ne_resolved _)
  | whole hplanned hfiles _ =>
    exact arrives_of_offers hplanned
      (offers_of_mem_candidates (by rw [hfiles]; exact List.mem_cons_self))
  | @asked _ _ _ _ _ _ _ _ answer _ hplanned hfiles _ _ ih =>
    rw [← hfiles] at ih
    have himported := Arrives.imported hplanned ih
    cases answer with
    | some binding => exact himported
    | none => exact ⟨himported.stops, (arrives_submodule hplanned fun _ => by simp).found⟩

end Reach

end Workspace

end CodeGraph
