import CodeGraph.Proofs.Workspace.Files
import Mathlib.Data.List.Forall2
import Mathlib.Data.Option.Basic

/-!
# What an import stands for, up to the names of nodes

What an import stands for depends on the files that are there and on nothing else in a workspace. Two
workspaces with the same files, whose nodes are related in pairs, resolve each import to related nodes.
Related to itself in this way, a workspace resolves imports to files and symbols of its own.
-/

namespace CodeGraph

/-! ### Lists and options of related things -/

section Related

variable {α β γ δ : Type} {related : α → β → Prop} {results : γ → δ → Prop}

theorem rel_cases {first : Option α} {second : Option β} (hrel : Option.Rel related first second) :
    (first = none ∧ second = none) ∨
      ∃ x y, first = some x ∧ second = some y ∧ related x y := by
  cases hrel with
  | none => exact .inl ⟨rfl, rfl⟩
  | some h => exact .inr ⟨_, _, rfl, rfl, h⟩

theorem rel_find? {xs : List α} {ys : List β} (hrel : List.Forall₂ related xs ys) {p : α → Bool}
    {q : β → Bool} (hpq : ∀ x y, related x y → p x = q y) :
    Option.Rel related (xs.find? p) (ys.find? q) := by
  induction hrel with
  | nil => exact .none
  | @cons x y xs ys hhead _ ih =>
    rw [List.find?_cons, List.find?_cons, hpq x y hhead]
    cases q y with
    | true => exact .some hhead
    | false => exact ih

theorem rel_findSome? {xs : List α} {ys : List β} (hrel : List.Forall₂ related xs ys)
    {f : α → Option γ} {g : β → Option δ}
    (hfg : ∀ x y, related x y → Option.Rel results (f x) (g y)) :
    Option.Rel results (xs.findSome? f) (ys.findSome? g) := by
  induction hrel with
  | nil => exact .none
  | @cons x y xs ys hhead _ ih =>
    rw [List.findSome?_cons, List.findSome?_cons]
    rcases rel_cases (hfg x y hhead) with ⟨hf, hg⟩ | ⟨_, _, hf, hg, hresult⟩
    · rw [hf, hg]
      exact ih
    · rw [hf, hg]
      exact .some hresult

theorem rel_findSome?_same (xs : List α) {f : α → Option γ} {g : α → Option δ}
    (hfg : ∀ x, Option.Rel results (f x) (g x)) :
    Option.Rel results (xs.findSome? f) (xs.findSome? g) :=
  have hsame : List.Forall₂ (· = ·) xs xs := List.forall₂_same.2 fun _ _ => rfl
  rel_findSome? hsame fun x _ heq => heq ▸ hfg x

theorem rel_getElem? {xs : List α} {ys : List β} (hrel : List.Forall₂ related xs ys)
    (index : Nat) : Option.Rel related xs[index]? ys[index]? := by
  induction hrel generalizing index with
  | nil => exact .none
  | cons hhead _ ih =>
    cases index with
    | zero => exact .some hhead
    | succ index => exact ih index

theorem rel_of_getElem? {xs : List α} {ys : List β} (hlength : xs.length = ys.length)
    (hrel : ∀ (index : Nat) x y, xs[index]? = some x → ys[index]? = some y → related x y) :
    List.Forall₂ related xs ys :=
  List.forall₂_iff_get.2 ⟨hlength, fun index hx hy =>
    hrel index _ _ (List.getElem?_eq_getElem hx) (List.getElem?_eq_getElem hy)⟩

theorem rel_exists_of_mem {xs : List α} {ys : List β} (hrel : List.Forall₂ related xs ys) {x : α}
    (hx : x ∈ xs) : ∃ y ∈ ys, related x y := by
  induction hrel with
  | nil => cases hx
  | cons hhead _ ih =>
    rcases List.mem_cons.1 hx with rfl | hx
    · exact ⟨_, List.mem_cons_self, hhead⟩
    · obtain ⟨y, hy, hxy⟩ := ih hx
      exact ⟨y, List.mem_cons_of_mem _ hy, hxy⟩

theorem rel_filter {xs : List α} {ys : List β} (hrel : List.Forall₂ related xs ys)
    {p : α → Bool} {q : β → Bool} (hpq : ∀ x y, related x y → p x = q y) :
    List.Forall₂ related (xs.filter p) (ys.filter q) :=
  List.rel_filter (fun x y h => by simp only [hpq x y h]) hrel

theorem rel_filterMap_same (xs : List α) {f : α → Option γ} {g : α → Option δ}
    (hfg : ∀ x, Option.Rel results (f x) (g x)) :
    List.Forall₂ results (xs.filterMap f) (xs.filterMap g) := by
  induction xs with
  | nil => exact .nil
  | cons x xs ih =>
    rw [List.filterMap_cons, List.filterMap_cons]
    rcases rel_cases (hfg x) with ⟨hf, hg⟩ | ⟨_, _, hf, hg, hresult⟩
    · rw [hf, hg]
      exact ih
    · rw [hf, hg]
      exact .cons hresult ih

theorem rel_flatMap {xs : List α} {ys : List β} (hrel : List.Forall₂ related xs ys)
    {f : α → List γ} {g : β → List δ}
    (hfg : ∀ x y, related x y → List.Forall₂ results (f x) (g y)) :
    List.Forall₂ results (xs.flatMap f) (ys.flatMap g) := by
  induction hrel with
  | nil => exact .nil
  | @cons x y xs ys hhead _ ih =>
    rw [List.flatMap_cons, List.flatMap_cons]
    exact List.rel_append (hfg x y hhead) ih

theorem rel_zip {xs : List α} {ys : List β} (hrel : List.Forall₂ related xs ys) (zs : List γ) :
    List.Forall₂ (fun entry entry' => related entry.1 entry'.1 ∧ entry.2 = entry'.2) (xs.zip zs)
      (ys.zip zs) := by
  induction hrel generalizing zs with
  | nil => exact .nil
  | cons hhead _ ih =>
    cases zs with
    | nil => exact .nil
    | cons z zs => exact .cons ⟨hhead, rfl⟩ (ih zs)

theorem rel_isEmpty {xs : List α} {ys : List β} (hrel : List.Forall₂ related xs ys) :
    xs.isEmpty = ys.isEmpty := by
  cases hrel <;> rfl

theorem rel_head? {xs : List α} {ys : List β} (hrel : List.Forall₂ related xs ys) :
    Option.Rel related xs.head? ys.head? := by
  cases hrel with
  | nil => exact .none
  | cons hhead _ => exact .some hhead

theorem rel_getD {first : Option α} {second : Option β} (hrel : Option.Rel related first second)
    {x : α} {y : β} (hxy : related x y) : related (first.getD x) (second.getD y) := by
  cases hrel with
  | none => exact hxy
  | some h => exact h

theorem rel_map {first : Option α} {second : Option β} (hrel : Option.Rel related first second)
    {f : α → γ} {g : β → δ} (hfg : ∀ x y, related x y → results (f x) (g y)) :
    Option.Rel results (first.map f) (second.map g) := by
  cases hrel with
  | none => exact .none
  | some h => exact .some (hfg _ _ h)

theorem rel_bind {first : Option α} {second : Option β} (hrel : Option.Rel related first second)
    {f : α → Option γ} {g : β → Option δ}
    (hfg : ∀ x y, related x y → Option.Rel results (f x) (g y)) :
    Option.Rel results (first.bind f) (second.bind g) := by
  cases hrel with
  | none => exact .none
  | some h => exact hfg _ _ h

end Related

/-! ### Twins -/

/-- Bindings that are the same but for the nodes they name. -/
inductive Binding.Twin (related : NodeId → NodeId → Prop) : Binding → Binding → Prop
  | resolved {left right : NodeId} (hrelated : related left right) :
    Twin related (.resolved left) (.resolved right)
  | unresolved (reason : String) : Twin related (.unresolved reason) (.unresolved reason)
  | external (name : String) : Twin related (.external name) (.external name)

theorem Binding.Twin.target? {related : NodeId → NodeId → Prop} {left right : Binding}
    (htwin : left.Twin related right) : Option.Rel related left.target? right.target? := by
  cases htwin with
  | resolved hrelated => exact .some hrelated
  | unresolved reason => exact .none
  | external name => exact .none

theorem Binding.Twin.eq {left right : Binding} (htwin : left.Twin Eq right) : left = right := by
  cases htwin with
  | resolved hrelated => rw [hrelated]
  | unresolved reason => rfl
  | external name => rfl

/-- Files that are the same but for their nodes. Their imports are related in a way of their own. -/
structure SourceFile.Twin (related imported : NodeId → NodeId → Prop) (left right : SourceFile) :
    Prop where
  path : left.path = right.path
  parsed : left.parsed = right.parsed
  facts : left.facts = right.facts
  plans : left.plans = right.plans
  node : related left.node right.node
  symbols : List.Forall₂ related left.symbols right.symbols
  imports : List.Forall₂ imported left.imports right.imports

namespace SourceFile.Twin

variable {related imported : NodeId → NodeId → Prop} {left right : SourceFile}
  (htwin : left.Twin related imported right)

include htwin

theorem language : left.language = right.language := by
  rw [SourceFile.language, htwin.parsed, SourceFile.language]

theorem symbol? (index : Nat) : Option.Rel related (left.symbol? index) (right.symbol? index) :=
  rel_getElem? htwin.symbols index

theorem planned? (index : Nat) : left.planned? index = right.planned? index := by
  rw [SourceFile.planned?, htwin.facts, htwin.plans, SourceFile.planned?]

theorem topLevel (name : String) :
    Option.Rel related ((left.facts.topLevelSymbol? name).bind left.symbol?)
      ((right.facts.topLevelSymbol? name).bind right.symbol?) := by
  rw [htwin.facts]
  cases right.facts.topLevelSymbol? name with
  | none => exact .none
  | some index => exact htwin.symbol? index

theorem member? (index : Nat) (name : String) :
    Option.Rel related (left.member? index name) (right.member? index name) := by
  rw [SourceFile.member?, SourceFile.member?, htwin.facts]
  cases right.facts.member? index name with
  | none => exact .none
  | some member => exact htwin.symbol? member

end SourceFile.Twin

/-! ### What a search finds in a file -/

/-- The import that binds a name at the top level. -/
def FileFacts.rootImport? (facts : FileFacts) (name : String) : Option Nat :=
  facts.scopes.rootScope?.bind fun scope => scope.import? name

namespace SourceFile

/-- The symbol that a file declares at its top level under a name. -/
def declared? (file : SourceFile) (name : String) : Option NodeId :=
  (file.facts.topLevelSymbol? name).bind file.symbol?

/-- An import at some place of the file, if the file exposes it. -/
def exposed? (file : SourceFile) (index : Nat) : Option (ImportFact × ModulePlan) :=
  (file.planned? index).filter fun entry => entry.1.isExposed file.language

end SourceFile

/-- Files in which a search finds the same, but for the nodes. -/
structure SourceFile.LooksLike (related : NodeId → NodeId → Prop) (left right : SourceFile) :
    Prop where
  path : left.path = right.path
  language : left.language = right.language
  node : related left.node right.node
  sought : ∀ name, Workspace.soughtName? left name = Workspace.soughtName? right name
  declared : ∀ name, Option.Rel related (left.declared? name) (right.declared? name)
  named : ∀ name, (left.facts.rootImport? name).bind left.exposed? =
    (right.facts.rootImport? name).bind right.exposed?
  wildcards : (Workspace.wildcardsOf left).filterMap left.exposed? =
    (Workspace.wildcardsOf right).filterMap right.exposed?

theorem SourceFile.LooksLike.refl (file : SourceFile) : file.LooksLike Eq file where
  path := rfl
  language := rfl
  node := rfl
  sought := fun _ => rfl
  declared := by
    intro name
    cases file.declared? name with
    | none => exact .none
    | some id => exact .some rfl
  named := fun _ => rfl
  wildcards := rfl

theorem SourceFile.Twin.exposed? {related imported : NodeId → NodeId → Prop}
    {left right : SourceFile} (htwin : left.Twin related imported right) (index : Nat) :
    left.exposed? index = right.exposed? index := by
  rw [SourceFile.exposed?, htwin.planned?, htwin.language, SourceFile.exposed?]

theorem SourceFile.Twin.looksLike {related imported : NodeId → NodeId → Prop}
    {left right : SourceFile} (htwin : left.Twin related imported right) :
    left.LooksLike related right where
  path := htwin.path
  language := htwin.language
  node := htwin.node
  sought := fun name => by rw [Workspace.soughtName?, htwin.facts, Workspace.soughtName?]
  declared := htwin.topLevel
  named := fun name => by rw [htwin.facts, funext htwin.exposed?]
  wildcards := by
    rw [Workspace.wildcardsOf, htwin.facts, funext htwin.exposed?, Workspace.wildcardsOf]

namespace Workspace

theorem searchImport_eq (workspace : Workspace) (search : MemberSearch) (file : SourceFile)
    (name : String) (seen : List Path) : workspace.searchImport search file name seen =
      match (file.facts.rootImport? name).bind file.exposed? with
      | none => (none, seen)
      | some (fact, plan) =>
        match workspace.resolveWith search file.language fact plan seen with
        | (.unresolved _, seen) => (none, seen)
        | (found, seen) => (some found, seen) := by
  rw [searchImport, FileFacts.rootImport?]
  cases file.facts.scopes.rootScope? with
  | none => rfl
  | some scope =>
    simp only [Option.bind_eq_bind, Option.bind_some]
    cases scope.import? name with
    | none => rfl
    | some index =>
      simp only [Option.bind_some, SourceFile.exposed?]
      cases file.planned? index with
      | none => rfl
      | some entry =>
        obtain ⟨fact, plan⟩ := entry
        cases hexposed : fact.isExposed file.language <;>
          simp only [guard, Option.filter, Option.bind_some, hexposed] <;> rfl

theorem searchWildcard_eq (workspace : Workspace) (search : MemberSearch) (file : SourceFile)
    (name : String) (index : Nat) (seen : List Path) :
    workspace.searchWildcard search file name index seen =
      match file.exposed? index with
      | none => (none, seen)
      | some (_, plan) =>
        search (workspace.firstPresent file.language plan.candidates) name seen := by
  rw [searchWildcard, SourceFile.exposed?]
  cases file.planned? index with
  | none => rfl
  | some entry =>
    obtain ⟨fact, plan⟩ := entry
    cases hexposed : fact.isExposed file.language <;> simp [Option.filter, hexposed]

theorem firstFound_searchWildcard (workspace : Workspace) (search : MemberSearch)
    (file : SourceFile) (name : String) (indices : List Nat) (seen : List Path) :
    firstFound (workspace.searchWildcard search file name) indices seen =
      firstFound (fun entry : ImportFact × ModulePlan =>
          search (workspace.firstPresent file.language entry.2.candidates) name)
        (indices.filterMap file.exposed?) seen := by
  induction indices generalizing seen with
  | nil => rfl
  | cons index indices ih =>
    rw [firstFound, searchWildcard_eq]
    cases hexposed : file.exposed? index with
    | none => exact (ih seen).trans (by rw [List.filterMap_cons_none hexposed])
    | some entry =>
      obtain ⟨fact, plan⟩ := entry
      rw [List.filterMap_cons_some hexposed, firstFound]
      dsimp only
      generalize search (workspace.firstPresent file.language plan.candidates) name seen = answer
      obtain ⟨found, later⟩ := answer
      cases found with
      | none => exact ih later
      | some binding => rfl

/-! ### Files at the same places -/

section Places

variable {alike : SourceFile → SourceFile → Prop} {left right : Workspace}
  (hpath : ∀ {file other}, alike file other → file.path = other.path)
  (hlanguage : ∀ {file other}, alike file other → file.language = other.language)
  (hfiles : List.Forall₂ alike left.files right.files)

include hpath hfiles

theorem rel_file? (path : Path) : Option.Rel alike (left.file? path) (right.file? path) :=
  rel_find? hfiles fun _ _ halike => by rw [hpath halike]

include hlanguage

theorem rel_packageFiles (directory : Path) (language : Language) :
    List.Forall₂ alike (left.packageFiles directory language)
      (right.packageFiles directory language) :=
  rel_filter hfiles fun _ _ halike => by rw [hpath halike, hlanguage halike]

theorem rel_present (language : Language) (candidate : Candidate) :
    List.Forall₂ alike (left.present language candidate) (right.present language candidate) := by
  cases candidate with
  | file path =>
    simp only [present]
    rcases rel_cases (rel_file? hpath hfiles path) with ⟨hleft, hright⟩ | ⟨_, _, hleft, hright, h⟩
    · rw [hleft, hright]
      exact .nil
    · rw [hleft, hright]
      exact .cons h .nil
  | package directory => exact rel_packageFiles hpath hlanguage hfiles directory language

theorem rel_firstPresent (language : Language) (candidates : List Candidate) :
    List.Forall₂ alike (left.firstPresent language candidates)
      (right.firstPresent language candidates) := by
  have hlists : List.Forall₂ (List.Forall₂ alike) (candidates.map (left.present language))
      (candidates.map (right.present language)) :=
    List.forall₂_map_left_iff.2 (List.forall₂_map_right_iff.2
      (List.forall₂_same.2 fun candidate _ => rel_present hpath hlanguage hfiles language candidate))
  exact rel_getD (rel_find? hlists fun _ _ h => by rw [rel_isEmpty h]) .nil

end Places

/-! ### The same answers -/

/-- Files that look the same in both workspaces. -/
abbrev SameLooks (related : NodeId → NodeId → Prop) (left right : Workspace) : Prop :=
  List.Forall₂ (SourceFile.LooksLike related) left.files right.files

/-- Related answers of two searches, which have seen the same files. -/
def SameAnswer (related : NodeId → NodeId → Prop) (left right : Option Binding × List Path) :
    Prop :=
  Option.Rel (Binding.Twin related) left.1 right.1 ∧ left.2 = right.2

/-- Two searches that answer alike for files that look the same. -/
def SameSearch (related : NodeId → NodeId → Prop) (left right : MemberSearch) : Prop :=
  ∀ lefts rights, List.Forall₂ (SourceFile.LooksLike related) lefts rights → ∀ name seen,
    SameAnswer related (left lefts name seen) (right rights name seen)

section SameLooks

variable {related : NodeId → NodeId → Prop} {left right : Workspace}

theorem SameLooks.firstPresent (hsame : SameLooks related left right) (language : Language)
    (candidates : List Candidate) : List.Forall₂ (SourceFile.LooksLike related)
      (left.firstPresent language candidates) (right.firstPresent language candidates) :=
  rel_firstPresent SourceFile.LooksLike.path SourceFile.LooksLike.language hsame language candidates

theorem SameLooks.submodule? (hsame : SameLooks related left right) (language : Language)
    (plan : ModulePlan) : Option.Rel (Binding.Twin related) (left.submodule? language plan)
      (right.submodule? language plan) :=
  rel_map (rel_head? (hsame.firstPresent language plan.memberCandidates)) fun _ _ hlooks =>
    .resolved hlooks.node

theorem twin_fallback (fallback : Fallback) :
    Binding.Twin related fallback.binding fallback.binding := by
  cases fallback with
  | unresolved reason => exact .unresolved reason
  | external name => exact .external name

theorem SameLooks.resolveWith (hsame : SameLooks related left right)
    {search search' : MemberSearch} (hsearch : SameSearch related search search')
    (language : Language) (fact : ImportFact) (plan : ModulePlan) (seen : List Path) :
    Binding.Twin related (left.resolveWith search language fact plan seen).1
        (right.resolveWith search' language fact plan seen).1 ∧
      (left.resolveWith search language fact plan seen).2 =
        (right.resolveWith search' language fact plan seen).2 := by
  have hfiles := hsame.firstPresent language plan.candidates
  rw [Workspace.resolveWith, Workspace.resolveWith]
  revert hfiles
  generalize left.firstPresent language plan.candidates = lefts
  generalize right.firstPresent language plan.candidates = rights
  intro hfiles
  cases hfiles with
  | nil =>
    cases fact.member with
    | none => exact ⟨twin_fallback _, rfl⟩
    | some member => exact ⟨rel_getD (hsame.submodule? language plan) (twin_fallback _), rfl⟩
  | @cons first second lefts rights hhead htail =>
    cases fact.member with
    | none => exact ⟨.resolved hhead.node, rfl⟩
    | some member =>
      simp only
      split
      · exact ⟨.resolved hhead.node, rfl⟩
      · obtain ⟨hfound, hseen⟩ := hsearch _ _ (.cons hhead htail) member seen
        revert hfound hseen
        generalize search (first :: lefts) member seen = answer
        generalize search' (second :: rights) member seen = answer'
        intro hfound hseen
        obtain ⟨found, seen⟩ := answer
        obtain ⟨found', seen'⟩ := answer'
        cases hfound with
        | none => exact ⟨rel_getD (hsame.submodule? language plan) (.unresolved _), hseen⟩
        | some htwin => exact ⟨htwin, hseen⟩

theorem sameAnswer_firstFound {α β : Type} (items : α → β → Prop)
    {search : α → Seeking (Option Binding)} {search' : β → Seeking (Option Binding)}
    (hsearch : ∀ x y, items x y → ∀ seen, SameAnswer related (search x seen) (search' y seen))
    {xs : List α} {ys : List β} (hitems : List.Forall₂ items xs ys) (seen : List Path) :
    SameAnswer related (firstFound search xs seen) (firstFound search' ys seen) := by
  induction hitems generalizing seen with
  | nil => exact ⟨.none, rfl⟩
  | @cons x y xs ys hhead _ ih =>
    obtain ⟨hfound, hseen⟩ := hsearch x y hhead seen
    rw [firstFound, firstFound]
    revert hfound hseen
    generalize search x seen = answer
    generalize search' y seen = answer'
    intro hfound hseen
    obtain ⟨found, seen⟩ := answer
    obtain ⟨found', seen'⟩ := answer'
    obtain rfl : seen = seen' := hseen
    cases hfound with
    | none => exact ih seen
    | some htwin => exact ⟨.some htwin, rfl⟩

theorem SameLooks.searchImport (hsame : SameLooks related left right)
    {search search' : MemberSearch} (hsearch : SameSearch related search search')
    {first second : SourceFile} (hlooks : first.LooksLike related second) (name : String)
    (seen : List Path) : SameAnswer related (left.searchImport search first name seen)
      (right.searchImport search' second name seen) := by
  rw [searchImport_eq, searchImport_eq, hlooks.named, hlooks.language]
  split
  · exact ⟨.none, rfl⟩
  · rename_i fact plan _
    obtain ⟨hbinding, hseen⟩ := hsame.resolveWith hsearch second.language fact plan seen
    revert hbinding hseen
    generalize left.resolveWith search second.language fact plan seen = answer
    generalize right.resolveWith search' second.language fact plan seen = answer'
    intro hbinding hseen
    obtain ⟨binding, seen⟩ := answer
    obtain ⟨binding', seen'⟩ := answer'
    cases hbinding with
    | unresolved reason => exact ⟨.none, hseen⟩
    | resolved hrelated => exact ⟨.some (.resolved hrelated), hseen⟩
    | external name => exact ⟨.some (.external name), hseen⟩

theorem SameLooks.searchWildcards (hsame : SameLooks related left right)
    {search search' : MemberSearch} (hsearch : SameSearch related search search')
    {first second : SourceFile} (hlooks : first.LooksLike related second) (name : String)
    (seen : List Path) :
    SameAnswer related (firstFound (left.searchWildcard search first name) (wildcardsOf first) seen)
      (firstFound (right.searchWildcard search' second name) (wildcardsOf second) seen) := by
  rw [firstFound_searchWildcard, firstFound_searchWildcard, hlooks.wildcards, hlooks.language]
  exact sameAnswer_firstFound Eq (fun entry _ heq seen =>
    heq ▸ hsearch _ _ (hsame.firstPresent _ _) name seen) (List.forall₂_same.2 fun _ _ => rfl) seen

theorem SameLooks.searchFile (hsame : SameLooks related left right)
    {search search' : MemberSearch} (hsearch : SameSearch related search search')
    {first second : SourceFile} (hlooks : first.LooksLike related second) (name : String)
    (seen : List Path) : SameAnswer related (left.searchFile search name first seen)
      (right.searchFile search' name second seen) := by
  rw [Workspace.searchFile, Workspace.searchFile, hlooks.path, hlooks.sought]
  split
  · exact ⟨.none, rfl⟩
  · simp only
    split
    · exact ⟨.none, rfl⟩
    · rename_i name _
      rcases rel_cases (hlooks.declared name) with ⟨hleft, hright⟩ | ⟨_, _, hleft, hright, hrelated⟩
      · rw [SourceFile.declared?] at hleft hright
        rw [hleft, hright]
        obtain ⟨hfound, hseen⟩ :=
          hsame.searchImport hsearch hlooks name (second.path :: seen)
        simp only
        revert hfound hseen
        generalize left.searchImport search first name (second.path :: seen) = answer
        generalize right.searchImport search' second name (second.path :: seen) = answer'
        intro hfound hseen
        obtain ⟨found, seen⟩ := answer
        obtain ⟨found', seen'⟩ := answer'
        obtain rfl : seen = seen' := hseen
        cases hfound with
        | none => exact hsame.searchWildcards hsearch hlooks name seen
        | some hbinding => exact ⟨.some hbinding, rfl⟩
      · rw [SourceFile.declared?] at hleft hright
        rw [hleft, hright]
        exact ⟨.some (.resolved hrelated), rfl⟩

/-- By induction on the depth of the search. -/
theorem SameLooks.searchWithin (hsame : SameLooks related left right) (depth : Nat) :
    SameSearch related (left.searchWithin depth) (right.searchWithin depth) := by
  induction depth with
  | zero => exact fun _ _ _ _ _ => ⟨.none, rfl⟩
  | succ depth ih =>
    intro lefts rights hfiles name seen
    exact sameAnswer_firstFound (SourceFile.LooksLike related)
      (fun _ _ hlooks seen => hsame.searchFile ih hlooks name seen) hfiles seen

theorem SameLooks.searchMember (hsame : SameLooks related left right) :
    SameSearch related left.searchMember right.searchMember := by
  rw [Workspace.searchMember, Workspace.searchMember, hsame.length_eq]
  exact hsame.searchWithin _

/-- **An import stands for the same in both workspaces.** -/
theorem SameLooks.resolveImport (hsame : SameLooks related left right) (language : Language)
    (fact : ImportFact) (plan : ModulePlan) :
    Binding.Twin related (left.resolveImport language fact plan)
      (right.resolveImport language fact plan) :=
  (hsame.resolveWith hsame.searchMember language fact plan []).1

end SameLooks

/-! ### The same files -/

/-- The same files in both workspaces. -/
abbrev SameFiles (related imported : NodeId → NodeId → Prop) (left right : Workspace) : Prop :=
  List.Forall₂ (SourceFile.Twin related imported) left.files right.files

section SameFiles

variable {related imported : NodeId → NodeId → Prop} {left right : Workspace}

theorem SameFiles.file? (hsame : SameFiles related imported left right) (path : Path) :
    Option.Rel (SourceFile.Twin related imported) (left.file? path) (right.file? path) :=
  rel_file? SourceFile.Twin.path hsame path

theorem SameFiles.packageFiles (hsame : SameFiles related imported left right) (directory : Path)
    (language : Language) : List.Forall₂ (SourceFile.Twin related imported)
      (left.packageFiles directory language) (right.packageFiles directory language) :=
  rel_packageFiles SourceFile.Twin.path SourceFile.Twin.language hsame directory language

theorem SameFiles.firstPresent (hsame : SameFiles related imported left right) (language : Language)
    (candidates : List Candidate) : List.Forall₂ (SourceFile.Twin related imported)
      (left.firstPresent language candidates) (right.firstPresent language candidates) :=
  rel_firstPresent SourceFile.Twin.path SourceFile.Twin.language hsame language candidates

theorem SameFiles.sameLooks (hsame : SameFiles related imported left right) :
    SameLooks related left right :=
  hsame.imp fun _ _ htwin => htwin.looksLike

theorem SameFiles.lookupMember (hsame : SameFiles related imported left right)
    {lefts rights : List SourceFile}
    (hfiles : List.Forall₂ (SourceFile.Twin related imported) lefts rights) (name : String) :
    Option.Rel (Binding.Twin related) (left.lookupMember lefts name)
      (right.lookupMember rights name) :=
  (hsame.sameLooks.searchMember lefts rights (hfiles.imp fun _ _ htwin => htwin.looksLike)
    name []).1

theorem SameFiles.resolveImport (hsame : SameFiles related imported left right) (language : Language)
    (fact : ImportFact) (plan : ModulePlan) :
    Binding.Twin related (left.resolveImport language fact plan)
      (right.resolveImport language fact plan) :=
  hsame.sameLooks.resolveImport language fact plan

end SameFiles

/-! ### Targets -/

/-- A node that an import can stand for. -/
def IsTarget (workspace : Workspace) (id : NodeId) : Prop :=
  ∃ file ∈ workspace.files, id = file.node ∨ id ∈ file.symbols

/-- Every workspace has the same files as itself. -/
theorem sameFiles_refl (workspace : Workspace) :
    SameFiles (fun left right => left = right ∧ workspace.IsTarget left) Eq workspace workspace := by
  refine List.forall₂_same.2 fun file hfile =>
    ⟨rfl, rfl, rfl, rfl, ⟨rfl, file, hfile, .inl rfl⟩, ?_, List.forall₂_same.2 fun _ _ => rfl⟩
  exact List.forall₂_same.2 fun id hid => ⟨rfl, file, hfile, .inr hid⟩

theorem isTarget_of_resolveImport {workspace : Workspace} {language : Language} {fact : ImportFact}
    {plan : ModulePlan} {target : NodeId}
    (hresolve : workspace.resolveImport language fact plan = .resolved target) :
    workspace.IsTarget target := by
  have htwin := (sameFiles_refl workspace).resolveImport language fact plan
  rw [hresolve] at htwin
  cases htwin with
  | resolved hrelated => exact hrelated.2

/-- What an import stands for depends on the files only. -/
theorem resolveImport_eq_of_files {left right : Workspace} (hfiles : left.files = right.files)
    (language : Language) (fact : ImportFact) (plan : ModulePlan) :
    left.resolveImport language fact plan = right.resolveImport language fact plan := by
  have hsame : SameLooks Eq left right := by
    rw [SameLooks, hfiles]
    exact List.forall₂_same.2 fun file _ => .refl file
  exact (hsame.resolveImport language fact plan).eq

end Workspace

end CodeGraph
