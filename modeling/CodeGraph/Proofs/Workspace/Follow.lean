import CodeGraph.Proofs.Workspace.Resolve

/-!
# Searches that go along

When a file moves, a search for one of its nodes is to come to the same node as before. It does if
the search looks at the same files after the move, one of which lies elsewhere, as long as it comes
to nothing or to a node inside that file. What comes of a search that finds anything else does not
matter.
-/

namespace CodeGraph

/-- Where what lies at a path is found once the file at `source` has moved to `target`. -/
def Path.moved (source target path : Path) : Path :=
  if path = source then target else path

theorem Path.moved_inj {source target first second : Path} (hfirst : first ≠ target)
    (hsecond : second ≠ target) (heq : moved source target first = moved source target second) :
    first = second := by
  rw [moved, moved] at heq
  by_cases hold : first = source <;> by_cases hold' : second = source
  · exact hold.trans hold'.symm
  · rw [if_pos hold, if_neg hold'] at heq
    exact absurd heq.symm hsecond
  · rw [if_neg hold, if_pos hold'] at heq
    exact absurd heq hfirst
  · rwa [if_neg hold, if_neg hold'] at heq

/-- The name that an import looks up in the files that it finds. -/
def ImportFact.sought? (fact : ImportFact) : Option String :=
  if fact.wildcard then none else fact.member

namespace Workspace

/-! ### Going along -/

section Along

variable (source target : Path) (inside : NodeId → Prop)

/-- A binding to a node inside. -/
def LeadsInside (binding : Binding) : Prop :=
  ∃ id, inside id ∧ binding = .resolved id

/-- A file and the one that it has become. -/
structure Becomes (file now : SourceFile) : Prop where
  path : now.path = Path.moved source target file.path
  apart : file.path ≠ target
  language : now.language = file.language
  node : inside file.node → now.node = file.node

/-- The answer of a search, and one that goes along with it: as long as the search comes to nothing
or inside, the other comes to the same and has seen the same files. -/
structure Along (answer now : Option Binding × List Path) : Prop where
  settled : ∀ reason, answer.1 ≠ some (.unresolved reason)
  apart : ∀ path ∈ answer.2, path ≠ target
  same : (∀ binding, answer.1 = some binding → LeadsInside inside binding) →
    now = (answer.1, answer.2.map (Path.moved source target))

/-- The same for what an import stands for. -/
structure BindsAlong (answer now : Binding × List Path) : Prop where
  apart : ∀ path ∈ answer.2, path ≠ target
  resolved : LeadsInside inside answer.1 →
    now = (answer.1, answer.2.map (Path.moved source target))
  unresolved : ∀ reason, answer.1 = .unresolved reason →
    ∃ reason', now = (.unresolved reason', answer.2.map (Path.moved source target))

/-- Searches that go along wherever they are asked. -/
def SearchesAlong (asked : SourceFile → String → SourceFile → Prop)
    (search now : MemberSearch) : Prop :=
  ∀ files others name, List.Forall₂ (fun file other => asked file name other) files others →
    ∀ seen, (∀ path ∈ seen, path ≠ target) → Along source target inside (search files name seen)
      (now others name (seen.map (Path.moved source target)))

variable {source target inside}

theorem along_none {seen : List Path} (hseen : ∀ path ∈ seen, path ≠ target) :
    Along source target inside (none, seen) (none, seen.map (Path.moved source target)) where
  settled := fun _ h => by cases h
  apart := hseen
  same := fun _ => rfl

theorem along_firstFound {α β : Type} {items : α → β → Prop}
    {search : α → Seeking (Option Binding)} {now : β → Seeking (Option Binding)}
    (hsearch : ∀ x y, items x y → ∀ seen, (∀ path ∈ seen, path ≠ target) →
      Along source target inside (search x seen) (now y (seen.map (Path.moved source target))))
    {xs : List α} {ys : List β} (hitems : List.Forall₂ items xs ys) {seen : List Path}
    (hseen : ∀ path ∈ seen, path ≠ target) :
    Along source target inside (firstFound search xs seen)
      (firstFound now ys (seen.map (Path.moved source target))) := by
  induction hitems generalizing seen with
  | nil => exact along_none hseen
  | @cons x y xs ys hhead _ ih =>
    obtain ⟨hsettled, hapart, hsame⟩ := hsearch x y hhead seen hseen
    rw [firstFound, firstFound]
    revert hsettled hapart hsame
    generalize search x seen = answer
    intro hsettled hapart hsame
    obtain ⟨found, later⟩ := answer
    cases found with
    | none =>
      rw [hsame fun _ h => by cases h]
      exact ih hapart
    | some found =>
      refine ⟨hsettled, hapart, fun hinside => ?_⟩
      rw [hsame hinside]

end Along

/-! ### Imports and files -/

section Comes

variable (source target : Path) (inside : NodeId → Prop) (before after : Workspace)
  (asked : SourceFile → String → SourceFile → Prop)

/-- An import, and what it has become: it finds the same files, and nothing where it found nothing.
-/
structure Comes (language : Language) (entry now : ImportFact × ModulePlan) : Prop where
  member : now.1.member = entry.1.member
  wildcard : now.1.wildcard = entry.1.wildcard
  files : List.Forall₂ (fun file other => Becomes source target inside file other ∧
      ∀ member, entry.1.sought? = some member → asked file member other)
    (before.firstPresent language entry.2.candidates) (after.firstPresent language now.2.candidates)
  fallback : before.firstPresent language entry.2.candidates = [] →
    ∀ reason, entry.2.fallback = .unresolved reason →
      ∃ reason', now.2.fallback = .unresolved reason'

/-- An import finds the same module of its member's name, if it finds one inside or none. -/
def SameSubmodule (language : Language) (entry now : ImportFact × ModulePlan) : Prop :=
  (∀ binding, before.submodule? language entry.2 = some binding → LeadsInside inside binding) →
    after.submodule? language now.2 = before.submodule? language entry.2

/-- The imports of a file that a search for a name may follow, and what they have become. -/
structure Opens (file now : SourceFile) (name : String) : Prop where
  root : now.facts.rootImport? name = file.facts.rootImport? name
  wildcards : wildcardsOf now = wildcardsOf file
  named : ∀ index, file.facts.rootImport? name = some index →
    Option.Rel (fun entry other => Comes source target inside before after asked file.language
        entry other ∧ SameSubmodule inside before after file.language entry other)
      (file.exposed? index) (now.exposed? index)
  whole : ∀ index ∈ wildcardsOf file, Option.Rel (fun entry other =>
      List.Forall₂ (fun file other => asked file name other)
        (before.firstPresent file.language entry.2.candidates)
        (after.firstPresent file.language other.2.candidates))
    (file.exposed? index) (now.exposed? index)

/-- What a search for a name meets in a file, and what it meets in the one that the file has become.
-/
structure Meets (file : SourceFile) (name : String) (now : SourceFile) : Prop where
  becomes : Becomes source target inside file now
  sought : soughtName? now name = soughtName? file name
  declared : ∀ sought, soughtName? file name = some sought →
    (∀ id, file.declared? sought = some id → inside id) →
      now.declared? sought = file.declared? sought
  opens : ∀ sought, soughtName? file name = some sought → file.declared? sought = none →
    Opens source target inside before after asked file now sought

theorem fallback_ne_resolved (fallback : Fallback) (id : NodeId) :
    fallback.binding ≠ .resolved id := by
  cases fallback <;> simp [Fallback.binding]

variable {source target inside before after asked}

/-- Where nothing is found, what an import falls back to is no outside module if it was none. -/
theorem Comes.exists_unresolved {language : Language} {entry other : ImportFact × ModulePlan}
    (hcomes : Comes source target inside before after asked language entry other)
    (hnil : before.firstPresent language entry.2.candidates = []) {reason : String}
    (hreason : entry.2.fallback.binding = .unresolved reason) :
    ∃ reason', other.2.fallback.binding = .unresolved reason' := by
  cases hbefore : entry.2.fallback with
  | external name =>
    rw [hbefore] at hreason
    cases hreason
  | unresolved old =>
    obtain ⟨reason', hafter⟩ := hcomes.fallback hnil old hbefore
    exact ⟨reason', by rw [hafter]; rfl⟩

/-- An import that stands for a file stands for what the file has become. -/
theorem Becomes.bindsAlong {file now : SourceFile} (hbecomes : Becomes source target inside file now)
    {seen : List Path} (hseen : ∀ path ∈ seen, path ≠ target) :
    BindsAlong source target inside (.resolved file.node, seen)
      (.resolved now.node, seen.map (Path.moved source target)) where
  apart := hseen
  resolved := by
    rintro ⟨id, hid, heq⟩
    obtain rfl := Binding.resolved.inj heq
    rw [hbecomes.node hid]
  unresolved := fun _ h => by cases h

/-- Where a search comes to nothing an import stands for a submodule or for what it falls back to.
-/
theorem SameSubmodule.bindsAlong_last {language : Language} {entry other : ImportFact × ModulePlan}
    (hsubmodule : SameSubmodule inside before after language entry other)
    {seen : List Path} (hseen : ∀ path ∈ seen, path ≠ target) {last last' : Binding}
    (hresolved : ∀ id, last ≠ .resolved id)
    (hunresolved : ∀ reason, last = .unresolved reason → ∃ reason', last' = .unresolved reason') :
    BindsAlong source target inside ((before.submodule? language entry.2).getD last, seen)
      ((after.submodule? language other.2).getD last', seen.map (Path.moved source target)) := by
  cases hfound : before.submodule? language entry.2 with
  | none =>
    have hnone : after.submodule? language other.2 = none :=
      (hsubmodule fun binding h => by cases hfound.symm.trans h).trans hfound
    rw [hnone]
    refine ⟨hseen, ?_, fun reason hreason => ?_⟩
    · rintro ⟨id, -, hid⟩
      exact absurd hid (hresolved id)
    · obtain ⟨reason', rfl⟩ := hunresolved reason hreason
      exact ⟨reason', rfl⟩
  | some binding =>
    refine ⟨hseen, fun hinside => ?_, fun reason hreason => ?_⟩
    · have hsame : after.submodule? language other.2 = some binding :=
        (hsubmodule fun _ h => Option.some.inj (hfound.symm.trans h) ▸ hinside).trans hfound
      rw [hsame]
      rfl
    · rw [submodule?] at hfound
      obtain ⟨file, -, rfl⟩ := Option.map_eq_some_iff.1 hfound
      cases hreason

variable {search now : MemberSearch} (hsearch : SearchesAlong source target inside asked search now)

include hsearch

/-- What an import stands for goes along. The module of its member's name matters only where a
search for the member comes to nothing. -/
theorem bindsAlong_resolveWith {language : Language} {entry other : ImportFact × ModulePlan}
    (hcomes : Comes source target inside before after asked language entry other)
    {seen : List Path} (hseen : ∀ path ∈ seen, path ≠ target)
    (hsubmodule : (∀ member, entry.1.sought? = some member →
        before.firstPresent language entry.2.candidates ≠ [] →
        (search (before.firstPresent language entry.2.candidates) member seen).1 = none) →
      SameSubmodule inside before after language entry other) :
    BindsAlong source target inside (before.resolveWith search language entry.1 entry.2 seen)
      (after.resolveWith now language other.1 other.2 (seen.map (Path.moved source target))) := by
  have hfiles := hcomes.files
  have hfallback := hcomes.exists_unresolved
  rw [resolveWith, resolveWith, hcomes.member, hcomes.wildcard]
  revert hfiles hfallback hsubmodule
  generalize before.firstPresent language entry.2.candidates = files
  generalize after.firstPresent language other.2.candidates = others
  intro hsubmodule hfiles hfallback
  cases hfiles with
  | nil =>
    cases entry.1.member with
    | none =>
      refine ⟨hseen, ?_, fun reason hreason => ?_⟩
      · rintro ⟨id, -, heq⟩
        exact absurd heq (fallback_ne_resolved _ id)
      · obtain ⟨reason', hnow⟩ := hfallback rfl hreason
        exact ⟨reason', Prod.ext hnow rfl⟩
    | some member =>
      exact (hsubmodule fun _ _ hnone => absurd rfl hnone).bindsAlong_last hseen
        (fallback_ne_resolved _) fun _ => hfallback rfl
  | @cons file file' files others hhead htail =>
    cases hmember : entry.1.member with
    | none => exact hhead.1.bindsAlong hseen
    | some member =>
      simp only
      split
      · exact hhead.1.bindsAlong hseen
      · rename_i hwildcard
        have hsought : entry.1.sought? = some member := by
          rw [ImportFact.sought?, if_neg hwildcard, hmember]
        have hasked : List.Forall₂ (fun file other => asked file member other) (file :: files)
            (file' :: others) :=
          .cons (hhead.2 member hsought) (htail.imp fun _ _ h => h.2 member hsought)
        have hsubmodule : (search (file :: files) member seen).1 = none →
            SameSubmodule inside before after language entry other := fun hnone =>
          hsubmodule fun other hother _ => by
            rwa [← Option.some.inj (hsought.symm.trans hother)]
        obtain ⟨hsettled, hapart, hsame⟩ := hsearch _ _ member hasked seen hseen
        revert hsettled hapart hsame hsubmodule
        generalize search (file :: files) member seen = answer
        intro hsubmodule hsettled hapart hsame
        obtain ⟨found, later⟩ := answer
        cases found with
        | none =>
          rw [hsame fun _ h => by cases h]
          exact (hsubmodule rfl).bindsAlong_last hapart (by simp) fun _ _ => ⟨_, rfl⟩
        | some found =>
          refine ⟨hapart, fun hinside => ?_, fun reason hreason => ?_⟩
          · rw [hsame fun binding h => Option.some.inj h ▸ hinside]
          · exact absurd (congrArg some hreason) (hsettled reason)

variable {file file' : SourceFile} {name : String}

theorem along_searchImport (hlanguage : file'.language = file.language)
    (hopens : Opens source target inside before after asked file file' name) {seen : List Path}
    (hseen : ∀ path ∈ seen, path ≠ target) :
    Along source target inside (before.searchImport search file name seen)
      (after.searchImport now file' name (seen.map (Path.moved source target))) := by
  rw [searchImport_eq, searchImport_eq, hopens.root]
  cases hroot : file.facts.rootImport? name with
  | none => exact along_none hseen
  | some index =>
    simp only [Option.bind_some]
    rcases rel_cases (hopens.named index hroot) with ⟨hleft, hright⟩ | ⟨_, _, hleft, hright, hcomes⟩
    · rw [hleft, hright]
      exact along_none hseen
    · rw [hleft, hright]
      obtain ⟨hapart, hresolved, hunresolved⟩ :=
        bindsAlong_resolveWith hsearch hcomes.1 hseen fun _ => hcomes.2
      simp only [hlanguage]
      revert hapart hresolved hunresolved
      generalize before.resolveWith search file.language _ _ seen = answer
      intro hapart hresolved hunresolved
      obtain ⟨binding, later⟩ := answer
      cases binding with
      | unresolved reason =>
        obtain ⟨reason', hnow⟩ := hunresolved reason rfl
        rw [hnow]
        exact along_none hapart
      | resolved id =>
        refine ⟨by simp, hapart, fun hinside => ?_⟩
        rw [hresolved (hinside _ rfl)]
      | external name =>
        refine ⟨by simp, hapart, fun hinside => ?_⟩
        obtain ⟨id, -, hid⟩ := hinside _ rfl
        cases hid

theorem along_searchWildcard (hlanguage : file'.language = file.language)
    (hopens : Opens source target inside before after asked file file' name) {index : Nat}
    (hindex : index ∈ wildcardsOf file) {seen : List Path} (hseen : ∀ path ∈ seen, path ≠ target) :
    Along source target inside (before.searchWildcard search file name index seen)
      (after.searchWildcard now file' name index (seen.map (Path.moved source target))) := by
  rw [searchWildcard_eq, searchWildcard_eq, hlanguage]
  rcases rel_cases (hopens.whole index hindex) with ⟨hleft, hright⟩ | ⟨_, _, hleft, hright, hfiles⟩
  · rw [hleft, hright]
    exact along_none hseen
  · rw [hleft, hright]
    exact hsearch _ _ name hfiles seen hseen

/-- A file is searched along once it has been seen. -/
theorem along_searchFile (hmeets : Meets source target inside before after asked file name file')
    {seen : List Path} (hseen : ∀ path ∈ seen, path ≠ target) :
    Along source target inside (before.searchFile search name file seen)
      (after.searchFile now name file' (seen.map (Path.moved source target))) := by
  obtain ⟨⟨hpath, hapart, hlanguage, -⟩, hsought, hdeclared, hopens⟩ := hmeets
  have hmem : file'.path ∈ seen.map (Path.moved source target) ↔ file.path ∈ seen := by
    rw [hpath, List.mem_map]
    refine ⟨?_, fun h => ⟨_, h, rfl⟩⟩
    rintro ⟨path, hpath, hmoved⟩
    exact Path.moved_inj (hseen path hpath) hapart hmoved ▸ hpath
  have hmore : ∀ path ∈ file.path :: seen, path ≠ target := by
    simp only [List.mem_cons]
    rintro path (rfl | hpath)
    · exact hapart
    · exact hseen path hpath
  rw [searchFile, searchFile]
  by_cases hold : file.path ∈ seen
  · rw [if_pos hold, if_pos (hmem.2 hold)]
    exact along_none hseen
  · rw [if_neg hold, if_neg fun h => hold (hmem.1 h), hsought, hpath, ← List.map_cons]
    cases hname : soughtName? file name with
    | none => exact along_none hmore
    | some sought =>
      simp only
      have hdeclared := hdeclared sought hname
      have hopens := hopens sought hname
      rw [SourceFile.declared?, SourceFile.declared?] at hdeclared
      rw [SourceFile.declared?] at hopens
      revert hdeclared hopens
      generalize (file.facts.topLevelSymbol? sought).bind file.symbol? = declared
      intro hdeclared hopens
      cases declared with
      | some id =>
        refine ⟨by simp, hmore, fun hinside => ?_⟩
        obtain ⟨_, hid, heq⟩ := hinside _ rfl
        obtain rfl := Binding.resolved.inj heq
        rw [hdeclared fun _ h => Option.some.inj h ▸ hid]
      | none =>
        have hopens := hopens rfl
        have hundeclared := hdeclared fun _ h => by cases h
        rw [hundeclared, hopens.wildcards]
        simp only
        obtain ⟨hsettled, hapart, hsame⟩ := along_searchImport hsearch hlanguage hopens hmore
        revert hsettled hapart hsame
        generalize before.searchImport search file sought (file.path :: seen) = answer
        intro hsettled hapart hsame
        obtain ⟨found, later⟩ := answer
        cases found with
        | some found =>
          refine ⟨hsettled, hapart, fun hinside => ?_⟩
          rw [hsame hinside]
        | none =>
          rw [hsame fun _ h => by cases h]
          have hwildcards : List.Forall₂ (fun index other => index = other ∧
              index ∈ wildcardsOf file) (wildcardsOf file) (wildcardsOf file) :=
            List.forall₂_same.2 fun _ h => ⟨rfl, h⟩
          refine along_firstFound ?_ hwildcards hapart
          rintro index _ ⟨rfl, hindex⟩ seen hseen
          exact along_searchWildcard hsearch hlanguage hopens hindex hseen

omit hsearch in
/-- **Searches of all depths go along**, wherever what is asked meets what it met before. By
induction on the depth. -/
theorem searchesAlong_searchWithin (hmeets : ∀ file name file', asked file name file' →
      Meets source target inside before after asked file name file') (depth : Nat) :
    SearchesAlong source target inside asked (before.searchWithin depth)
      (after.searchWithin depth) := by
  induction depth with
  | zero => exact fun _ _ _ _ seen hseen => along_none hseen
  | succ depth ih =>
    intro files others name hfiles seen hseen
    exact along_firstFound (fun file file' hasked seen hseen =>
      along_searchFile ih (hmeets file name file' hasked) hseen) hfiles hseen

omit hsearch in
/-- **An import that comes to a node inside still does** when it has become one that finds the same
files, and so has everything that the search for its member asks. -/
theorem resolveImport_along (hlength : after.files.length = before.files.length)
    (hmeets : ∀ file name file', asked file name file' →
      Meets source target inside before after asked file name file')
    {language : Language} {entry other : ImportFact × ModulePlan}
    (hcomes : Comes source target inside before after asked language entry other)
    (hsubmodule : (∀ member, entry.1.sought? = some member →
        before.lookupMember (before.firstPresent language entry.2.candidates) member = none) →
      SameSubmodule inside before after language entry other)
    {id : NodeId} (hinside : inside id)
    (hresolve : before.resolveImport language entry.1 entry.2 = .resolved id) :
    after.resolveImport language other.1 other.2 = .resolved id := by
  have hsearch :
      SearchesAlong source target inside asked before.searchMember after.searchMember := by
    rw [searchMember, searchMember, hlength]
    exact searchesAlong_searchWithin hmeets _
  have hbinds : BindsAlong source target inside
      (before.resolveWith before.searchMember language entry.1 entry.2 [])
      (after.resolveWith after.searchMember language other.1 other.2
        (List.map (Path.moved source target) [])) := by
    refine bindsAlong_resolveWith hsearch hcomes (by simp) fun hnone =>
      hsubmodule fun member hmember => ?_
    rcases eq_or_ne (before.firstPresent language entry.2.candidates) [] with hempty | hfound
    · rw [hempty]
      rfl
    · exact hnone member hmember hfound
  have hnow := hbinds.resolved ⟨id, hinside, hresolve⟩
  rw [List.map_nil] at hnow
  rw [resolveImport, hnow]
  exact hresolve

end Comes

end Workspace

end CodeGraph
