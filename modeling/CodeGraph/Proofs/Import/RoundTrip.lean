import CodeGraph.Language
import CodeGraph.Proofs.Import.Respell

/-!
# Spelling and reading an import

A specifier is spelled for a path by going up and down between directories, and is read by counting dots
or by walking along parts. Reading undoes the spelling where no dot of a name is taken for one between
names, and where the extension is one of those that are tried.
-/

namespace CodeGraph.Respell

open ModulePlan CodeGraph.Path

/-! ### Python -/

/-- The directory that the new name of a module starts from: the one shared with the importer, or the
first directory searched in which the file has a name. -/
def pythonBase? (importer : Path) (fact : ImportFact) (newPath : Path) (config : LanguageConfig) :
    Option Path :=
  if Text.startsWith "." fact.specifier then
    some (ofComponents (commonPart (parentDir importer).components newPath.components))
  else (searchDirs importer config).find? fun base =>
    (pythonModule? newPath base).any fun names => !names.isEmpty

/-- The directories below the base and the stem of the file are free of dots. -/
def DotFree (base path : Path) : Prop :=
  (∀ rest ∈ dropComponents? base.components path.components, ∀ component ∈ rest.dropLast,
    '.' ∉ component.text.toList) ∧
  ∀ stem ∈ path.stem?, '.' ∉ stem.toList

instance (base path : Path) : Decidable (DotFree base path) :=
  inferInstanceAs (Decidable (_ ∧ _))

theorem dropComponents?_append (base rest : List Component) :
    dropComponents? base (base ++ rest) = some rest := by
  induction base with
  | nil => rfl
  | cons component base ih => rw [List.cons_append, dropComponents?, if_pos rfl, ih]

/-- A stem that is free of dots is all that comes before the suffix. -/
theorem isPart_of_splitName {stem : String}
    (hfree : '.' ∉ (splitName (stem ++ ".py")).1.toList) : IsPart stem := by
  have hsplit : Text.splitLast? '.' (stem ++ ".py") = some (stem, "py") := by
    simp [Text.splitLast?]
  rw [splitName, hsplit] at hfree
  dsimp only at hfree
  split at hfree
  · exact absurd (by simp) hfree
  · rename_i hne
    exact ⟨hne, hfree⟩

/-- The names of a module are its directories and the stem of its file. -/
theorem isPart_of_dotFree {base names module : List String} (hbase : ∀ name ∈ base, IsName name)
    (hnames : ∀ name ∈ names, IsName name)
    (hmodule : pythonModule? (ofNames names) (ofNames base) = some module)
    (hfree : DotFree (ofNames base) (ofNames names)) : ∀ name ∈ module, IsPart name := by
  obtain ⟨packages, stem, rfl, hform⟩ := exists_of_pythonModule hbase hnames hmodule
  obtain ⟨hdirectories, hstem⟩ := hfree
  have hpackages : ∀ name ∈ packages, IsPart name := by
    intro name hname
    refine ⟨(hnames name (by simp [hname])).1, ?_⟩
    have hrest : dropComponents? (ofNames base).components
        (ofNames (base ++ packages ++ [stem ++ ".py"])).components =
          some (packages.map Component.named ++ [.named (stem ++ ".py")]) := by
      rw [components_ofNames hbase, components_ofNames hnames, List.append_assoc, List.map_append,
        dropComponents?_append, List.map_append, List.map_singleton]
    refine hdirectories _ hrest (.named name) ?_
    rw [List.dropLast_concat]
    exact List.mem_map_of_mem hname
  have hlast : IsPart stem := by
    refine isPart_of_splitName (hstem _ ?_)
    rw [stem?, fileName?_ofNames hnames]
    rfl
  subst hform
  intro name hname
  split at hname
  · exact hpackages name hname
  · rcases List.mem_append.1 hname with hname | hname
    · exact hpackages name hname
    · exact List.mem_singleton.1 hname ▸ hlast

/-- The names searched for are those seen from the first directory in which there are any. -/
theorem exists_base_of_findSome? {bases : List Path} {path : Path} {names : List String}
    (hfound : (bases.findSome? fun base =>
      (pythonModule? path base).filter fun names => !names.isEmpty) = some names) :
    ∃ base ∈ bases, bases.find? (fun base =>
        (pythonModule? path base).any fun names => !names.isEmpty) = some base ∧
      pythonModule? path base = some names := by
  obtain ⟨before, base, after, hbases, hbase, hnone⟩ := List.findSome?_eq_some_iff.1 hfound
  obtain ⟨hmodule, hnonempty⟩ := Option.filter_eq_some_iff.1 hbase
  refine ⟨base, by simp [hbases], List.find?_eq_some_iff_append.2 ⟨?_, before, after, hbases, ?_⟩,
    hmodule⟩
  · rw [hmodule, Option.any_some, hnonempty]
  · intro other hother
    have hother := Option.filter_eq_none_iff.1 (hnone other hother)
    cases hseen : pythonModule? path other with
    | none => rfl
    | some names => simpa using hother names hseen

/-- A relative import that may lead somewhere does not lead above the project. -/
theorem fallback_of_relative {importer : Path} {fact : ImportFact} {config : LanguageConfig}
    {candidate : Candidate} (hmem : candidate ∈ (python importer fact config).candidates)
    (hrelative : Text.startsWith "." fact.specifier) :
    (python importer fact config).fallback =
      .unresolved ("module " ++ fact.specifier ++ " not found") := by
  have hdots : 0 < leadingDots fact.specifier := by
    obtain ⟨rest, hrest⟩ := List.isPrefixOf_iff_prefix.1 hrelative
    rw [leadingDots, ← hrest]
    exact Nat.succ_pos _
  rw [python] at hmem ⊢
  dsimp only at hmem ⊢
  split at hmem
  · cases hmem
  · exact if_pos hdots

/-- **Python reads back the module that it spells.** If the directories below the base that is chosen
and the stem of the file are free of dots, the text is that of a module, with the old name behind it
where that has to stay, and the new path is among the places of the module. A relative module is never
taken for one above the project. -/
theorem python_reads_back {importer newPath : Path} (himporter : importer.IsNormal)
    (hnew : newPath.IsNormal) {fact : ImportFact} {config : LanguageConfig}
    (hfree : ∀ base ∈ pythonBase? importer fact newPath config, DotFree base newPath)
    {spelled text : String}
    (htext : specifier? .python importer fact spelled newPath config = some text) :
    ∃ module, text = (if bindsModulePath fact ∧ '.' ∉ fact.specifier.toList ∧
          module ≠ fact.specifier then module ++ " as " ++ fact.specifier else module) ∧
      .file newPath ∈
        (make .python importer { fact with specifier := module } config).candidates ∧
      (Text.startsWith "." module →
        (make .python importer { fact with specifier := module } config).fallback =
          .unresolved ("module " ++ module ++ " not found")) := by
  obtain ⟨names, -, hnames, hnewNames⟩ := id hnew
  rw [specifier?, python?] at htext
  split at htext
  · rename_i hrelative
    have hkeeps : '.' ∈ fact.specifier.toList := by
      obtain ⟨rest, hrest⟩ := List.isPrefixOf_iff_prefix.1 hrelative
      exact hrest ▸ List.mem_append_left rest (by decide)
    refine ⟨text, (if_neg fun h => h.2.1 hkeeps).symm, ?_⟩
    rw [pythonBase?, if_pos hrelative] at hfree
    have hfree := hfree _ rfl
    have hmem := mem_pythonRelative himporter hnew htext ?_ fact config
    · exact ⟨hmem, fallback_of_relative hmem⟩
    · obtain ⟨dirs, hdirs, hdirectory⟩ := parentDir_isPlain himporter
      obtain ⟨count, -, hcommon, -⟩ := exists_commonPart dirs names
      rw [hdirectory, components_ofNames hdirs, hnewNames, components_ofNames hnames, hcommon,
        ofComponents_named] at hfree ⊢
      exact fun module hmodule => isPart_of_dotFree
        (fun name hname => hdirs name (List.mem_of_mem_take hname)) hnames hmodule hfree
  · rename_i hrelative
    obtain ⟨module, hfound, hanswer⟩ := Option.bind_eq_some_iff.1 htext
    obtain ⟨base, hbase, hfirst, hmodule⟩ := exists_base_of_findSome? hfound
    rw [pythonBase?, if_neg hrelative] at hfree
    have hfree := hfree base hfirst
    obtain ⟨dirs, hdirs, rfl⟩ : base.IsPlain := by
      rw [searchDirs, List.mem_eraseDups] at hbase
      obtain ⟨_, -, hnormalize⟩ := List.mem_filterMap.1 hbase
      exact isPlain_of_normalize? hnormalize
    have hparts : ∀ name ∈ module, IsPart name := by
      rw [hnewNames] at hmodule hfree
      exact isPart_of_dotFree hdirs hnames hmodule hfree
    have hmem := mem_pythonAbsolute hnew hfound hparts fact
    refine ⟨Text.join "." module, ?_, hmem, fallback_of_relative hmem⟩
    dsimp only at hanswer
    split at hanswer
    · rename_i hkeeps
      rw [if_pos (by simpa [and_assoc] using hkeeps)]
      exact (Option.some.inj hanswer).symm
    · rename_i hkeeps
      rw [if_neg (by simpa [and_assoc] using hkeeps)]
      exact (Option.some.inj hanswer).symm

/-- A relative import goes up from one package and down into another, and a plain one keeps the name
that its uses know. -/
theorem python_reads_back_moved :
    let relative : ImportFact :=
      { specifier := "..m", member := some "f", range := default, specifierRange := default }
    let plain : ImportFact :=
      { specifier := "m", localName := some "m", range := default, specifierRange := default }
    specifier? .python ⟨"pkg/sub/a.py"⟩ relative "..m" ⟨"pkg/other/b.py"⟩ {} = some "..other.b" ∧
      .file ⟨"pkg/other/b.py"⟩ ∈ (make .python ⟨"pkg/sub/a.py"⟩
        { relative with specifier := "..other.b" } {}).candidates ∧
      specifier? .python ⟨"main.py"⟩ plain "m" ⟨"pkg/b.py"⟩ {} = some "pkg.b as m" ∧
      .file ⟨"pkg/b.py"⟩ ∈
        (make .python ⟨"main.py"⟩ { plain with specifier := "pkg.b" } {}).candidates := by
  intro relative plain
  have hrelative : specifier? .python ⟨"pkg/sub/a.py"⟩ relative "..m" ⟨"pkg/other/b.py"⟩ {} =
      some "..other.b" := by decide +kernel
  have hplain : specifier? .python ⟨"main.py"⟩ plain "m" ⟨"pkg/b.py"⟩ {} = some "pkg.b as m" := by
    decide +kernel
  have hnormal : ∀ names : List String, names ≠ [] → (∀ name ∈ names, IsName name) →
      (ofNames names).IsNormal := fun _ hnames hall => isNormal_ofNames hnames hall
  obtain ⟨module, htext, hmem, -⟩ := python_reads_back
    (hnormal ["pkg", "sub", "a.py"] (by simp) (by simp [IsName]))
    (hnormal ["pkg", "other", "b.py"] (by simp) (by simp [IsName])) (by decide +kernel) hrelative
  obtain ⟨module', htext', hmem', -⟩ := python_reads_back
    (hnormal ["main.py"] (by simp) (by simp [IsName]))
    (hnormal ["pkg", "b.py"] (by simp) (by simp [IsName])) (by decide +kernel) hplain
  have hmodule : module = "..other.b" := by
    rw [htext, if_neg]
    exact fun h => h.2.1 (by decide)
  have hmodule' : module' = "pkg.b" := by
    split at htext'
    · have hsame : "pkg.b" ++ " as m" = module' ++ " as m" := by
        rw [String.append_assoc] at htext'
        exact htext'
      exact ((String.append_left_inj _).1 hsame).symm
    · rename_i hsame
      exact absurd ⟨by decide, by decide, htext' ▸ by decide⟩ hsame
  exact ⟨hrelative, hmodule ▸ hmem, hplain, hmodule' ▸ hmem'⟩

/-- The stem of a file whose name is only the suffix has a dot: it is spelled, but not read back. -/
example : let fact : ImportFact := { specifier := ".m", range := default, specifierRange := default }
    specifier? .python ⟨"a.py"⟩ fact ".m" ⟨"p/.py"⟩ {} = some ".p." ∧
      .file ⟨"p/.py"⟩ ∉ (make .python ⟨"a.py"⟩ { fact with specifier := ".p." } {}).candidates := by
  decide +kernel

/-! ### JavaScript and TypeScript -/

/-- The extensions of these languages are the ones that are tried, but for two. -/
theorem hasKnownExtension_of_ofPath {path : Path}
    (hlanguage : Language.ofPath path = .javascript ∨ Language.ofPath path = .typescript)
    (htried : path.extension? ≠ some "mts" ∧ path.extension? ≠ some "cts") :
    hasKnownExtension path := by
  rw [Language.ofPath] at hlanguage
  rw [hasKnownExtension]
  cases hsuffix : path.extension? with
  | none => simp [hsuffix] at hlanguage
  | some suffix =>
    rw [hsuffix] at hlanguage htried
    have hfound : ∀ language : Language,
        ((Language.all.find? fun language => suffix ∈ language.extensions).getD .other) = language →
        language ≠ .other → suffix ∈ language.extensions := by
      rintro _ rfl hother
      cases hfind : Language.all.find? fun language => suffix ∈ language.extensions with
      | none => exact absurd (by rw [hfind, Option.getD_none]) hother
      | some language => simpa using List.find?_some hfind
    rw [Option.any_some]
    rcases hlanguage with hlanguage | hlanguage
    · have hsuffix := hfound _ hlanguage (by decide)
      simp only [Language.extensions, List.mem_cons, List.not_mem_nil, or_false] at hsuffix
      rcases hsuffix with rfl | rfl | rfl | rfl <;> decide
    · have hsuffix := hfound _ hlanguage (by decide)
      simp only [Language.extensions, List.mem_cons, List.not_mem_nil, or_false] at hsuffix
      rcases hsuffix with rfl | rfl | rfl | rfl
      · decide
      · decide
      · exact absurd rfl htried.1
      · exact absurd rfl htried.2

/-- **JavaScript and TypeScript read back the path that they spell** for a file of theirs, unless its
extension is one of the two that are not tried, or the specifier had no extension and dropping that of
the file leaves a name for a directory. -/
theorem ecma_reads_back {language : Language}
    (hlanguage : language = .javascript ∨ language = .typescript) {importer newPath : Path}
    (himporter : (parentDir importer).IsPlain) (hnew : newPath.IsNormal)
    (hfile : Language.ofPath newPath = .javascript ∨ Language.ofPath newPath = .typescript)
    (htried : newPath.extension? ≠ some "mts" ∧ newPath.extension? ≠ some "cts")
    {fact : ImportFact} (hstem : hasKnownExtension ⟨fact.specifier⟩ ∨ hasPlainStem newPath)
    {spelled text : String} {config : LanguageConfig}
    (htext : specifier? language importer fact spelled newPath config = some text) :
    .file newPath ∈ (make language importer { fact with specifier := Text.unquote text }
      config).candidates := by
  have hknown := hasKnownExtension_of_ofPath hfile htried
  rcases hlanguage with rfl | rfl
  · rw [specifier?] at htext
    rw [make]
    exact mem_ecma himporter hnew hknown hstem htext _ config
  · rw [specifier?] at htext
    rw [make]
    exact mem_ecma himporter hnew hknown hstem htext _ config

/-- The specifier of a module in another directory, with its extension and without. -/
theorem ecma_reads_back_moved :
    let bare : ImportFact := { specifier := "./util", range := default, specifierRange := default }
    let whole : ImportFact :=
      { specifier := "./util.js", range := default, specifierRange := default }
    specifier? .typescript ⟨"src/main.ts"⟩ bare "'./util'" ⟨"lib/index.ts"⟩ {} = some "'../lib'" ∧
      .file ⟨"lib/index.ts"⟩ ∈ (make .typescript ⟨"src/main.ts"⟩
        { bare with specifier := Text.unquote "'../lib'" } {}).candidates ∧
      specifier? .javascript ⟨"src/main.js"⟩ whole "'./util.js'" ⟨"src/..js"⟩ {} =
        some "'./..js'" ∧
      .file ⟨"src/..js"⟩ ∈ (make .javascript ⟨"src/main.js"⟩
        { whole with specifier := Text.unquote "'./..js'" } {}).candidates := by
  intro bare whole
  have hbare : specifier? .typescript ⟨"src/main.ts"⟩ bare "'./util'" ⟨"lib/index.ts"⟩ {} =
      some "'../lib'" := by decide +kernel
  have hwhole : specifier? .javascript ⟨"src/main.js"⟩ whole "'./util.js'" ⟨"src/..js"⟩ {} =
      some "'./..js'" := by decide +kernel
  have hts : (⟨"src/main.ts"⟩ : Path).IsNormal :=
    ⟨["src", "main.ts"], by simp, by simp [IsName], rfl⟩
  have hjs : (⟨"src/main.js"⟩ : Path).IsNormal :=
    ⟨["src", "main.js"], by simp, by simp [IsName], rfl⟩
  refine ⟨hbare, ?_, hwhole, ?_⟩
  · exact ecma_reads_back (.inr rfl) (parentDir_isPlain hts)
      ⟨["lib", "index.ts"], by simp, by simp [IsName], rfl⟩ (by decide +kernel)
      (by decide +kernel) (by decide +kernel) hbare
  · exact ecma_reads_back (.inl rfl) (parentDir_isPlain hjs)
      ⟨["src", "..js"], by simp, by simp [IsName], rfl⟩ (by decide +kernel)
      (by decide +kernel) (by decide +kernel) hwhole

/-- A module that takes an extension which is not tried, or whose name is a dot before its extension, is
spelled, but not read back. -/
theorem ecma_loses_module :
    let fact : ImportFact := { specifier := "./util", range := default, specifierRange := default }
    Language.ofPath ⟨"util.mts"⟩ = .typescript ∧ Language.ofPath ⟨"..js"⟩ = .javascript ∧
      (⟨"util.mts"⟩ : Path).IsNormal ∧ (⟨"..js"⟩ : Path).IsNormal ∧
      specifier? .typescript ⟨"main.ts"⟩ fact "'./util'" ⟨"util.mts"⟩ {} = some "'./util'" ∧
      .file ⟨"util.mts"⟩ ∉ (make .typescript ⟨"main.ts"⟩
        { fact with specifier := Text.unquote "'./util'" } {}).candidates ∧
      specifier? .javascript ⟨"main.js"⟩ fact "'./util'" ⟨"..js"⟩ {} = some "'.'" ∧
      .file ⟨"..js"⟩ ∉ (make .javascript ⟨"main.js"⟩
        { fact with specifier := Text.unquote "'.'" } {}).candidates := by
  intro fact
  have hmts : (⟨"util.mts"⟩ : Path).IsNormal := ⟨["util.mts"], by simp, by simp [IsName], rfl⟩
  have hdot : (⟨"..js"⟩ : Path).IsNormal := ⟨["..js"], by simp, by simp [IsName], rfl⟩
  exact ⟨by decide, by decide, hmts, hdot, by decide +kernel⟩

end CodeGraph.Respell
