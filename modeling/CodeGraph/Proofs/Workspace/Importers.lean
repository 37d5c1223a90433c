import CodeGraph.Proofs.Facts.Extract
import CodeGraph.Proofs.Facts.Spots.Ecma
import CodeGraph.Proofs.Facts.Spots.Python
import CodeGraph.Proofs.Import.Respell
import CodeGraph.Proofs.Workspace.Move
import CodeGraph.Proofs.Workspace.Splice

/-!
# What is respelled in importers

When a file moves, its importers are respelled at the specifiers of imports, and in Python also where a
dotted module is used by its name. All these places belong to marks of the walk over the importer, which
lie apart in a well-nested tree, and so do the replacements.
-/

namespace CodeGraph

open Walk

/-! ### Marks of whole files -/

/-- The languages that spell imports by place. -/
def Language.respelled : List Language :=
  [.python, .javascript, .typescript]

/-- What there is to know of the tree of a file: it is well nested, and in Python a dot stands between
an object and its attribute. -/
structure Parsed.Tidy (parsed : Parsed) : Prop where
  nested : parsed.tree.Everywhere Tree.Nested
  dotted : parsed.language = .python → parsed.tree.Everywhere Python.attributeShape.Dotted

namespace Parsed

/-- Where a file that spells imports by place may be marked. -/
def Spot (parsed : Parsed) : Mark → Prop :=
  if parsed.language = .python then Python.Spot parsed.text parsed.tree
  else Ecma.Spot parsed.text parsed.tree

theorem scattered_spot {parsed : Parsed} (htidy : parsed.Tidy) :
    Scattered parsed.tree.range parsed.Spot := by
  rw [Spot]
  split
  · rename_i hpython
    exact Python.scattered_spot parsed.text fun node hnode =>
      ⟨htidy.nested node hnode, htidy.dotted hpython node hnode⟩
  · exact Ecma.scattered_spot parsed.text htidy.nested

/-- Names that are used count in Python only. -/
theorem spot_of_marked {parsed : Parsed} (hlanguage : parsed.language ∈ Language.respelled)
    {spot : Mark} (hmarked : parsed.facts.Marked (parsed.language = .python) spot) :
    parsed.Spot spot := by
  have hextract : ∀ {names : Bool} {spots : Tree → Mark → Prop},
      (∀ visit : Visit, (∀ node, Marks names parsed.text (spots node) (visit node)) →
        ∀ node, Marks names parsed.text (spots node) (parsed.language.step visit node)) →
      parsed.facts.Marked names spot → spots parsed.tree spot := by
    intro names spots hstep hmarked
    obtain (⟨_, himport, -⟩ | ⟨-, _, hreference, -⟩) | hspot :=
      marks_unroll hstep parsed.tree.height parsed.tree
        { text := parsed.text, selfNames := parsed.language.selfNames }
        (.empty parsed.language (Text.size parsed.text)) rfl spot hmarked
    · cases himport
    · cases hreference
    · exact hspot
  simp only [Language.respelled, List.mem_cons, List.not_mem_nil, or_false] at hlanguage
  rcases hlanguage with hpython | hecma
  · rw [Spot, if_pos hpython]
    simp only [hpython, decide_true] at hmarked
    refine hextract (fun visit hvisit node => ?_) hmarked
    rw [hpython]
    exact Python.marks_step hvisit node
  · have hother : parsed.language ≠ .python := by
      rcases hecma with h | h <;> rw [h] <;> decide
    rw [Spot, if_neg hother]
    rw [decide_eq_false hother] at hmarked
    refine hextract (fun visit hvisit node => ?_) hmarked
    rcases hecma with h | h
    · rw [h]
      exact Ecma.marks_step hvisit node
    · rw [h]
      exact TypeScript.marks_step hvisit node

/-- **The specifiers of a file are read off the text at their places**, in every tree. -/
theorem specifier_eq {parsed : Parsed} (hlanguage : parsed.language ∈ Language.respelled)
    {fact : ImportFact} (hfact : fact ∈ parsed.facts.imports) :
    fact.specifier = parsed.language.readSpecifier (fact.specifierRange.read parsed.text) := by
  have hspot := spot_of_marked hlanguage (.inl ⟨fact, hfact, rfl⟩)
  simp only [Language.respelled, List.mem_cons, List.not_mem_nil, or_false] at hlanguage
  rcases hlanguage with h | h | h
  · rw [Spot, if_pos h] at hspot
    rw [h]
    exact Python.reads_of_spot hspot
  · rw [Spot, if_neg (by rw [h]; decide)] at hspot
    rw [h]
    exact Ecma.reads_of_spot hspot
  · rw [Spot, if_neg (by rw [h]; decide)] at hspot
    rw [h]
    exact Ecma.reads_of_spot hspot

end Parsed

/-! ### Uses of a module -/

namespace Respell

/-- A use of a module is spelled like the specifier where a name is used, and ends there. -/
structure IsUse (text : String) (fact : ImportFact) (reference : ReferenceFact) (range : ByteRange) :
    Prop where
  dotted : '.' ∈ fact.specifier.toList
  plain : bindsModulePath fact
  named : mentions (Text.split '.' fact.specifier) reference
  start : range.start = reference.target.range.start
  spelled : Text.slice? text range.start range.stop = some fact.specifier
  ends : ∃ rest, Text.slice? text range.stop (Text.size text) = some rest ∧
    ¬ rest.toList.head?.any Text.isIdentifierPart

theorem moduleUse?_eq_some_iff {specifier text : String} {reference : ReferenceFact}
    {range : ByteRange} : moduleUse? specifier text reference = some range ↔
      range.start = reference.target.range.start ∧
        Text.slice? text range.start range.stop = some specifier ∧
        ∃ rest, Text.slice? text range.stop (Text.size text) = some rest ∧
          ¬ rest.toList.head?.any Text.isIdentifierPart := by
  constructor
  · intro hfound
    obtain ⟨rest, hrest, hfound⟩ := Option.bind_eq_some_iff.1 hfound
    obtain ⟨used, hused, hfound⟩ := Option.bind_eq_some_iff.1 hfound
    split at hfound
    · rename_i hends
      obtain ⟨rfl, hends⟩ := hends
      obtain rfl := Option.some.inj hfound
      exact ⟨rfl, hused, rest, hrest, by simpa using hends⟩
    · cases hfound
  · rintro ⟨hstart, hspelled, rest, hrest, hends⟩
    have hstop := Text.add_size_of_slice? hspelled
    rw [hstart] at hspelled hstop
    rw [moduleUse?, hstop, hrest, hspelled, ← hstart]
    simp [hends]

theorem mem_moduleUses_iff {language : Language} {fact : ImportFact}
    {references : List ReferenceFact} {text newModule : String} {use : ByteRange × String} :
    use ∈ moduleUses language fact references text newModule ↔
      (language = .python ∧ ∃ reference ∈ references, IsUse text fact reference use.1) ∧
        use.2 = newModule := by
  rw [moduleUses]
  dsimp only
  split
  · rename_i hcondition
    obtain ⟨hlanguage, hdotted, hplain⟩ := hcondition
    simp only [List.mem_map, List.mem_eraseDups, List.mem_mergeSort, List.mem_filterMap,
      List.mem_filter, moduleUse?_eq_some_iff]
    constructor
    · rintro ⟨range, ⟨reference, ⟨hmem, hnamed⟩, hstart, hspelled, hends⟩, rfl⟩
      exact ⟨⟨hlanguage, reference, hmem, by simpa using hdotted, hplain, hnamed, hstart, hspelled,
        hends⟩, rfl⟩
    · rintro ⟨⟨-, reference, hmem, huse⟩, rfl⟩
      exact ⟨use.1, ⟨reference, ⟨hmem, huse.named⟩, huse.start, huse.spelled, huse.ends⟩, rfl⟩
  · rename_i hcondition
    refine iff_of_false List.not_mem_nil ?_
    rintro ⟨⟨hlanguage, reference, -, huse⟩, -⟩
    exact hcondition ⟨hlanguage, by simpa using huse.dotted, huse.plain⟩

/-- A use takes no more room than the names that are used there. -/
theorem IsUse.inside {text : String} {fact : ImportFact} {reference : ReferenceFact}
    {range : ByteRange} (huse : IsUse text fact reference range) :
    range.Inside reference.target.spot ∧ reference.kind = .name := by
  have hnamed := huse.named
  simp only [mentions, Bool.and_eq_true, decide_eq_true_eq, List.isPrefixOf_iff_prefix] at hnamed
  obtain ⟨hkind, more, hmore⟩ := hnamed
  refine ⟨⟨huse.start.ge, ?_⟩, hkind⟩
  have hspecifier : Text.join "." (Text.split '.' fact.specifier) = fact.specifier :=
    String.toList_inj.1 (Text.join_splitChars '.' fact.specifier.toList)
  have hstop := Text.add_size_of_slice? huse.spelled
  have hroom : Text.size fact.specifier ≤ Text.size reference.target.dotted := by
    have hprefix := Text.size_join_le_append "." (Text.split '.' fact.specifier) more
    rwa [hspecifier, hmore] at hprefix
  rw [NameRef.spot, ← hstop, huse.start]
  exact Nat.add_le_add_left hroom _

theorem mem_respelled_of_specifier? {language : Language} {importer newPath : Path}
    {fact : ImportFact} {spelled respelled : String} {config : LanguageConfig}
    (hrespelled : specifier? language importer fact spelled newPath config = some respelled) :
    language ∈ Language.respelled := by
  cases language with
  | python | javascript | typescript => decide
  | go | rust | java | other => cases hrespelled

end Respell

namespace Workspace

variable {workspace : Workspace} {config : Config} {file : SourceFile} {source target : Path}

/-- What may be respelled in a file when another moves: the specifier of an import that leads there, or
a use by its name of the module that such an import takes in. -/
inductive Follows (workspace : Workspace) (file : SourceFile) (source : Path) : ByteRange → Prop
  | specifier {id : NodeId} {fact : ImportFact} {plan : ModulePlan}
    (hentry : (id, fact, plan) ∈ file.imports.zip (file.facts.imports.zip file.plans))
    (hpoints : workspace.pointsInto id plan source) :
    Follows workspace file source fact.specifierRange
  | use {id : NodeId} {fact : ImportFact} {plan : ModulePlan} {reference : ReferenceFact}
    {range : ByteRange}
    (hentry : (id, fact, plan) ∈ file.imports.zip (file.facts.imports.zip file.plans))
    (hpoints : workspace.pointsInto id plan source) (hlanguage : file.language = .python)
    (hreference : reference ∈ file.facts.references)
    (huse : Respell.IsUse file.text fact reference range) : Follows workspace file source range

theorem follows_of_mem_respellings {entry : NodeId × ImportFact × ModulePlan}
    (hentry : entry ∈ file.imports.zip (file.facts.imports.zip file.plans))
    {replacement : Replacement}
    (hmem : replacement ∈ workspace.respellings config file source target entry) :
    workspace.Follows file source replacement.range ∧ file.language ∈ Language.respelled ∧
      ∃ removed, Text.slice? file.text replacement.range.start replacement.range.stop =
        some removed := by
  obtain ⟨id, fact, plan⟩ := entry
  have hlist : ∀ {found : Option (List Replacement)}, replacement ∈ found.getD [] →
      ∃ list, found = some list ∧ replacement ∈ list
    | some list, hmem => ⟨list, rfl, hmem⟩
  obtain ⟨list, hfound, hmem⟩ := hlist hmem
  obtain ⟨_, hguard, hfound⟩ := Option.bind_eq_some_iff.1 hfound
  obtain ⟨spelled, hspelled, hfound⟩ := Option.bind_eq_some_iff.1 hfound
  obtain ⟨respelled, hrespelled, hfound⟩ := Option.bind_eq_some_iff.1 hfound
  obtain ⟨-, -, hfound⟩ := Option.bind_eq_some_iff.1 hfound
  have hpoints : workspace.pointsInto id plan source := by
    by_contra hnot
    simp [guard, hnot] at hguard
  rw [← Option.some.inj hfound] at hmem
  refine (fun h => ⟨h.1, Respell.mem_respelled_of_specifier? hrespelled, h.2⟩ :
    workspace.Follows file source replacement.range ∧ _ → _) ?_
  obtain rfl | hmem := List.mem_cons.1 hmem
  · exact ⟨.specifier hentry hpoints, spelled, hspelled⟩
  · obtain ⟨use, huse, rfl⟩ := List.mem_map.1 hmem
    obtain ⟨⟨hlanguage, reference, hreference, hisUse⟩, -⟩ := Respell.mem_moduleUses_iff.1 huse
    exact ⟨.use hentry hpoints hlanguage hreference hisUse, _, hisUse.spelled⟩

theorem follows_of_mem_importerReplacements {replacement : Replacement}
    (hmem : replacement ∈ workspace.importerReplacements config source target file) :
    workspace.Follows file source replacement.range ∧ file.language ∈ Language.respelled ∧
      ∃ removed, Text.slice? file.text replacement.range.start replacement.range.stop =
        some removed := by
  obtain ⟨entry, hentry, hmem⟩ := List.mem_flatMap.1 ((Replacement.inOrder_spec _).1 hmem)
  exact follows_of_mem_respellings hentry hmem

/-- Each place that may be respelled begins with a mark of the walk and lies in it. -/
theorem Follows.exists_marked {range : ByteRange} (hfollows : workspace.Follows file source range) :
    ∃ spot, file.facts.Marked (file.language = .python) spot ∧ range.start = spot.range.start ∧
      range.Inside spot.range := by
  cases hfollows with
  | @specifier id fact plan hentry hpoints =>
    exact ⟨_, .inl ⟨fact, (List.of_mem_zip (List.of_mem_zip hentry).2).1, rfl⟩, rfl, .refl _⟩
  | @use id fact plan reference range hentry hpoints hlanguage hreference huse =>
    obtain ⟨hinside, hkind⟩ := huse.inside
    exact ⟨_, .inr ⟨by simp [hlanguage], reference, hreference, hkind, rfl⟩, huse.start, hinside⟩

/-- **The replacements in an importer are clean splices.** -/
theorem exists_splices (hfacts : file.facts = file.parsed.facts) (htidy : file.parsed.Tidy) :
    ∃ after, Replacement.Splices file.text
      (workspace.importerReplacements config source target file) after := by
  have hmem (replacement : Replacement)
      (h : replacement ∈ workspace.importerReplacements config source target file) :=
    follows_of_mem_importerReplacements h
  have hordered := (Replacement.inOrder_spec ((file.imports.zip (file.facts.imports.zip
    file.plans)).flatMap (workspace.respellings config file source target))).2
  refine Replacement.exists_splices (hordered.imp_of_mem fun hleft hright hlt => ?_)
    fun replacement h => (hmem replacement h).2.2
  obtain ⟨hfollows, hlanguage, -⟩ := hmem _ hleft
  obtain ⟨hfollows', -, removed, hremoved⟩ := hmem _ hright
  obtain ⟨first, hfirst, hstart, hinside⟩ := hfollows.exists_marked
  obtain ⟨second, hsecond, hstart', hinside'⟩ := hfollows'.exists_marked
  rw [hfacts] at hfirst hsecond
  have hstop := Text.add_size_of_slice? hremoved
  have hinner := hinside'.2
  obtain rfl | hbefore | hafter := (Parsed.scattered_spot htidy).apart first second
    (Parsed.spot_of_marked hlanguage hfirst) (Parsed.spot_of_marked hlanguage hsecond)
  · omega
  · exact hinside.2.trans (hbefore.trans hstart'.ge)
  · omega

end Workspace

end CodeGraph
