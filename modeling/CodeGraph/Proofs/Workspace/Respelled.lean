import CodeGraph.Proofs.Workspace.Importers

/-!
# What importers say after a move

When a file moves, the specifiers of the imports that lead to it get a new text, and in Python so do
the uses of its dotted name. Which replacements these are is described here without the walk that
finds them. Where the parser then finds a specifier at the place that it has come to, the import
names what was put in for it, or what it named before.
-/

namespace CodeGraph

/-- Where a text that is written in place of another, or as it was, lies after some replacements. -/
def Replacement.carried (replacements : List Replacement) (range : ByteRange) (written : String) :
    ByteRange :=
  let start := carry 0 replacements range.start
  ⟨start, start + Text.size written⟩

/-- The imports of a file, each with its node and where it may point. -/
def SourceFile.entries (file : SourceFile) : List (NodeId × ImportFact × ModulePlan) :=
  file.imports.zip (file.facts.imports.zip file.plans)

/-- What there is to know of the tree of an importer: it is tidy, and every specifier stands in the
text, between quotes in JavaScript and TypeScript. -/
structure Parsed.Clean (parsed : Parsed) : Prop extends parsed.Tidy where
  written : ∀ fact ∈ parsed.facts.imports,
    (fact.specifierRange.read parsed.text).toList.head?.any (Respell.begins parsed.language)

namespace Workspace

section Respelling

variable (workspace : Workspace) (config : Config) (source target : Path) (file : SourceFile)

/-- An import leads to a file if it is bound to the file or to something in it, and names a module
that the file may be. -/
def leads (entry : NodeId × ImportFact × ModulePlan) : Bool :=
  let bound := (workspace.graph.node? entry.1).bind Node.binding?
  let node := (bound.bind Binding.target?).bind workspace.graph.node?
  .file source ∈ entry.2.2.candidates && node.any fun node => node.path = source

/-- What comes to stand for the module of an import. -/
def coreOf? (fact : ImportFact) : Option String :=
  Respell.core? file.language file.path fact (fact.specifierRange.read file.text) target
    (config.language file.language)

/-- An import that leads to the file gets a new text. -/
structure Renews (fact : ImportFact) (text : String) : Prop where
  leads : ∃ entry ∈ file.entries, workspace.leads source entry ∧ entry.2.1 = fact
  core : ∃ core, coreOf? config target file fact = some core ∧
    text = Respell.withName file.language fact core
  changed : text ≠ fact.specifierRange.read file.text

/-- What is put into a file when another moves: the new text of an import, also where the module is
used by its dotted name. -/
inductive Respelled : Replacement → Prop
  | specifier {fact : ImportFact} {text : String}
    (hrenews : Renews workspace config source target file fact text) :
    Respelled ⟨fact.specifierRange, text⟩
  | use {fact : ImportFact} {reference : ReferenceFact} {range : ByteRange} {text : String}
    (hrenews : Renews workspace config source target file fact text)
    (hlanguage : file.language = .python) (hreference : reference ∈ file.facts.references)
    (huse : Respell.IsUse file.text fact reference range) : Respelled ⟨range, text⟩

/-- Everything that is to be put into a file, one replacement after the other. -/
structure Respelling (replacements : List Replacement) : Prop where
  apart : replacements.Pairwise fun left right => left.range.stop ≤ right.range.start
  each : ∀ replacement ∈ replacements,
    Respelled workspace config source target file replacement
  all : ∀ replacement, Respelled workspace config source target file replacement →
    ∃ made ∈ replacements, made.range.start = replacement.range.start

/-- Whether an import, or another at the place of its specifier, leads to a file. -/
def leadsAt (fact : ImportFact) : Bool :=
  file.entries.any fun entry =>
    entry.2.1.specifierRange = fact.specifierRange && workspace.leads source entry

/-- What comes to stand for the module of an import if that is spelled anew. -/
def newCore? (fact : ImportFact) : Option String :=
  if workspace.leadsAt source file fact then coreOf? config target file fact else none

/-- What stands for the module of an import afterwards. -/
def writtenAfter (fact : ImportFact) : String :=
  (workspace.newCore? config source target file fact).getD (fact.specifierRange.read file.text)

/-- The module that an import names afterwards. -/
def specifierAfter (fact : ImportFact) : String :=
  ((workspace.newCore? config source target file fact).map
    file.language.readSpecifier).getD fact.specifier

end Respelling

variable {environment : Environment} {workspace : Workspace} {config : Config}
  {source target : Path} {file : SourceFile} {fact : ImportFact}

theorem language_of_coreOf? {core : String} (hcore : coreOf? config target file fact = some core) :
    file.language ∈ Language.respelled :=
  Respell.mem_respelled_of_specifier? (Respell.specifier?_eq.trans (congrArg _ hcore))

/-- In other languages imports name what they named. -/
theorem specifierAfter_eq (hother : file.language ∉ Language.respelled) :
    workspace.specifierAfter config source target file fact = fact.specifier := by
  have hnone : workspace.newCore? config source target file fact = none := by
    rw [newCore?]
    split
    · by_contra hsome
      obtain ⟨core, hcore⟩ := Option.ne_none_iff_exists'.1 hsome
      exact hother (language_of_coreOf? hcore)
    · rfl
  rw [specifierAfter, hnone]
  rfl

theorem Renews.mem {text : String} (hrenews : Renews workspace config source target file fact text) :
    fact ∈ file.facts.imports := by
  obtain ⟨entry, hentry, -, rfl⟩ := hrenews.leads
  exact (List.of_mem_zip (List.of_mem_zip hentry).2).1

theorem Respelled.language_mem {replacement : Replacement}
    (hrespelled : Respelled workspace config source target file replacement) :
    file.language ∈ Language.respelled := by
  cases hrespelled with
  | specifier hrenews | use hrenews =>
    obtain ⟨core, hcore, -⟩ := hrenews.core
    exact language_of_coreOf? hcore

/-- Imports with one mark become the same. -/
theorem coreOf?_congr {other : ImportFact} (hmark : other.mark = fact.mark) :
    coreOf? config target file other = coreOf? config target file fact := by
  obtain ⟨hrange, hspecifier⟩ := Mark.module.inj hmark
  rw [coreOf?, coreOf?, hrange]
  exact Respell.core?_congr hspecifier

/-- Where one replacement is to be made, it is the only one. -/
theorem Respelling.eq_singleton {replacements : List Replacement} {only : Replacement}
    (hrespelling : workspace.Respelling config source target file replacements)
    (honly : ∀ replacement,
      Respelled workspace config source target file replacement ↔ replacement = only)
    (hproper : only.range.start < only.range.stop) : replacements = [only] := by
  have hall : ∀ replacement ∈ replacements, replacement = only := fun replacement hmem =>
    (honly replacement).1 (hrespelling.each replacement hmem)
  match replacements, hall, hrespelling with
  | [], _, hrespelling =>
    obtain ⟨made, hmade, -⟩ := hrespelling.all only ((honly only).2 rfl)
    cases hmade
  | [first], hall, _ => rw [hall first List.mem_cons_self]
  | first :: second :: rest, hall, hrespelling =>
    have hapart := (List.pairwise_cons.1 hrespelling.apart).1 second List.mem_cons_self
    rw [hall first (by simp), hall second (by simp)] at hapart
    omega

/-! ### The marks of replacements -/

section Marks

variable (hclean : file.parsed.Clean) (hfacts : file.facts = file.parsed.facts)

include hclean hfacts

/-- The specifiers of a file stand in its text. -/
theorem slice?_specifier (hfact : fact ∈ file.facts.imports) :
    Text.slice? file.text fact.specifierRange.start fact.specifierRange.stop =
        some (fact.specifierRange.read file.text) ∧
      fact.specifierRange.start < fact.specifierRange.stop := by
  rw [hfacts] at hfact
  have hwritten := hclean.written fact hfact
  change ((fact.specifierRange.read file.text).toList.head?.any _ : Bool) = true at hwritten
  have hne : fact.specifierRange.read file.text ≠ "" := by
    intro hempty
    rw [hempty] at hwritten
    cases hwritten
  rw [ByteRange.read] at hne ⊢
  cases hslice : Text.slice? file.text fact.specifierRange.start fact.specifierRange.stop with
  | none =>
    rw [hslice] at hne
    exact absurd rfl hne
  | some spelled =>
    rw [hslice, Option.getD_some] at hne
    have hstop := Text.add_size_of_slice? hslice
    have hsize := Text.size_pos hne
    exact ⟨rfl, by omega⟩

/-- Two marks with some text that begin at one place are the same. -/
theorem mark_eq_of_start (hlanguage : file.language ∈ Language.respelled) {first second : Mark}
    (hfirst : file.facts.Marked (file.language = .python) first)
    (hsecond : file.facts.Marked (file.language = .python) second)
    (hstart : first.range.start = second.range.start)
    (hproper : first.range.start < first.range.stop)
    (hproper' : second.range.start < second.range.stop) : first = second := by
  rw [hfacts] at hfirst hsecond
  obtain heq | hbefore | hafter := (Parsed.scattered_spot hclean.toTidy).apart first second
    (Parsed.spot_of_marked hlanguage hfirst) (Parsed.spot_of_marked hlanguage hsecond)
  · exact heq
  · omega
  · omega

/-- A replacement takes out some text that begins with a mark and does not reach beyond it. -/
theorem Respelled.exists_mark {replacement : Replacement}
    (hrespelled : Respelled workspace config source target file replacement) :
    ∃ mark, file.facts.Marked (file.language = .python) mark ∧
      replacement.range.start = mark.range.start ∧ replacement.range.Inside mark.range ∧
      replacement.range.start < replacement.range.stop ∧
      ((∃ range, mark = .use range) ∨ ∃ other,
        Renews workspace config source target file other replacement.text ∧ mark = other.mark) := by
  cases hrespelled with
  | @specifier other _ hrenews =>
    exact ⟨other.mark, .inl ⟨other, hrenews.mem, rfl⟩, rfl, .refl _,
      (slice?_specifier hclean hfacts hrenews.mem).2, .inr ⟨other, hrenews, rfl⟩⟩
  | @use other reference range _ hrenews hlanguage hreference huse =>
    obtain ⟨hinside, hkind⟩ := huse.inside
    have hstop := Text.add_size_of_slice? huse.spelled
    have hsize : 0 < Text.size other.specifier := Text.size_pos fun hempty => by
      have hdotted := huse.dotted
      rw [hempty] at hdotted
      cases hdotted
    have hproper : range.start < range.stop := by omega
    exact ⟨.use reference.target.spot, .inr ⟨by simp [hlanguage], reference, hreference, hkind, rfl⟩,
      huse.start, hinside, hproper, .inl ⟨_, rfl⟩⟩

/-- What is put in where a specifier begins is the new text of an import at its place. -/
theorem Respelled.exists_renews {replacement : Replacement}
    (hrespelled : Respelled workspace config source target file replacement)
    (hfact : fact ∈ file.facts.imports)
    (hstart : replacement.range.start = fact.specifierRange.start) : ∃ other,
      Renews workspace config source target file other replacement.text ∧ other.mark = fact.mark := by
  have hproper := (slice?_specifier hclean hfacts hfact).2
  obtain ⟨mark, hmark, hmarkStart, hinside, hreplaced, hkind⟩ :=
    hrespelled.exists_mark hclean hfacts
  have hstop := hinside.2
  have hsame : mark = fact.mark := mark_eq_of_start hclean hfacts hrespelled.language_mem hmark
    (.inl ⟨fact, hfact, rfl⟩) (hmarkStart.symm.trans hstart) (by omega) hproper
  obtain ⟨range, rfl⟩ | ⟨other, hrenews, rfl⟩ := hkind
  · cases hsame
  · exact ⟨other, hrenews, hsame⟩

/-- Anything else that is put in lies apart from a specifier. -/
theorem Respelled.apart {replacement : Replacement}
    (hrespelled : Respelled workspace config source target file replacement)
    (hfact : fact ∈ file.facts.imports)
    (hstart : replacement.range.start ≠ fact.specifierRange.start) :
    replacement.range.Apart fact.specifierRange := by
  obtain ⟨mark, hmark, hmarkStart, hinside, -⟩ := hrespelled.exists_mark hclean hfacts
  have hmark' : file.facts.Marked (file.language = .python) fact.mark := .inl ⟨fact, hfact, rfl⟩
  rw [hfacts] at hmark hmark'
  obtain rfl | hapart := (Parsed.scattered_spot hclean.toTidy).apart mark fact.mark
    (Parsed.spot_of_marked hrespelled.language_mem hmark)
    (Parsed.spot_of_marked hrespelled.language_mem hmark')
  · exact absurd hmarkStart hstart
  · exact hapart.mono hinside (.refl _)

theorem Respelling.separate {replacements : List Replacement}
    (hrespelling : workspace.Respelling config source target file replacements) :
    Replacement.Separate replacements :=
  ⟨hrespelling.apart, fun replacement hmem =>
    have ⟨_, _, _, _, hproper, _⟩ := (hrespelling.each replacement hmem).exists_mark hclean hfacts
    hproper⟩

/-! ### What stands at a specifier afterwards -/

section Woven

variable {replacements : List Replacement} {text : String}
  (hrespelling : workspace.Respelling config source target file replacements)
  (hwoven : Replacement.weave file.text 0 replacements = some text)

include hrespelling

/-- Where nothing is put in for a specifier, the module is still spelled as it was: it gets no new
text, or its old one again. -/
theorem Respelling.writtenAfter_eq (hfact : fact ∈ file.facts.imports)
    (hnone : ∀ replacement ∈ replacements,
      replacement.range.start ≠ fact.specifierRange.start) :
    workspace.writtenAfter config source target file fact = fact.specifierRange.read file.text := by
  rw [writtenAfter, newCore?]
  split
  · rename_i hleads
    obtain ⟨entry, hentry, hleads⟩ := List.any_eq_true.1 hleads
    simp only [Bool.and_eq_true, decide_eq_true_eq] at hleads
    obtain ⟨hrange, hleads⟩ := hleads
    cases hcore : coreOf? config target file fact with
    | none => rfl
    | some core =>
      have hentryMem : entry.2.1 ∈ file.facts.imports :=
        (List.of_mem_zip (List.of_mem_zip hentry).2).1
      have hsame : entry.2.1.mark = fact.mark := mark_eq_of_start hclean hfacts
        (language_of_coreOf? hcore) (.inl ⟨_, hentryMem, rfl⟩) (.inl ⟨_, hfact, rfl⟩)
        (congrArg ByteRange.start hrange) (slice?_specifier hclean hfacts hentryMem).2
        (slice?_specifier hclean hfacts hfact).2
      have hkept : Respell.withName file.language entry.2.1 core =
          entry.2.1.specifierRange.read file.text := by
        by_contra hchanged
        obtain ⟨made, hmade, hstart⟩ := hrespelling.all _ (.specifier ⟨⟨entry, hentry, hleads, rfl⟩,
          ⟨core, (coreOf?_congr hsame).trans hcore, rfl⟩, hchanged⟩)
        exact hnone made hmade (hstart.trans (congrArg ByteRange.start hrange))
      rw [hrange] at hkept
      refine Respell.eq_of_withName hkept fun hpython => ?_
      rw [hfacts] at hentryMem
      have hread := Parsed.specifier_eq (language_of_coreOf? hcore) hentryMem
      rw [hrange, show file.parsed.language = .python from hpython] at hread
      exact hread
  · rfl

include hwoven

/-- **At the place of a specifier stands what was put in for it, or what stood there before.** -/
theorem Respelling.read_carried (hfact : fact ∈ file.facts.imports) :
    let written := workspace.writtenAfter config source target file fact
    (Replacement.carried replacements fact.specifierRange written).read text = written := by
  intro written
  have hseparate := hrespelling.separate hclean hfacts
  obtain ⟨rest, head, tail, htext, hsize⟩ : ∃ rest head tail, text = head ++ (written ++ rest) ++ tail ∧
      Text.size head = Replacement.carry 0 replacements fact.specifierRange.start := by
    by_cases hmade : ∃ made ∈ replacements, made.range.start = fact.specifierRange.start
    · obtain ⟨made, hmade, hstart⟩ := hmade
      obtain ⟨other, hrenews, hmark⟩ :=
        (hrespelling.each made hmade).exists_renews hclean hfacts hfact hstart
      obtain ⟨head, tail, htext, hsize⟩ :=
        Replacement.exists_parts_of_replacement hwoven hseparate hmade
      obtain ⟨core, hcore, hmadeText⟩ := hrenews.core
      obtain ⟨entry, hentry, hleads, rfl⟩ := hrenews.leads
      have hrespelled : workspace.leadsAt source file fact := List.any_eq_true.2
        ⟨entry, hentry, by simp [(Mark.module.inj hmark).1, hleads]⟩
      have hwritten : written = core := by
        rw [coreOf?_congr hmark] at hcore
        simp only [written, writtenAfter, newCore?, if_pos hrespelled, hcore, Option.getD_some]
      obtain ⟨rest, hrest⟩ := Respell.exists_withName file.language entry.2.1 core
      exact ⟨rest, head, tail, by rw [htext, hmadeText, hrest, hwritten], by rw [hsize, hstart]⟩
    · have hnone : ∀ replacement ∈ replacements,
          replacement.range.start ≠ fact.specifierRange.start := fun replacement hmem hstart =>
        hmade ⟨replacement, hmem, hstart⟩
      have hwritten : written = fact.specifierRange.read file.text :=
        hrespelling.writtenAfter_eq hclean hfacts hfact hnone
      obtain ⟨head, tail, htext, hsize⟩ := Replacement.exists_parts_of_kept hwoven hseparate
        (slice?_specifier hclean hfacts hfact).1 (Nat.zero_le _) fun replacement hmem =>
          (hrespelling.each replacement hmem).apart hclean hfacts hfact (hnone replacement hmem)
      exact ⟨"", head, tail, by rw [htext, String.append_empty, hwritten], hsize⟩
  have hslice := Text.slice?_of_parts head written (rest ++ tail)
  have hparts : head ++ written ++ (rest ++ tail) = text := by
    rw [htext]
    simp only [String.append_assoc]
  rw [hparts, hsize] at hslice
  rw [ByteRange.read, Replacement.carried, hslice]
  rfl

/-- **An import names the module that was put in for it, or the one it named before**, once the
parser finds its specifier where that has come to. -/
theorem Respelling.specifier_eq (hlanguage : file.language ∈ Language.respelled)
    (hfact : fact ∈ file.facts.imports) {parsed : Parsed} (htext : parsed.text = text)
    (hsame : parsed.language = file.language) {later : ImportFact}
    (hlater : later ∈ parsed.facts.imports)
    (hplace : later.specifierRange = Replacement.carried replacements fact.specifierRange
      (workspace.writtenAfter config source target file fact)) :
    later.specifier = workspace.specifierAfter config source target file fact := by
  have hread := Parsed.specifier_eq (hsame ▸ hlanguage) hlater
  rw [hplace, htext, hrespelling.read_carried hclean hfacts hwoven hfact, hsame, writtenAfter]
    at hread
  rw [hread, specifierAfter]
  cases workspace.newCore? config source target file fact with
  | some core => rfl
  | none =>
    rw [hfacts] at hfact
    exact (Parsed.specifier_eq hlanguage hfact).symm

end Woven

end Marks

/-! ### The replacements that are made -/

/-- What a file has put in for one of its imports. -/
theorem mem_respellings_iff {entry : NodeId × ImportFact × ModulePlan} {spelled : String}
    (hspelled : Text.slice? file.text entry.2.1.specifierRange.start entry.2.1.specifierRange.stop =
      some spelled) {replacement : Replacement} :
    replacement ∈ workspace.respellings config file source target entry ↔
      workspace.pointsInto entry.1 entry.2.2 source ∧ ∃ text,
        Respell.specifier? file.language file.path entry.2.1 spelled target
          (config.language file.language) = some text ∧ text ≠ spelled ∧
        (replacement = ⟨entry.2.1.specifierRange, text⟩ ∨
          ∃ use ∈ Respell.moduleUses file.language entry.2.1 file.facts.references file.text text,
            ⟨use.1, use.2⟩ = replacement) := by
  obtain ⟨id, fact, plan⟩ := entry
  rw [respellings]
  dsimp only at hspelled ⊢
  rw [hspelled]
  cases hpoints : workspace.pointsInto id plan source with
  | false => simp [guard, failure]
  | true =>
    cases htext : Respell.specifier? file.language file.path fact spelled target
        (config.language file.language) with
    | none => simp [guard, htext]
    | some text =>
      by_cases hsame : text = spelled
      · simp [guard, failure, htext, hsame]
      · simp [guard, htext, hsame]

section Made

variable (hsound : workspace.Sound environment) (hfile : file ∈ workspace.files)
  (hsource : source.IsNormal)

include hsound hfile hsource

/-- Imports that are spelled by place point to files. -/
theorem Sound.pointsInto_eq_leads (hlanguage : file.language ∈ Language.respelled)
    {entry : NodeId × ImportFact × ModulePlan} (hentry : entry ∈ file.entries) :
    workspace.pointsInto entry.1 entry.2.2 source = workspace.leads source entry := by
  have hplan : entry.2.2 ∈ file.plans := (List.of_mem_zip (List.of_mem_zip hentry).2).2
  have hmade := hplan
  rw [(hsound.drawn file hfile id).2.plans, Pass.plansOf] at hmade
  obtain ⟨fact, -, hmade⟩ := List.mem_map.1 hmade
  have hfiles : ∀ candidate ∈ entry.2.2.candidates, ∃ path, candidate = .file path := by
    have hgo : file.language ≠ .go := by
      rintro h
      rw [h] at hlanguage
      exact absurd hlanguage (by decide)
    have hjava : file.language ≠ .java := by
      rintro h
      rw [h] at hlanguage
      exact absurd hlanguage (by decide)
    rw [← hmade]
    exact fun candidate hcandidate =>
      ModulePlan.exists_file_of_mem_all hgo hjava (List.mem_append_left _ hcandidate)
  have haccepts : entry.2.2.candidates.any (·.accepts source) =
      decide (.file source ∈ entry.2.2.candidates) := by
    rw [Bool.eq_iff_iff, List.any_eq_true, decide_eq_true_eq]
    constructor
    · rintro ⟨candidate, hcandidate, haccepts⟩
      obtain ⟨path, rfl⟩ := hfiles candidate hcandidate
      have hplain : path.IsPlain :=
        hsound.isPlain_of_mem_plans hfile hplan (List.mem_append_left _ hcandidate)
      exact hplain.eq_of_same hsource.isPlain haccepts ▸ hcandidate
    · exact fun hmem => ⟨_, hmem, decide_eq_true rfl⟩
  rw [pointsInto, leads, haccepts]
  cases workspace.graph.node? entry.1 with
  | none => rfl
  | some node =>
    cases hbinding : node.binding?.bind Binding.target? with
    | none => simp [hbinding]
    | some target => simp [hbinding]

/-- **The replacements that are made in an importer are those that are to be made.** -/
theorem Sound.respelling_importerReplacements (target : Path) (hclean : file.parsed.Clean) :
    workspace.Respelling environment.config source target file
      (workspace.importerReplacements environment.config source target file) := by
  have hfacts := (hsound.drawn file hfile id).2.facts
  have hslice : ∀ entry ∈ file.entries, Text.slice? file.text entry.2.1.specifierRange.start
      entry.2.1.specifierRange.stop = some (entry.2.1.specifierRange.read file.text) :=
    fun entry hentry => (slice?_specifier hclean hfacts
      (List.of_mem_zip (List.of_mem_zip hentry).2).1).1
  obtain ⟨_, hsplices⟩ : ∃ text, Replacement.Splices file.text
      (workspace.importerReplacements environment.config source target file) text :=
    exists_splices hfacts hclean.toTidy
  refine ⟨hsplices.apart, fun replacement hmem => ?_, fun replacement hrespelled => ?_⟩
  · obtain ⟨entry, hentry, hmem⟩ := List.mem_flatMap.1 ((Replacement.inOrder_spec _).1 hmem)
    obtain ⟨hpoints, text, htext, hchanged, hreplacement⟩ :=
      (mem_respellings_iff (hslice entry hentry)).1 hmem
    have hlanguage := Respell.mem_respelled_of_specifier? htext
    rw [hsound.pointsInto_eq_leads hfile hsource hlanguage hentry] at hpoints
    rw [Respell.specifier?_eq] at htext
    obtain ⟨core, hcore, rfl⟩ := Option.map_eq_some_iff.1 htext
    have hrenews : Renews workspace environment.config source target file entry.2.1
        (Respell.withName file.language entry.2.1 core) :=
      ⟨⟨entry, hentry, hpoints, rfl⟩, ⟨core, hcore, rfl⟩, hchanged⟩
    obtain rfl | ⟨use, huse, rfl⟩ := hreplacement
    · exact .specifier hrenews
    · obtain ⟨⟨hpython, reference, hreference, hisUse⟩, hnew⟩ := Respell.mem_moduleUses_iff.1 huse
      rw [hnew]
      exact .use hrenews hpython hreference hisUse
  · have hmade : ∀ {fact : ImportFact} {text : String},
        Renews workspace environment.config source target file fact text → ∃ entry ∈ file.entries,
          entry.2.1 = fact ∧ ∀ replacement : Replacement, (replacement = ⟨fact.specifierRange, text⟩ ∨
            ∃ use ∈ Respell.moduleUses file.language fact file.facts.references file.text text,
              ⟨use.1, use.2⟩ = replacement) →
            replacement ∈ workspace.respellings environment.config file source target entry := by
      rintro fact text ⟨⟨entry, hentry, hleads, rfl⟩, ⟨core, hcore, rfl⟩, hchanged⟩
      refine ⟨entry, hentry, rfl, fun replacement hreplacement => ?_⟩
      rw [← hsound.pointsInto_eq_leads hfile hsource (language_of_coreOf? hcore) hentry] at hleads
      exact (mem_respellings_iff (hslice entry hentry)).2 ⟨hleads, _,
        Respell.specifier?_eq.trans (congrArg _ hcore), hchanged, hreplacement⟩
    refine Replacement.exists_mem_inOrder (List.mem_flatMap.2 ?_)
    cases hrespelled with
    | specifier hrenews =>
      obtain ⟨entry, hentry, -, hmem⟩ := hmade hrenews
      exact ⟨entry, hentry, hmem _ (.inl rfl)⟩
    | use hrenews hpython hreference huse =>
      obtain ⟨entry, hentry, -, hmem⟩ := hmade hrenews
      exact ⟨entry, hentry, hmem _ (.inr ⟨(_, _), Respell.mem_moduleUses_iff.2
        ⟨⟨hpython, _, hreference, huse⟩, rfl⟩, rfl⟩)⟩

end Made

end Workspace

end CodeGraph
