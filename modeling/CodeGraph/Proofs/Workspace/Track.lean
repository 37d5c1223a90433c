import CodeGraph.Proofs.Workspace.Follow
import CodeGraph.Proofs.Workspace.Propagation
import CodeGraph.Proofs.Workspace.Respelled

/-!
# Imports that keep track of a file that moves

The search for what an import stands for consults the import itself and every import that a file on
its way exposes. An import keeps track of a file that moves if it finds the file again: because it
is spelled anew and leads to the new path, or because the first place that it finds a file at is the
same as before. Where everything that is consulted keeps track and is read again as it was spelled,
the search comes to the node it came to before.
-/

namespace CodeGraph

/-- Where the first of some candidates lies that has a file. -/
def Candidate.firstAt? (present : Path → Bool) (candidates : List Candidate) : Option Path :=
  (candidates.map Candidate.path).find? present

/-- The wildcard imports at the top level. -/
def FileFacts.rootWildcards (facts : FileFacts) : List Nat :=
  (facts.scopes.rootScope?.map Scope.wildcards).getD []

/-- The name under which a search goes on through the imports of a file, if the file does not
declare it. -/
def SourceFile.passesOn? (file : SourceFile) (name : String) : Option String :=
  (Workspace.soughtName? file name).filter fun sought =>
    (file.facts.topLevelSymbol? sought).isNone

/-- What is read of a file at another path. -/
def SourceFile.factsAt? (file : SourceFile) (environment : Environment) (path : Path) :
    Option FileFacts :=
  (Parsed.parse environment.parser path (Language.ofPath path) file.text).toOption.map Parsed.facts

/-- The plans of a file are those for its imports. -/
theorem SourceFile.Current.planned?_eq {environment : Environment} {file : SourceFile}
    (hcurrent : file.Current environment) (index : Nat) :
    file.planned? index = (file.facts.imports[index]?).map fun fact =>
      (fact, ModulePlan.make file.language file.path fact
        (environment.config.language file.language)) := by
  rw [planned?, hcurrent.plans, Pass.plansOf, List.getElem?_map]
  cases file.facts.imports[index]? <;> rfl

namespace Workspace

/-! ### Keeping track -/

section Track

variable (environment : Environment) (workspace : Workspace) (source target : Path)

/-- Whether there is a file at a path once the one at `source` has moved. -/
def containsMoved (path : Path) : Bool :=
  path = target || (path ≠ source && workspace.contains path)

/-- Whether the specifier of an import is spelled anew: it leads to the file that moves, and the
language spells it by place. The imports of that file itself stay as they are. -/
def isRespelled (file : SourceFile) (fact : ImportFact) : Bool :=
  file.path ≠ source && workspace.leadsAt source file fact &&
    Respell.isPlaced file.language fact.specifier

/-- An import as it is spelled after the move. -/
def movedImport (file : SourceFile) (fact : ImportFact) : ImportFact :=
  { fact with specifier :=
      if file.path = source then fact.specifier
      else workspace.specifierAfter environment.config source target file fact }

/-- Where an import may point after the move. -/
def movedPlan (file : SourceFile) (fact : ImportFact) : ModulePlan :=
  ModulePlan.make file.language (Path.moved source target file.path)
    (workspace.movedImport environment source target file fact)
    (environment.config.language file.language)

/-- An import finds the file that it found. If it is spelled anew that is the one that moves, whose
new path can be spelled, and there is none at the places before; any other import finds its first
file where that was, or has moved to. -/
def tracks (file : SourceFile) (index : Nat) : Bool :=
  (file.planned? index).all fun (fact, plan) =>
    let found := Candidate.firstAt? workspace.contains plan.candidates
    let candidates := (workspace.movedPlan environment source target file fact).candidates
    if workspace.isRespelled source file fact then found = some source &&
      Respell.canSpell file.language file.path fact target
        (environment.config.language file.language) &&
      (candidates.takeWhile (· ≠ .file target)).all fun candidate =>
        !workspace.containsMoved source target candidate.path
    else Candidate.firstAt? (workspace.containsMoved source target) candidates =
      found.map (Path.moved source target)

/-- The module of its member's name is found again as well, if that is the file that moves, and none
is found if there was none. -/
def tracksMember (file : SourceFile) (index : Nat) : Bool :=
  (file.planned? index).all fun (fact, plan) =>
    let found := Candidate.firstAt? workspace.contains plan.memberCandidates
    let later := workspace.movedPlan environment source target file fact
    found.any (· ≠ source) ||
      Candidate.firstAt? (workspace.containsMoved source target) later.memberCandidates =
        found.map (Path.moved source target)

/-! What is asked of the parser says where things stand, not which modules they name. -/

/-- The parser finds an import again: its specifier at the place that this has come to, and its
other parts as they were. -/
structure Returns (file : SourceFile) (replacements : List Replacement) (fact later : ImportFact) :
    Prop where
  place : later.specifierRange = Replacement.carried replacements fact.specifierRange
    (workspace.writtenAfter environment.config source target file fact)
  member : later.member = fact.member
  wildcard : later.wildcard = fact.wildcard
  exposed : later.isExposed file.language = fact.isExposed file.language

def ReturnsAt (file : SourceFile) (index : Nat) (replacements : List Replacement)
    (now : FileFacts) : Prop :=
  Option.Rel (workspace.Returns environment source target file replacements)
    file.facts.imports[index]? now.imports[index]?

/-- A search for a name passes through a file as before: the name is still not declared there, and
the imports that the search may follow are found again. -/
structure ReadsOn (file : SourceFile) (sought : String) (replacements : List Replacement)
    (now : FileFacts) : Prop where
  undeclared : now.topLevelSymbol? sought = none
  root : now.rootImport? sought = file.facts.rootImport? sought
  wildcards : now.rootWildcards = file.facts.rootWildcards
  named : ∀ index, file.facts.rootImport? sought = some index →
    workspace.ReturnsAt environment source target file index replacements now
  whole : ∀ index ∈ file.facts.rootWildcards,
    workspace.ReturnsAt environment source target file index replacements now

/-- The tree of a file is clean, and this is what the parser makes of its text once everything is
put in that is to be put in. -/
structure Reread (file : SourceFile) (reads : List Replacement → FileFacts → Prop) : Prop where
  clean : file.parsed.Clean
  again : ∀ replacements text parsed,
    workspace.Respelling environment.config source target file replacements →
    Replacement.weave file.text 0 replacements = some text →
    Parsed.parse environment.parser file.path file.language text = .ok parsed →
    reads replacements parsed.facts

end Track

/-- In which files, and under which names, the search for what an import stands for may look. -/
inductive Sought (workspace : Workspace) (first : SourceFile) (start : Nat) :
    SourceFile → String → Prop
  | start {fact : ImportFact} {plan : ModulePlan} {name : String} {file : SourceFile}
    (hplanned : first.planned? start = some (fact, plan)) (hname : fact.sought? = some name)
    (hfile : file ∈ workspace.firstPresent first.language plan.candidates) :
    Sought workspace first start file name
  | named {file other : SourceFile} {name sought member : String} {index : Nat} {fact : ImportFact}
    {plan : ModulePlan} (hsought : Sought workspace first start file name)
    (hpasses : file.passesOn? name = some sought)
    (hindex : file.facts.rootImport? sought = some index)
    (hexposed : file.exposed? index = some (fact, plan)) (hmember : fact.sought? = some member)
    (hother : other ∈ workspace.firstPresent file.language plan.candidates) :
    Sought workspace first start other member
  | whole {file other : SourceFile} {name sought : String} {index : Nat} {fact : ImportFact}
    {plan : ModulePlan} (hsought : Sought workspace first start file name)
    (hpasses : file.passesOn? name = some sought) (hindex : index ∈ file.facts.rootWildcards)
    (hexposed : file.exposed? index = some (fact, plan))
    (hother : other ∈ workspace.firstPresent file.language plan.candidates) :
    Sought workspace first start other sought

/-- An import keeps track of a file that moves. It is found again and finds what it found, and so do
all imports that the search for its member may follow. Its member's own module matters only if that
search comes to nothing. -/
structure KeepsTrack (environment : Environment) (workspace : Workspace) (source target : Path)
    (file : SourceFile) (index : Nat) : Prop where
  reread : workspace.Reread environment source target file
    (workspace.ReturnsAt environment source target file index)
  tracks : workspace.tracks environment source target file index
  member : (∀ fact plan member, file.planned? index = some (fact, plan) →
      fact.sought? = some member → workspace.lookupMember
        (workspace.firstPresent file.language plan.candidates) member = none) →
    workspace.tracksMember environment source target file index
  onward : ∀ other name, Sought workspace file index other name → other.path ≠ source →
    workspace.Reread environment source target other fun replacements now =>
      (name = "default" → now.defaultExport = other.facts.defaultExport) ∧
      ∀ sought, other.passesOn? name = some sought →
        workspace.ReadsOn environment source target other sought replacements now
  named : ∀ other name sought index', Sought workspace file index other name →
    other.passesOn? name = some sought → other.facts.rootImport? sought = some index' →
    (other.exposed? index').isSome → workspace.tracks environment source target other index' ∧
      workspace.tracksMember environment source target other index'
  whole : ∀ other name sought, Sought workspace file index other name →
    other.passesOn? name = some sought → ∀ index' ∈ other.facts.rootWildcards,
    (other.exposed? index').isSome → workspace.tracks environment source target other index'

/-! ### Places -/

theorem firstAt?_eq_of_mem {present : Path → Bool} {candidates : List Candidate} {path : Path}
    (hmem : .file path ∈ candidates) (hpresent : present path)
    (hbefore : ∀ candidate ∈ candidates.takeWhile (· ≠ .file path),
      present candidate.path = false) :
    Candidate.firstAt? present candidates = some path := by
  induction candidates with
  | nil => cases hmem
  | cons head rest ih =>
    rw [Candidate.firstAt?, List.map_cons, List.find?_cons]
    by_cases hhead : head = .file path
    · rw [hhead, Candidate.path, hpresent]
    · rw [List.takeWhile_cons_of_pos (by simpa using hhead)] at hbefore
      rw [hbefore head List.mem_cons_self]
      exact ih ((List.mem_cons.1 hmem).resolve_left (Ne.symm hhead)) fun candidate hcandidate =>
        hbefore candidate (List.mem_cons_of_mem _ hcandidate)

theorem exists_file_of_firstAt? {workspace : Workspace} {candidates : List Candidate} {path : Path}
    (hfound : Candidate.firstAt? workspace.contains candidates = some path) :
    ∃ file ∈ workspace.files, workspace.file? path = some file ∧ file.path = path := by
  rw [Candidate.firstAt?] at hfound
  have hpresent := List.find?_some hfound
  rw [contains] at hpresent
  obtain ⟨file, hfile⟩ := Option.isSome_iff_exists.1 hpresent
  exact ⟨file, (file?_mem hfile).1, hfile, (file?_mem hfile).2⟩

/-- The plan of an import is the one that is made for it. -/
theorem Sound.plan_eq {environment : Environment} {workspace : Workspace}
    (hsound : workspace.Sound environment) {file : SourceFile} (hfile : file ∈ workspace.files)
    {index : Nat} {entry : ImportFact × ModulePlan} (hplanned : file.planned? index = some entry) :
    entry.2 = ModulePlan.make file.language file.path entry.1
      (environment.config.language file.language) := by
  rw [(hsound.drawn file hfile not_false).2.planned?_eq] at hplanned
  obtain ⟨fact, -, rfl⟩ := Option.map_eq_some_iff.1 hplanned
  rfl

/-- Imports point to files, but for those of packages. -/
theorem Sound.exists_file {environment : Environment} {workspace : Workspace}
    (hsound : workspace.Sound environment) {file : SourceFile} (hfile : file ∈ workspace.files)
    (hgo : file.language ≠ .go) (hjava : file.language ≠ .java) {index : Nat}
    {entry : ImportFact × ModulePlan} (hplanned : file.planned? index = some entry)
    {candidate : Candidate} (hcandidate : candidate ∈ entry.2.all) :
    ∃ path, candidate = .file path := by
  rw [hsound.plan_eq hfile hplanned] at hcandidate
  exact ModulePlan.exists_file_of_mem_all hgo hjava hcandidate

/-- Among places for files at most one file is found. -/
theorem firstPresent_eq {workspace : Workspace} {candidates : List Candidate}
    (hfiles : ∀ candidate ∈ candidates, ∃ path, candidate = .file path) (language : Language) :
    workspace.firstPresent language candidates =
      ((Candidate.firstAt? workspace.contains candidates).bind workspace.file?).toList := by
  induction candidates with
  | nil => rfl
  | cons head rest ih =>
    have ih := ih fun candidate hcandidate => hfiles candidate (List.mem_cons_of_mem _ hcandidate)
    obtain ⟨path, rfl⟩ := hfiles head List.mem_cons_self
    rw [firstPresent, Candidate.firstAt?] at ih ⊢
    rw [List.map_cons, List.find?_cons, List.map_cons, List.find?_cons, present, Candidate.path,
      contains]
    cases hfile : workspace.file? path with
    | none => exact ih
    | some file => simp [hfile]

section Moves

variable {environment : Environment} {source target : Path} {moved : SourceFile}
  {before after : Workspace}

/-- The text of a file after the move. In the other files the imports have been spelled anew. -/
def movedText (environment : Environment) (workspace : Workspace) (source target : Path)
    (file : SourceFile) : String :=
  if file.path = source then file.text
  else (Replacement.applyAll file.text
    (workspace.importerReplacements environment.config source target file)).1

/-- A workspace after a file has moved, with the other files spelled anew. -/
structure Moves (environment : Environment) (source target : Path) (moved : SourceFile)
    (before after : Workspace) : Prop where
  sound : before.Sound environment
  sound' : after.Sound environment
  found : before.file? source = some moved
  free : before.file? target = none
  normal : target.IsNormal
  length : after.files.length = before.files.length
  contains : ∀ path, after.contains path = before.containsMoved source target path
  becomes : ∀ file ∈ before.files, ∃ now,
    after.file? (Path.moved source target file.path) = some now ∧ now.node = file.node ∧
      now.language = file.language ∧ now.text = before.movedText environment source target file
  same : ∀ now, after.file? target = some now →
    now.facts = moved.facts ∧ now.symbols = moved.symbols

/-- The nodes that go along with the file: its own and those of its symbols. -/
def Inside (moved : SourceFile) (id : NodeId) : Prop :=
  id = moved.node ∨ id ∈ moved.symbols

theorem Inside.mem_nodes {id : NodeId} (hinside : Inside moved id) : id ∈ moved.nodes := by
  rcases hinside with rfl | hinside
  · exact SourceFile.node_mem_nodes
  · exact SourceFile.mem_nodes_of_symbol hinside

variable (hmoves : Moves environment source target moved before after)

include hmoves

/-- The file that has moved has the same nodes. -/
theorem Moves.exists_inside {id : NodeId} (hinside : Inside moved id) :
    ∃ now ∈ after.files, Inside now id := by
  obtain ⟨hmem, hpath⟩ := file?_mem hmoves.found
  obtain ⟨now, hnow, hnode, -⟩ := hmoves.becomes moved hmem
  rw [show Path.moved source target moved.path = target from if_pos hpath] at hnow
  obtain ⟨-, hsymbols⟩ := hmoves.same now hnow
  refine ⟨now, (file?_mem hnow).1, ?_⟩
  rwa [Inside, hnode, hsymbols]

theorem Moves.apart {file : SourceFile} (hfile : file ∈ before.files) : file.path ≠ target :=
  file?_eq_none_iff.1 hmoves.free file hfile

theorem Moves.becomesFile {file now : SourceFile} (hfile : file ∈ before.files)
    (hnow : after.file? (Path.moved source target file.path) = some now) :
    Becomes source target (Inside moved) file now := by
  obtain ⟨found, hfound, hnode, hlanguage, -⟩ := hmoves.becomes file hfile
  obtain rfl := Option.some.inj (hnow.symm.trans hfound)
  exact ⟨(file?_mem hnow).2, hmoves.apart hfile, hlanguage, fun _ => hnode⟩

/-- Where an import finds its first file where that was, or has moved to, it finds what the file has
become. -/
theorem Moves.firstPresent {candidates later : List Candidate}
    (hfiles : ∀ candidate ∈ candidates, ∃ path, candidate = .file path)
    (hlater : ∀ candidate ∈ later, ∃ path, candidate = .file path)
    (htracks : Candidate.firstAt? (before.containsMoved source target) later =
      (Candidate.firstAt? before.contains candidates).map (Path.moved source target))
    (language : Language) :
    List.Forall₂ (fun file other => file ∈ before.firstPresent language candidates ∧
        file ∈ before.files ∧ after.file? (Path.moved source target file.path) = some other)
      (before.firstPresent language candidates) (after.firstPresent language later) := by
  have hcontains : after.contains = before.containsMoved source target := funext hmoves.contains
  rw [firstPresent_eq hfiles, firstPresent_eq hlater, hcontains, htracks]
  cases hfound : Candidate.firstAt? before.contains candidates with
  | none => exact .nil
  | some path =>
    rw [Option.map_some, Option.bind_some, Option.bind_some]
    obtain ⟨file, hmem, hfile, rfl⟩ := exists_file_of_firstAt? hfound
    obtain ⟨now, hnow, -⟩ := hmoves.becomes file hmem
    rw [hfile, hnow]
    exact .cons ⟨List.mem_cons_self, hmem, hnow⟩ .nil

/-- The first place of an import that keeps track is where its file was, or has moved to. -/
theorem Moves.firstAt?_of_tracks {file : SourceFile} (hfile : file ∈ before.files)
    (hclean : file.path ≠ source → file.parsed.Clean) {index : Nat} {fact : ImportFact}
    {plan : ModulePlan} (hplanned : file.planned? index = some (fact, plan))
    (htracks : before.tracks environment source target file index) :
    Candidate.firstAt? (before.containsMoved source target)
        (before.movedPlan environment source target file fact).candidates =
      (Candidate.firstAt? before.contains plan.candidates).map (Path.moved source target) := by
  rw [tracks, hplanned, Option.all_some] at htracks
  dsimp only at htracks
  split at htracks
  · rename_i hrespelled
    simp only [isRespelled, Bool.and_eq_true, decide_eq_true_eq] at hrespelled
    obtain ⟨⟨hpath, hleads⟩, hplaced⟩ := hrespelled
    simp only [Bool.and_eq_true, decide_eq_true_eq, List.all_eq_true, Bool.not_eq_true'] at htracks
    obtain ⟨⟨hfound, hspell⟩, hbefore⟩ := htracks
    rw [hfound, Option.map_some, Path.moved, if_pos rfl]
    refine firstAt?_eq_of_mem ?_ (by simp [containsMoved]) hbefore
    have hfact : fact ∈ file.parsed.facts.imports := by
      rw [← (hmoves.sound.drawn file hfile not_false).2.facts]
      exact (SourceFile.mem_of_planned? hplanned).1
    obtain ⟨core, hcore⟩ := Respell.exists_core? hplaced hspell ((hclean hpath).written fact hfact)
    rw [movedPlan, movedImport, Path.moved, if_neg hpath, if_neg hpath, specifierAfter, newCore?,
      if_pos hleads, coreOf?]
    rw [show Respell.core? _ _ _ (fact.specifierRange.read file.text) _ _ = _ from hcore]
    exact Respell.mem_candidates_of_core? (hmoves.sound.ordered.normal file hfile) hmoves.normal
      hspell hcore
  · exact of_decide_eq_true htracks

omit hmoves in
/-- An import that is not spelled anew names what it named. -/
theorem movedImport_eq {workspace : Workspace} {file : SourceFile} {fact : ImportFact}
    (hkept : ¬ workspace.isRespelled source file fact) :
    workspace.movedImport environment source target file fact = fact := by
  rw [movedImport]
  split
  · rfl
  · rename_i hpath
    have hnone : workspace.newCore? environment.config source target file fact = none := by
      rw [newCore?]
      split
      · rename_i hleads
        by_contra hsome
        obtain ⟨core, hcore⟩ := Option.ne_none_iff_exists'.1 hsome
        exact hkept (by simp [isRespelled, hpath, hleads, Respell.isPlaced_of_core? hcore])
      · rfl
    rw [specifierAfter, hnone]
    rfl

/-- An import is read back as it is spelled after the move. -/
def ReadBack (environment : Environment) (before : Workspace) (source target : Path)
    (file : SourceFile) (index : Nat) (now : FileFacts) : Prop :=
  Option.Rel (fun fact later =>
      later.specifier = (before.movedImport environment source target file fact).specifier ∧
      later.member = fact.member ∧ later.wildcard = fact.wildcard ∧
      later.isExposed file.language = fact.isExposed file.language)
    file.facts.imports[index]? now.imports[index]?

/-- What there is to read of an importer afterwards is read of the text in which everything is put
in, and the imports that return there are read back. -/
theorem Moves.exists_read {file now : SourceFile} (hfile : file ∈ before.files)
    (hpath : file.path ≠ source)
    (hnow : after.file? (Path.moved source target file.path) = some now)
    {reads : List Replacement → FileFacts → Prop}
    (hreread : before.Reread environment source target file reads) :
    ∃ replacements, reads replacements now.facts ∧ ∀ index,
      before.ReturnsAt environment source target file index replacements now.facts →
      ReadBack environment before source target file index now.facts := by
  have hfacts := (hmoves.sound.drawn file hfile not_false).2.facts
  have hsource : source.IsNormal := by
    obtain ⟨hmem, rfl⟩ := file?_mem hmoves.found
    exact hmoves.sound.ordered.normal moved hmem
  have hrespelling :=
    hmoves.sound.respelling_importerReplacements hfile hsource target hreread.clean
  obtain ⟨text, hsplices⟩ : ∃ text, Replacement.Splices file.text
      (before.importerReplacements environment.config source target file) text :=
    exists_splices hfacts hreread.clean.toTidy
  obtain ⟨found, hfound, -, hlanguage, htext⟩ := hmoves.becomes file hfile
  obtain rfl := Option.some.inj (hnow.symm.trans hfound)
  rw [movedText, if_neg hpath, hsplices.applied] at htext
  obtain ⟨hnowMem, hnowPath⟩ := file?_mem hnow
  obtain ⟨-, hcurrent⟩ := hmoves.sound'.drawn now hnowMem not_false
  have hparsed := hcurrent.parsed
  rw [← hcurrent.language_eq, hnowPath, Path.moved, if_neg hpath, hlanguage, htext] at hparsed
  refine ⟨_, hcurrent.facts ▸ hreread.again _ text now.parsed hrespelling hsplices.woven hparsed,
    fun index hreturns => ?_⟩
  rw [ReadBack]
  rcases rel_cases hreturns with ⟨hleft, hright⟩ | ⟨fact, later, hleft, hright, hreturn⟩
  · rw [hleft, hright]
    exact .none
  · rw [hleft, hright]
    refine .some ⟨?_, hreturn.member, hreturn.wildcard, hreturn.exposed⟩
    rw [movedImport, if_neg hpath]
    have hfact := List.mem_of_getElem? hleft
    have hlater := List.mem_of_getElem? hright
    rw [hcurrent.facts] at hlater
    by_cases hrespelled : file.language ∈ Language.respelled
    · exact hrespelling.specifier_eq hreread.clean hfacts hsplices.woven hrespelled hfact htext
        hlanguage hlater hreturn.place
    · have hnone : before.importerReplacements environment.config source target file = [] :=
        List.eq_nil_iff_forall_not_mem.2 fun replacement hmem =>
          hrespelled (hrespelling.each replacement hmem).language_mem
      have hsame : file.text = text := by
        have happlied := hsplices.applied
        rw [hnone] at happlied
        exact (Prod.mk.inj happlied).1
      obtain ⟨-, hold⟩ := hmoves.sound.drawn file hfile not_false
      have hparsedOld := hold.parsed
      rw [← hold.language_eq, hsame, hparsed] at hparsedOld
      rw [hcurrent.facts, Except.ok.inj hparsedOld, ← hfacts, hleft] at hright
      rw [specifierAfter_eq hrespelled, Option.some.inj hright]

/-- What has become of an import that is read back. -/
theorem Moves.rel_planned? {file now : SourceFile} (hfile : file ∈ before.files)
    (hnow : after.file? (Path.moved source target file.path) = some now) {index : Nat}
    (hreads : ReadBack environment before source target file index now.facts) :
    Option.Rel (fun entry later => file.planned? index = some entry ∧
        later.1.member = entry.1.member ∧ later.1.wildcard = entry.1.wildcard ∧
        later.1.isExposed file.language = entry.1.isExposed file.language ∧
        later.2 = before.movedPlan environment source target file entry.1)
      (file.planned? index) (now.planned? index) := by
  obtain ⟨hnowMem, hpath⟩ := file?_mem hnow
  have hlanguage := (hmoves.becomesFile hfile hnow).language
  rw [(hmoves.sound.drawn file hfile not_false).2.planned?_eq,
    (hmoves.sound'.drawn now hnowMem not_false).2.planned?_eq, hlanguage, hpath]
  rcases rel_cases hreads with ⟨hleft, hright⟩ |
    ⟨fact, later, hleft, hright, hspecifier, hmember, hwildcard, hexposed⟩
  · rw [hleft, hright]
    exact .none
  · rw [hleft, hright]
    exact .some ⟨rfl, hmember, hwildcard, hexposed,
      ModulePlan.make_congr hspecifier hmember _ _ _⟩

/-- The nodes that go along are of no other file. -/
theorem Moves.eq_of_inside {file : SourceFile} (hfile : file ∈ before.files) {id : NodeId}
    (hid : id ∈ file.nodes) (hinside : Inside moved id) : file = moved :=
  hmoves.sound.eq_of_mem hfile (file?_mem hmoves.found).1 hid hinside.mem_nodes

section Entry

variable {file : SourceFile} (hfile : file ∈ before.files) (hgo : file.language ≠ .go)
  (hjava : file.language ≠ .java) {index : Nat} {entry later : ImportFact × ModulePlan}
  (hplanned : file.planned? index = some entry)
  (hplan : later.2 = before.movedPlan environment source target file entry.1)

include hfile hgo hjava hplanned

include hplan

omit hmoves hfile hplanned in
theorem exists_file_of_movedPlan {candidate : Candidate} (hcandidate : candidate ∈ later.2.all) :
    ∃ path, candidate = .file path := by
  rw [hplan] at hcandidate
  exact ModulePlan.exists_file_of_mem_all hgo hjava hcandidate

theorem Moves.comes {asked : SourceFile → String → SourceFile → Prop}
    (hmember : later.1.member = entry.1.member) (hwildcard : later.1.wildcard = entry.1.wildcard)
    (hclean : file.path ≠ source → file.parsed.Clean)
    (htracks : before.tracks environment source target file index)
    (hasked : ∀ member, entry.1.sought? = some member →
      ∀ other ∈ before.firstPresent file.language entry.2.candidates, ∀ now,
        after.file? (Path.moved source target other.path) = some now → asked other member now) :
    Comes source target (Inside moved) before after asked file.language entry later where
  member := hmember
  wildcard := hwildcard
  files := by
    have hfound := hmoves.firstAt?_of_tracks hfile hclean hplanned htracks
    rw [← hplan] at hfound
    refine (hmoves.firstPresent
      (fun _ h => hmoves.sound.exists_file hfile hgo hjava hplanned (List.mem_append_left _ h))
      (fun _ h => exists_file_of_movedPlan hgo hjava hplan (List.mem_append_left _ h)) hfound
      file.language).imp ?_
    rintro other now ⟨hother, hmem, hnow⟩
    exact ⟨hmoves.becomesFile hmem hnow, fun member hsought =>
      hasked member hsought other hother now hnow⟩
  fallback := by
    intro hnone reason hreason
    rw [firstPresent_eq fun _ h => hmoves.sound.exists_file hfile hgo hjava hplanned
      (List.mem_append_left _ h)] at hnone
    have hkept : ¬ before.isRespelled source file entry.1 := by
      intro hrespelled
      simp only [tracks, hplanned, Option.all_some, if_pos hrespelled, Bool.and_eq_true,
        decide_eq_true_eq] at htracks
      rw [htracks.1.1, Option.bind_some, hmoves.found] at hnone
      cases hnone
    rw [hmoves.sound.plan_eq hfile hplanned] at hreason
    rw [hplan, movedPlan, movedImport_eq hkept]
    exact ModulePlan.exists_unresolved hgo hreason _

theorem Moves.sameSubmodule
    (htracks : before.tracksMember environment source target file index) :
    SameSubmodule (Inside moved) before after file.language entry later := by
  intro hinside
  rw [tracksMember, hplanned, Option.all_some, Bool.or_eq_true] at htracks
  have hfiles : ∀ candidate ∈ entry.2.memberCandidates, ∃ path, candidate = .file path :=
    fun _ h => hmoves.sound.exists_file hfile hgo hjava hplanned (List.mem_append_right _ h)
  rcases htracks with hother | htracks
  · obtain ⟨path, hfound, hne⟩ := (Option.any_eq_true _ _).1 hother
    obtain ⟨other, hmem, hpath, rfl⟩ := exists_file_of_firstAt? hfound
    have hbinding : before.submodule? file.language entry.2 = some (.resolved other.node) := by
      rw [submodule?, firstPresent_eq hfiles, hfound, Option.bind_some, hpath]
      rfl
    obtain ⟨id, hid, heq⟩ := hinside _ hbinding
    obtain rfl := Binding.resolved.inj heq
    have hsame := hmoves.eq_of_inside hmem SourceFile.node_mem_nodes hid
    rw [hsame, (file?_mem hmoves.found).2] at hne
    exact absurd rfl (of_decide_eq_true hne)
  · have hrel := hmoves.firstPresent hfiles
      (fun _ h => exists_file_of_movedPlan hgo hjava hplan (List.mem_append_right _ h))
      (hplan ▸ of_decide_eq_true htracks) file.language
    have hhead := rel_head? hrel
    rw [submodule?] at hinside
    rw [submodule?, submodule?]
    rcases rel_cases hhead with ⟨hleft, hright⟩ | ⟨other, now, hleft, hright, -, hmem, hnow⟩
    · rw [hleft, hright]
    · rw [hleft, hright, Option.map_some, Option.map_some]
      rw [hleft, Option.map_some] at hinside
      obtain ⟨id, hid, heq⟩ := hinside _ rfl
      obtain rfl := Binding.resolved.inj heq
      rw [(hmoves.becomesFile hmem hnow).node hid]

end Entry

/-- An import that is read back is exposed as it was. -/
theorem Moves.rel_exposed? {file now : SourceFile} (hfile : file ∈ before.files)
    (hnow : after.file? (Path.moved source target file.path) = some now) {index : Nat}
    (hreads : ReadBack environment before source target file index now.facts) :
    Option.Rel (fun entry later => file.planned? index = some entry ∧
        file.exposed? index = some entry ∧ file.language ≠ .go ∧ file.language ≠ .java ∧
        later.1.member = entry.1.member ∧ later.1.wildcard = entry.1.wildcard ∧
        later.2 = before.movedPlan environment source target file entry.1)
      (file.exposed? index) (now.exposed? index) := by
  have hlanguage := (hmoves.becomesFile hfile hnow).language
  have hrel := hmoves.rel_planned? hfile hnow hreads
  rw [SourceFile.exposed?, SourceFile.exposed?, hlanguage]
  rcases rel_cases hrel with ⟨hleft, hright⟩ |
    ⟨entry, later, hleft, hright, hplanned, hmember, hwildcard, hsame, hplan⟩
  · rw [hleft, hright]
    exact .none
  · rw [hleft, hright]
    cases hexposed : entry.1.isExposed file.language with
    | false =>
      simp only [Option.filter, hexposed, hsame]
      exact .none
    | true =>
      simp only [Option.filter, hexposed, hsame, if_true]
      refine .some ⟨rfl, rfl, ?_, ?_, hmember, hwildcard, hplan⟩
      · intro hgo
        rw [hgo] at hexposed
        cases hexposed
      · intro hjava
        rw [hjava] at hexposed
        cases hexposed

/-! ### The search -/

omit hmoves in
/-- A name is declared in a file if it means a symbol there. -/
theorem declared?_eq_none_iff {file : SourceFile} (hparallel : file.Parallel) {name : String} :
    file.declared? name = none ↔ file.facts.topLevelSymbol? name = none := by
  rw [SourceFile.declared?]
  refine ⟨fun hnone => ?_, fun hnone => by rw [hnone, Option.bind_none]⟩
  by_contra hsome
  obtain ⟨index, hindex⟩ := Option.ne_none_iff_exists'.1 hsome
  rw [hindex, Option.bind_some, SourceFile.symbol?, List.getElem?_eq_none_iff] at hnone
  rw [FileFacts.topLevelSymbol?] at hindex
  split at hindex
  · rename_i found hfound
    obtain rfl := Option.some.inj hindex
    obtain ⟨scope, hscope, hdefinition⟩ := Option.bind_eq_some_iff.1 hfound
    obtain ⟨symbol, hsymbol, -⟩ := (hparallel.formed.scopes _ scope hscope).definition name _
      hdefinition
    have hlt := (List.getElem?_eq_some_iff.1 hsymbol).1
    rw [hparallel.symbols] at hnone
    omega
  · cases hindex

omit hmoves in
theorem Sought.mem {workspace : Workspace} {first file : SourceFile} {start : Nat} {name : String}
    (hsought : Sought workspace first start file name) : file ∈ workspace.files := by
  have hfound : ∀ {language : Language} {candidates : List Candidate},
      file ∈ workspace.firstPresent language candidates → file ∈ workspace.files := by
    intro language candidates hfile
    obtain ⟨_, -, hpresent⟩ := mem_firstPresent hfile
    exact (mem_present hpresent).1
  cases hsought with
  | start _ _ hfile => exact hfound hfile
  | named _ _ _ _ _ hother => exact hfound hother
  | whole _ _ _ _ hother => exact hfound hother

section Meets

variable {first : SourceFile} {start : Nat}

/-- What is asked of a file that a search looks in. -/
def Asked (before after : Workspace) (source target : Path) (first : SourceFile) (start : Nat)
    (file : SourceFile) (name : String) (now : SourceFile) : Prop :=
  Sought before first start file name ∧
    after.file? (Path.moved source target file.path) = some now

/-- A search for a name passes through a file as before: the name is still not declared there, and
the imports that the search may follow are read back and keep track. -/
structure PassesOn (environment : Environment) (before : Workspace) (source target : Path)
    (file : SourceFile) (now : FileFacts) (sought : String) : Prop where
  clean : file.path ≠ source → file.parsed.Clean
  undeclared : now.topLevelSymbol? sought = none
  root : now.rootImport? sought = file.facts.rootImport? sought
  wildcards : now.rootWildcards = file.facts.rootWildcards
  named : ∀ index, file.facts.rootImport? sought = some index →
    ReadBack environment before source target file index now ∧
      ((file.exposed? index).isSome → before.tracks environment source target file index ∧
        before.tracksMember environment source target file index)
  whole : ∀ index ∈ file.facts.rootWildcards,
    ReadBack environment before source target file index now ∧
      ((file.exposed? index).isSome → before.tracks environment source target file index)

theorem Moves.passesOn {file now : SourceFile} {name sought : String}
    (hkeeps : KeepsTrack environment before source target first start)
    (hasked : Asked before after source target first start file name now)
    (hpasses : file.passesOn? name = some sought) :
    PassesOn environment before source target file now.facts sought := by
  obtain ⟨hsought, hnow⟩ := hasked
  have hnamed := fun index => hkeeps.named file name sought index hsought hpasses
  have hwhole := hkeeps.whole file name sought hsought hpasses
  by_cases hpath : file.path = source
  · -- the file that moves reads the same
    obtain rfl : file = moved := by
      have hfile? := hmoves.sound.ordered.file?_self hsought.mem
      rw [hpath, hmoves.found] at hfile?
      exact (Option.some.inj hfile?).symm
    rw [Path.moved, if_pos hpath] at hnow
    rw [(hmoves.same now hnow).1]
    have hback : ∀ index, ReadBack environment before source target file index file.facts := by
      intro index
      rw [ReadBack]
      cases file.facts.imports[index]? with
      | none => exact .none
      | some fact => exact .some ⟨(if_pos hpath).symm, rfl, rfl, rfl⟩
    refine ⟨fun hne => absurd hpath hne, ?_, rfl, rfl, fun index hindex => ⟨hback index, ?_⟩,
      fun index hindex => ⟨hback index, hwhole index hindex⟩⟩
    · exact Option.isNone_iff_eq_none.1 (Option.filter_eq_some_iff.1 hpasses).2
    · exact hnamed index hindex
  · have hreread := hkeeps.onward file name hsought hpath
    obtain ⟨replacements, ⟨-, hreads⟩, hback⟩ := hmoves.exists_read hsought.mem hpath hnow hreread
    have hon := hreads sought hpasses
    exact ⟨fun _ => hreread.clean, hon.undeclared, hon.root, hon.wildcards,
      fun index hindex => ⟨hback index (hon.named index hindex), hnamed index hindex⟩,
      fun index hindex => ⟨hback index (hon.whole index hindex), hwhole index hindex⟩⟩

theorem Moves.opens {file now : SourceFile} {name sought : String}
    (hasked : Asked before after source target first start file name now)
    (hpasses : file.passesOn? name = some sought)
    (hkeeps : PassesOn environment before source target file now.facts sought) :
    Opens source target (Inside moved) before after
      (Asked before after source target first start) file now sought := by
  obtain ⟨hsought, hnow⟩ := hasked
  have hfile := hsought.mem
  refine ⟨hkeeps.root, hkeeps.wildcards, fun index hindex => ?_, fun index hindex => ?_⟩
  · obtain ⟨hreads, htracks⟩ := hkeeps.named index hindex
    rcases rel_cases (hmoves.rel_exposed? hfile hnow hreads) with ⟨hleft, hright⟩ |
      ⟨entry, later, hleft, hright, hplanned, hexposed, hgo, hjava, hmember, hwildcard, hplan⟩
    · rw [hleft, hright]
      exact .none
    · rw [hleft, hright]
      obtain ⟨hmodule, hsubmodule⟩ := htracks (by rw [hexposed]; rfl)
      refine .some ⟨hmoves.comes hfile hgo hjava hplanned hplan hmember hwildcard hkeeps.clean
        hmodule ?_,
        hmoves.sameSubmodule hfile hgo hjava hplanned hplan hsubmodule⟩
      intro member hname other hother next hnext
      exact ⟨.named hsought hpasses hindex hexposed hname hother, hnext⟩
  · obtain ⟨hreads, htracks⟩ := hkeeps.whole index hindex
    rcases rel_cases (hmoves.rel_exposed? hfile hnow hreads) with ⟨hleft, hright⟩ |
      ⟨entry, later, hleft, hright, hplanned, hexposed, hgo, hjava, -, -, hplan⟩
    · rw [hleft, hright]
      exact .none
    · rw [hleft, hright]
      have hfound := hmoves.firstAt?_of_tracks hfile hkeeps.clean hplanned
        (htracks (by rw [hexposed]; rfl))
      rw [← hplan] at hfound
      refine .some ((hmoves.firstPresent
        (fun _ h => hmoves.sound.exists_file hfile hgo hjava hplanned (List.mem_append_left _ h))
        (fun _ h => exists_file_of_movedPlan hgo hjava hplan (List.mem_append_left _ h)) hfound
        file.language).imp ?_)
      rintro other next ⟨hother, -, hnext⟩
      exact ⟨.whole hsought hpasses hindex hexposed hother, hnext⟩

/-- What a search meets in a file that keeps track is what it met there before. -/
theorem Moves.meets {file now : SourceFile} {name : String}
    (hkeeps : KeepsTrack environment before source target first start)
    (hasked : Asked before after source target first start file name now) :
    Meets source target (Inside moved) before after (Asked before after source target first start)
      file name now := by
  have hpassesOnward : ∀ sought, file.passesOn? name = some sought →
      PassesOn environment before source target file now.facts sought :=
    fun sought => hmoves.passesOn hkeeps hasked
  obtain ⟨hsought, hnow⟩ := hasked
  have hfile := hsought.mem
  have hbecomes := hmoves.becomesFile hfile hnow
  have hdefault : name = "default" → now.facts.defaultExport = file.facts.defaultExport := by
    by_cases hpath : file.path = source
    · intro _
      have hfile? := hmoves.sound.ordered.file?_self hfile
      rw [hpath, hmoves.found] at hfile?
      rw [Path.moved, if_pos hpath] at hnow
      rw [(hmoves.same now hnow).1, Option.some.inj hfile?]
    · obtain ⟨_, ⟨hdefault, -⟩, -⟩ :=
        hmoves.exists_read hfile hpath hnow (hkeeps.onward file name hsought hpath)
      exact hdefault
  have hparallel := hmoves.sound.parallel file hfile
  have hpassesOn : ∀ sought, soughtName? file name = some sought → file.declared? sought = none →
      file.passesOn? name = some sought := by
    intro sought hname hnone
    rw [SourceFile.passesOn?, hname]
    simp [Option.filter, (declared?_eq_none_iff hparallel).1 hnone]
  refine ⟨hbecomes, ?_, fun sought hname hinside => ?_, fun sought hname hnone => ?_⟩
  · rw [soughtName?, soughtName?]
    split
    · rename_i heq
      exact hdefault heq
    · rfl
  · cases hdeclared : file.declared? sought with
    | none =>
      have hlast := hpassesOnward sought (hpassesOn sought hname hdeclared)
      rw [SourceFile.declared?, hlast.undeclared, Option.bind_none]
    | some id =>
      have hid : id ∈ file.symbols := by
        obtain ⟨index, -, hsymbol⟩ := Option.bind_eq_some_iff.1 hdeclared
        exact List.mem_of_getElem? hsymbol
      obtain rfl := hmoves.eq_of_inside hfile (SourceFile.mem_nodes_of_symbol hid)
        (hinside id hdeclared)
      rw [Path.moved, if_pos (file?_mem hmoves.found).2] at hnow
      obtain ⟨hfactsSame, hsymbols⟩ := hmoves.same now hnow
      have hsame : now.symbol? = file.symbol? := by
        funext index
        rw [SourceFile.symbol?, hsymbols, SourceFile.symbol?]
      rw [← hdeclared, SourceFile.declared?, SourceFile.declared?, hfactsSame, hsame]
  · exact hmoves.opens ⟨hsought, hnow⟩ (hpassesOn sought hname hnone)
      (hpassesOnward sought (hpassesOn sought hname hnone))

/-- **An import that keeps track of a file that moves comes to the same node of it.** -/
theorem Moves.resolveImport {file now : SourceFile} (hfile : file ∈ before.files)
    (hpath : file.path ≠ source)
    (hnow : after.file? (Path.moved source target file.path) = some now)
    (hgo : file.language ≠ .go) (hjava : file.language ≠ .java) {index : Nat} {fact : ImportFact}
    {plan : ModulePlan} (hplanned : file.planned? index = some (fact, plan))
    (hkeeps : KeepsTrack environment before source target file index) {id : NodeId}
    (hinside : Inside moved id)
    (hresolve : before.resolveImport file.language fact plan = .resolved id) :
    ∃ later next, now.planned? index = some (later, next) ∧
      after.resolveImport now.language later next = .resolved id := by
  obtain ⟨replacements, hreturns, hback⟩ :=
    hmoves.exists_read hfile hpath hnow hkeeps.reread
  have hreads := hback index hreturns
  have hlanguage := (hmoves.becomesFile hfile hnow).language
  rcases rel_cases (hmoves.rel_planned? hfile hnow hreads) with ⟨hleft, -⟩ |
    ⟨entry, ⟨later, next⟩, hleft, hright, -, hmember, hwildcard, -, hplan⟩
  · rw [hplanned] at hleft
    cases hleft
  · obtain rfl := Option.some.inj (hplanned.symm.trans hleft)
    refine ⟨later, next, hright, ?_⟩
    rw [hlanguage]
    refine resolveImport_along hmoves.length
      (fun _ _ _ (hasked : Asked before after source target file index _ _ _) =>
        hmoves.meets hkeeps hasked)
      (hmoves.comes hfile hgo hjava hplanned hplan hmember hwildcard
        (fun _ => hkeeps.reread.clean) hkeeps.tracks ?_)
      (fun hnone => hmoves.sameSubmodule hfile hgo hjava hplanned hplan (hkeeps.member ?_)) hinside
      hresolve
    · intro member hname other hother next hnext
      exact ⟨.start hplanned hname hother, hnext⟩
    · intro fact' plan' member hplanned' hname
      obtain ⟨rfl, rfl⟩ := Prod.mk.inj (Option.some.inj (hplanned.symm.trans hplanned'))
      exact hnone member hname

end Meets

end Moves

/-! ### Imports of what the file declares -/

section Declared

variable {environment : Environment} {workspace : Workspace} {source target : Path}
  {moved : SourceFile}

/-- At a path of the same grammar a file reads the same. -/
theorem factsAt?_eq_of_grammar (hsound : workspace.Sound environment)
    (hmoved : workspace.file? source = some moved)
    (hlanguage : Language.ofPath target = moved.language)
    (hgrammar : moved.language.grammar? target = moved.language.grammar? moved.path) :
    moved.factsAt? environment target = some moved.facts := by
  obtain ⟨hmem, rfl⟩ := file?_mem hmoved
  obtain ⟨-, hcurrent⟩ := hsound.drawn moved hmem not_false
  have hparsed := hcurrent.parsed
  rw [← hcurrent.language_eq] at hparsed
  obtain ⟨grammar, hfound, hparsed⟩ := Parsed.exists_grammar_of_parse hparsed
  rw [SourceFile.factsAt?, hlanguage, Parsed.parse, hgrammar, hfound, hcurrent.facts, hparsed]
  rfl

/-- The search for a member that a file declares ends there. -/
theorem lookupMember_ne_none {sought : String} {id : NodeId} {name : String}
    (hname : soughtName? moved name = some sought) (hdeclared : moved.declared? sought = some id) :
    workspace.lookupMember [moved] name ≠ none := by
  rw [SourceFile.declared?] at hdeclared
  simp [lookupMember, searchMember, searchWithin, firstFound, searchFile, hname, hdeclared]

variable {first : SourceFile} {start : Nat} {fact : ImportFact} {plan : ModulePlan}
  (hplanned : first.planned? start = some (fact, plan))

include hplanned

/-- The search for a name that the file declares looks nowhere else. -/
theorem Sought.eq_of_declared
    (hfound : workspace.firstPresent first.language plan.candidates = [moved])
    (hdeclared : ∀ name, fact.sought? = some name → moved.passesOn? name = none)
    {file : SourceFile} {name : String} (hsought : Sought workspace first start file name) :
    file = moved ∧ moved.passesOn? name = none := by
  induction hsought with
  | start hplanned' hname hfile =>
    obtain ⟨rfl, rfl⟩ := Prod.mk.inj (Option.some.inj (hplanned.symm.trans hplanned'))
    rw [hfound, List.mem_singleton] at hfile
    exact ⟨hfile, hdeclared _ hname⟩
  | named _ hpasses _ _ _ _ ih | whole _ hpasses _ _ _ ih =>
    obtain ⟨rfl, hnone⟩ := ih
    rw [hnone] at hpasses
    cases hpasses

/-- **An import of a name that the file declares keeps track of it** if it is found again and finds
the file. -/
theorem keepsTrack_of_declared (hsound : workspace.Sound environment)
    (hmoved : workspace.file? source = some moved)
    (hfirst : first ∈ workspace.files) (hgo : first.language ≠ .go) (hjava : first.language ≠ .java)
    (hpoints : Candidate.firstAt? workspace.contains plan.candidates = some source)
    {name sought : String} {id : NodeId} (hname : fact.sought? = some name)
    (hsought : soughtName? moved name = some sought) (hdeclared : moved.declared? sought = some id)
    (hreread : workspace.Reread environment source target first
      (workspace.ReturnsAt environment source target first start))
    (htracks : workspace.tracks environment source target first start) :
    KeepsTrack environment workspace source target first start := by
  have hfound : workspace.firstPresent first.language plan.candidates = [moved] := by
    rw [firstPresent_eq fun _ h => hsound.exists_file hfirst hgo hjava hplanned
      (List.mem_append_left _ h), hpoints, Option.bind_some, hmoved]
    rfl
  have hends : ∀ other, fact.sought? = some other → moved.passesOn? other = none := by
    intro other hother
    obtain rfl := Option.some.inj (hname.symm.trans hother)
    obtain ⟨index, hindex, -⟩ := Option.bind_eq_some_iff.1 hdeclared
    rw [SourceFile.passesOn?, hsought]
    simp [Option.filter, hindex]
  have hpassesOn : ∀ {other name}, Sought workspace first start other name →
      other.path = source ∧ other.passesOn? name = none := by
    intro other name hother
    obtain ⟨rfl, hnone⟩ := hother.eq_of_declared hplanned hfound hends
    exact ⟨(file?_mem hmoved).2, hnone⟩
  refine ⟨hreread, htracks, fun hnone => ?_, fun other name hother hpath => ?_,
    fun other name sought _ hother hpasses => ?_, fun other name sought hother hpasses => ?_⟩
  · have hlookup := hnone fact plan name hplanned hname
    rw [hfound] at hlookup
    exact absurd hlookup (lookupMember_ne_none hsought hdeclared)
  · exact absurd (hpassesOn hother).1 hpath
  · cases (hpassesOn hother).2.symm.trans hpasses
  · cases (hpassesOn hother).2.symm.trans hpasses

end Declared

end Workspace

end CodeGraph
