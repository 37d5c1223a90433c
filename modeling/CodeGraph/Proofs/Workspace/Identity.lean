import CodeGraph.Proofs.Facts.Pairing
import CodeGraph.Proofs.Workspace.History
import CodeGraph.Transaction.Apply

/-!
# Files keep their nodes

When a file is brought up to date it keeps its node, and every symbol that had a counterpart of the
same kind and qualified name, in order of appearance, keeps the node of that counterpart. A pass does
this at most once to each file, so it holds between the beginning and the end of a pass as well.
-/

namespace CodeGraph

namespace SourceFile

/-- The nodes of the symbols of a kind with a qualified name, in order of appearance. -/
def nodesOf (file : SourceFile) (kind : NodeKind) (qualifiedName : String) : List NodeId :=
  ((file.facts.symbols.zip file.symbols).filter fun entry =>
    entry.1.key = (kind, qualifiedName)).map Prod.snd

/-- A file that is the same as before: it has its node, and its symbols have theirs. -/
structure Retains (old new : SourceFile) : Prop where
  node : new.node = old.node
  symbol : ∀ kind qualifiedName (rank : Nat) first second,
    (old.nodesOf kind qualifiedName)[rank]? = some first →
    (new.nodesOf kind qualifiedName)[rank]? = some second → second = first

theorem Retains.refl (file : SourceFile) : file.Retains file :=
  ⟨rfl, fun _ _ _ _ _ hfirst hsecond => Option.some.inj (hsecond.symm.trans hfirst)⟩

/-- A file that was only moved retains what it did before. -/
theorem SameContent.retains {old moved new : SourceFile} (hsame : moved.SameContent old)
    (hretains : moved.Retains new) : old.Retains new := by
  refine ⟨hretains.node.trans hsame.node, fun kind qualifiedName rank first second hfirst => ?_⟩
  refine hretains.symbol kind qualifiedName rank first second ?_
  rwa [nodesOf, hsame.facts, hsame.symbols]

theorem map_fst_take_zip {file : SourceFile} {index : Nat} {fact : SymbolFact} {id : NodeId}
    (hfact : file.facts.symbols[index]? = some fact) (hid : file.symbols[index]? = some id) :
    ((file.facts.symbols.zip file.symbols).take index).map Prod.fst =
      file.facts.symbols.take index := by
  have hlt := (List.getElem?_eq_some_iff.1 hfact).1
  have hlt' := (List.getElem?_eq_some_iff.1 hid).1
  rw [List.zip, List.take_zipWith, ← List.zip, List.map_fst_zip]
  simp only [List.length_take]
  omega

theorem getElem?_nodesOf {file : SourceFile} {kind : NodeKind} {qualifiedName : String} {rank : Nat}
    {id : NodeId} (hid : (file.nodesOf kind qualifiedName)[rank]? = some id) :
    ∃ (index : Nat) (fact : SymbolFact), file.facts.symbols[index]? = some fact ∧
      file.symbols[index]? = some id ∧ fact.key = (kind, qualifiedName) ∧
      (file.facts.symbols.take index).countP (fun other => other.key = (kind, qualifiedName)) =
        rank := by
  rw [nodesOf, List.getElem?_map, Option.map_eq_some_iff] at hid
  obtain ⟨⟨fact, found⟩, hentry, rfl⟩ := hid
  obtain ⟨index, hindex, hwanted, hcount⟩ := getElem?_filter_iff.1 hentry
  obtain ⟨hfact, hfound⟩ := List.getElem?_zip_eq_some.1 hindex
  refine ⟨index, fact, hfact, hfound, of_decide_eq_true hwanted, ?_⟩
  rw [← map_fst_take_zip hfact hfound, List.countP_map]
  exact hcount

/-- A symbol is found again by its kind, its qualified name and its place among those with both. -/
theorem getElem?_nodesOf_of_symbol {file : SourceFile} {index : Nat} {fact : SymbolFact}
    {id : NodeId} (hfact : file.facts.symbols[index]? = some fact)
    (hid : file.symbols[index]? = some id) :
    (file.nodesOf fact.kind fact.qualifiedName)[(file.facts.symbols.take index).countP fun other =>
      other.key = fact.key]? = some id := by
  rw [nodesOf, List.getElem?_map, Option.map_eq_some_iff]
  refine ⟨(fact, id), getElem?_filter_iff.2 ⟨index, ?_, decide_eq_true rfl, ?_⟩, rfl⟩
  · exact List.getElem?_zip_eq_some.2 ⟨hfact, hid⟩
  · rw [← map_fst_take_zip hfact hid, List.countP_map]
    rfl

/-- A file whose symbols are called the same has the same nodes. -/
theorem Retains.symbols_eq {old new : SourceFile} (hretains : old.Retains new)
    (hold : old.symbols.length = old.facts.symbols.length)
    (hnew : new.symbols.length = new.facts.symbols.length)
    (hkeys : new.facts.symbols.map SymbolFact.key = old.facts.symbols.map SymbolFact.key) :
    new.symbols = old.symbols := by
  have hlength : new.facts.symbols.length = old.facts.symbols.length := by
    simpa using congrArg List.length hkeys
  refine List.ext_getElem (by rw [hnew, hold, hlength]) fun index hindex hindex' => ?_
  have hlt : index < old.facts.symbols.length := hold ▸ hindex'
  have hlt' : index < new.facts.symbols.length := hlength ▸ hlt
  have hkey : new.facts.symbols[index].key = old.facts.symbols[index].key := by
    have hat := congrArg (·[index]?) hkeys
    simpa [hlt, hlt'] using hat
  have hrank : (new.facts.symbols.take index).countP
        (fun other => other.key = new.facts.symbols[index].key) =
      (old.facts.symbols.take index).countP fun other => other.key = old.facts.symbols[index].key := by
    rw [hkey]
    calc (new.facts.symbols.take index).countP (fun other => other.key = old.facts.symbols[index].key)
        = ((new.facts.symbols.map SymbolFact.key).take index).countP
            (· = old.facts.symbols[index].key) := by rw [← List.map_take, List.countP_map]; rfl
      _ = ((old.facts.symbols.map SymbolFact.key).take index).countP
            (· = old.facts.symbols[index].key) := by rw [hkeys]
      _ = _ := by rw [← List.map_take, List.countP_map]; rfl
  have hfirst := getElem?_nodesOf_of_symbol (List.getElem?_eq_getElem hlt)
    (List.getElem?_eq_getElem hindex')
  have hsecond := getElem?_nodesOf_of_symbol (List.getElem?_eq_getElem hlt')
    (List.getElem?_eq_getElem hindex)
  obtain ⟨hkind, hname⟩ := Prod.mk.inj hkey
  rw [hrank, hkind, hname] at hsecond
  exact hretains.symbol _ _ _ _ _ hfirst hsecond

end SourceFile

namespace Pass

/-! ### One file -/

/-- A symbol that keeps a node is listed with it. -/
theorem exists_id_of_syncSymbol {path : Path} {language : Language} {file : NodeId} {graph : Graph}
    {ids : List NodeId} {entry : SymbolFact × Option NodeId} {state : Graph × List NodeId}
    (hsync : syncSymbol path language file (graph, ids) entry = .ok state) :
    ∃ id, state.2 = ids ++ [id] ∧ ∀ kept, entry.2 = some kept → id = kept := by
  obtain ⟨symbol, kept⟩ := entry
  cases kept with
  | some id =>
    obtain ⟨updated, -, hrest⟩ := exists_of_bind_eq_ok hsync
    obtain ⟨placed, -, hstate⟩ := exists_of_bind_eq_ok hrest
    obtain rfl := Except.ok.inj hstate
    exact ⟨id, rfl, fun _ hkept => Option.some.inj hkept⟩
  | none =>
    obtain ⟨⟨id, inserted⟩, -, hrest⟩ := exists_of_bind_eq_ok hsync
    obtain ⟨defined, -, hrest⟩ := exists_of_bind_eq_ok hrest
    obtain ⟨placed, -, hstate⟩ := exists_of_bind_eq_ok hrest
    obtain rfl := Except.ok.inj hstate
    exact ⟨id, rfl, fun _ hkept => by cases hkept⟩

theorem exists_ids_of_foldlM {path : Path} {language : Language} {file : NodeId}
    {entries : List (SymbolFact × Option NodeId)} {start state : Graph × List NodeId}
    (hloop : entries.foldlM (syncSymbol path language file) start = .ok state) :
    ∃ ids, state.2 = start.2 ++ ids ∧ ∀ (index : Nat) fact id,
      entries[index]? = some (fact, some id) → ids[index]? = some id := by
  induction entries generalizing start with
  | nil => exact ⟨[], by simp [Except.ok.inj hloop], by simp⟩
  | cons entry entries ih =>
    rw [List.foldlM_cons] at hloop
    obtain ⟨next, hnext, hrest⟩ := exists_of_bind_eq_ok hloop
    obtain ⟨id, hid, hkept⟩ := exists_id_of_syncSymbol hnext
    obtain ⟨ids, hids, hlisted⟩ := ih hrest
    refine ⟨id :: ids, by rw [hids, hid, List.append_assoc, List.singleton_append], ?_⟩
    intro index fact found hentry
    cases index with
    | zero =>
      obtain rfl := Option.some.inj hentry
      exact congrArg some (hkept found rfl)
    | succ index => exact hlisted index fact found hentry

/-- A symbol that is paired with an old one gets its node. -/
theorem getElem?_of_syncSymbols {graph after : Graph} {path : Path} {language : Language}
    {file : NodeId} {oldFacts facts : List SymbolFact} {oldIds ids : List NodeId}
    (hsync : syncSymbols graph path language file oldFacts oldIds facts = .ok (after, ids))
    {index old : Nat} {id : NodeId}
    (hpartner : (SymbolFact.pair oldFacts facts).partner? index = some old)
    (hid : oldIds[old]? = some id) : ids[index]? = some id := by
  obtain ⟨⟨middle, found⟩, hloop, hrest⟩ := exists_of_bind_eq_ok hsync
  obtain ⟨last, -, hstate⟩ := exists_of_bind_eq_ok hrest
  obtain ⟨-, rfl⟩ := Prod.mk.inj (Except.ok.inj hstate)
  obtain ⟨ids, hids, hlisted⟩ := exists_ids_of_foldlM hloop
  obtain ⟨_, fact, -, hfact, -⟩ := (SymbolFact.sound_pair oldFacts facts).fits index old hpartner
  rw [show found = ids from hids]
  exact hlisted index fact id (List.getElem?_zip_eq_some.2
    ⟨hfact, Matching.getElem?_carried.2 ⟨old, hpartner, hid⟩⟩)

/-- **A file that is brought up to date retains its nodes.** -/
theorem Installed.retains {environment : Environment} {before after : Pass} {path : Path}
    {parsed : Parsed} {edits : List TextEdit} {file old : SourceFile}
    (hinstalled : Installed environment before path parsed edits file after)
    (hold : before.workspace.file? path = some old) : old.Retains file := by
  have hsynced := hinstalled.synced
  rw [hold] at hsynced
  obtain ⟨⟨node, begun⟩, hnode, hrest⟩ := exists_of_bind_eq_ok hsynced
  obtain ⟨⟨defined, symbols⟩, hsymbols, hrest⟩ := exists_of_bind_eq_ok hrest
  obtain ⟨⟨imported, imports⟩, -, hrest⟩ := exists_of_bind_eq_ok hrest
  obtain ⟨last, -, hstate⟩ := exists_of_bind_eq_ok hrest
  obtain ⟨-, hlists⟩ := Prod.mk.inj (Except.ok.inj hstate)
  obtain ⟨hkept, hlists⟩ := Prod.mk.inj hlists
  obtain ⟨rfl, -⟩ := Prod.mk.inj hlists
  refine ⟨hkept ▸ ((Prod.mk.inj (Except.ok.inj hnode)).1).symm, ?_⟩
  intro kind qualifiedName rank first second hfirst hsecond
  obtain ⟨oldIndex, before, hbefore, hfirstId, hkeyOld, hrankOld⟩ :=
    SourceFile.getElem?_nodesOf hfirst
  obtain ⟨index, after, hafter, hsecondId, hkeyNew, hrankNew⟩ :=
    SourceFile.getElem?_nodesOf hsecond
  rw [hinstalled.facts_eq] at hafter hrankNew
  have hranked : Matching.Ranked SymbolFact.key old.facts.symbols parsed.facts.symbols index
      oldIndex := ⟨before, after, hbefore, hafter, hkeyOld.trans hkeyNew.symm, by
    rw [hkeyNew, hrankOld, hrankNew]⟩
  have hsame := getElem?_of_syncSymbols hsymbols (SymbolFact.partner?_pair_of_ranked hranked)
    hfirstId
  exact Option.some.inj (hsecondId.symm.trans hsame)

/-! ### Steps -/

/-- How a pass keeps the files, where those at some paths are brought up to date: each is still there,
retains its nodes, and is the same unless it is one of them. -/
structure Retains (touched : Path → Prop) (before after : Pass) : Prop where
  ordered : Workspace.Ordered after.workspace.files
  retained : ∀ old ∈ before.workspace.files, ∃ new ∈ after.workspace.files,
    new.path = old.path ∧ old.Retains new ∧ (¬ touched old.path → new = old)

variable {environment : Environment} {pass next : Pass}

theorem Retains.refl (hordered : Workspace.Ordered pass.workspace.files) (touched : Path → Prop) :
    pass.Retains touched pass :=
  ⟨hordered, fun old hold => ⟨old, hold, rfl, .refl old, fun _ => rfl⟩⟩

theorem Retains.mono {touched more : Path → Prop} (hretained : pass.Retains touched next)
    (hmore : ∀ path, touched path → more path) : pass.Retains more next := by
  refine ⟨hretained.ordered, fun old hold => ?_⟩
  obtain ⟨new, hnew, hpath, hretains, hsame⟩ := hretained.retained old hold
  exact ⟨new, hnew, hpath, hretains, fun hnot => hsame fun htouched => hnot (hmore _ htouched)⟩

/-- Passes that touch different files keep them all. -/
theorem Retains.trans {first second : Path → Prop} {middle last : Pass}
    (hfirst : pass.Retains first middle) (hsecond : middle.Retains second last)
    (hapart : ∀ path, first path → ¬ second path) :
    pass.Retains (fun path => first path ∨ second path) last := by
  refine ⟨hsecond.ordered, fun old hold => ?_⟩
  obtain ⟨new, hnew, hpath, hretains, hsame⟩ := hfirst.retained old hold
  obtain ⟨later, hlater, hpath', hretains', hsame'⟩ := hsecond.retained new hnew
  refine ⟨later, hlater, hpath'.trans hpath, ?_, fun hnot => ?_⟩
  · by_cases htouched : first old.path
    · exact hsame' (hpath ▸ hapart _ htouched) ▸ hretains
    · exact hsame htouched ▸ hretains'
  · rw [hsame' fun h => hnot (.inr (hpath ▸ h)), hsame fun h => hnot (.inl h)]

theorem retains_applyText {path : Path} {text : String} {edits : List TextEdit}
    (hordered : Workspace.Ordered pass.workspace.files) (hnormal : path.IsNormal)
    (happly : applyText environment pass path text edits = .ok next) :
    pass.Retains (· = path) next := by
  obtain ⟨parsed, file, -, hinstalled⟩ := exists_installed_of_applyText happly
  refine ⟨hinstalled.ordered hordered hnormal, fun old hold => ?_⟩
  by_cases hpath : old.path = path
  · refine ⟨file, (hinstalled.mem_files file).2 (.inl rfl), hinstalled.path_eq.trans hpath.symm, ?_,
      fun hnot => absurd hpath hnot⟩
    exact hinstalled.retains (hordered.file?_iff.2 ⟨hold, hpath⟩)
  · exact ⟨old, (hinstalled.mem_files old).2 (.inr ⟨hold, hpath⟩), rfl, .refl old, fun _ => rfl⟩

theorem retains_respell {entry : Path × List Replacement}
    (hordered : Workspace.Ordered pass.workspace.files)
    (hrespell : respell environment pass entry = .ok next) : pass.Retains (· = entry.1) next := by
  obtain rfl | ⟨file, applied, hfile, happly, rfl⟩ := respell_cases hrespell
  · exact .refl hordered _
  · obtain ⟨hmem, hpath⟩ := Workspace.file?_mem hfile
    have hretained := retains_applyText hordered (hpath ▸ hordered.normal file hmem) happly
    exact ⟨hretained.ordered, hretained.retained⟩

/-- Importers are respelled once each. -/
theorem retains_respellAll {entries : List (Path × List Replacement)}
    (hordered : Workspace.Ordered pass.workspace.files) (hnodup : (entries.map Prod.fst).Nodup)
    (hloop : entries.foldlM (respell environment) pass = .ok next) :
    pass.Retains (· ∈ entries.map Prod.fst) next := by
  induction entries generalizing pass with
  | nil => exact Except.ok.inj hloop ▸ .refl hordered _
  | cons entry entries ih =>
    rw [List.map_cons, List.nodup_cons] at hnodup
    rw [List.foldlM_cons] at hloop
    obtain ⟨middle, hrespell, hrest⟩ := exists_of_bind_eq_ok hloop
    have hfirst := retains_respell hordered hrespell
    refine (hfirst.trans (ih hfirst.ordered hnodup.2 hrest) ?_).mono fun path htouched => ?_
    · rintro path rfl
      exact hnodup.1
    · rwa [List.map_cons, List.mem_cons]

/-- The other files stay where they are when one moves to a path that is free. -/
theorem retains_relocate {file : SourceFile} {target : Path}
    (hordered : Workspace.Ordered pass.workspace.files) (hnormal : target.IsNormal)
    (hfree : pass.workspace.file? target = none)
    (hrelocate : pass.relocate file target = .ok next) :
    Workspace.Ordered next.workspace.files ∧ ∀ old ∈ pass.workspace.files,
      (old.path ≠ file.path → old ∈ next.workspace.files) ∧
      (old = file →
        ∃ moved ∈ next.workspace.files, moved.path = target ∧ moved.SameContent old) := by
  rw [relocate] at hrelocate
  obtain ⟨graph, -, hnext⟩ := exists_of_bind_eq_ok hrelocate
  obtain rfl := Except.ok.inj hnext
  refine ⟨(hordered.drop file.path).put hnormal, fun old hold => ⟨fun hne => ?_, ?_⟩⟩
  · refine Workspace.mem_putFile.2 (.inr ⟨Workspace.mem_dropFile.2 ⟨hold, hne⟩, ?_⟩)
    exact Workspace.file?_eq_none_iff.1 hfree old hold
  · rintro rfl
    exact ⟨_, Workspace.mem_putFile.2 (.inl rfl), rfl, ⟨rfl, rfl, rfl, rfl, rfl, rfl⟩⟩

/-- A file that moves retains its nodes, and so do all others. -/
theorem retains_rename {source target : Path} (hsound : pass.workspace.Sound environment)
    (hnormal : target.IsNormal) (hfree : pass.workspace.file? target = none)
    (hrename : pass.rename environment source target = .ok next) :
    Workspace.Ordered next.workspace.files ∧ ∀ old ∈ pass.workspace.files,
      ∃ new ∈ next.workspace.files,
        new.path = (if old.path = source then target else old.path) ∧ old.Retains new := by
  obtain ⟨file, moved, applied, hfile, hrelocate, happly, hloop⟩ := rename_cases hrename
  obtain ⟨hmem, rfl⟩ := Workspace.file?_mem hfile
  obtain ⟨horderedMoved, hmoved⟩ := retains_relocate hsound.ordered hnormal hfree hrelocate
  have happlied := retains_applyText horderedMoved hnormal happly
  have hrespelled := (fun hordered => retains_respellAll hordered
    (hsound.affectedImporters_nodup environment.config file.path target) hloop) happlied.ordered
  have htarget : target ∉ (pass.workspace.affectedImporters environment.config file.path
      target).map Prod.fst := by
    intro hmem
    obtain ⟨entry, hentry, hpath⟩ := List.mem_map.1 hmem
    obtain ⟨importer, -, himporter, -⟩ := Workspace.mem_affectedImporters.1 hentry
    rw [hpath, hfree] at himporter
    cases himporter
  have hkept : moved.Retains _ next := happlied.trans ⟨hrespelled.ordered, hrespelled.retained⟩
    (by rintro path rfl; exact htarget)
  refine ⟨hkept.ordered, fun old hold => ?_⟩
  split
  · rename_i hsource
    obtain rfl := hsound.ordered.eq_of_path hold hmem hsource
    obtain ⟨middle, hmiddle, hpath, hsame⟩ := (hmoved old hold).2 rfl
    obtain ⟨new, hnew, hpath', hretains, -⟩ := hkept.retained middle hmiddle
    exact ⟨new, hnew, hpath'.trans hpath, hsame.retains hretains⟩
  · rename_i hne
    obtain ⟨new, hnew, hpath, hretains, -⟩ := hkept.retained old ((hmoved old hold).1 hne)
    exact ⟨new, hnew, hpath, hretains⟩

end Pass

end CodeGraph
