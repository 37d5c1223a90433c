import CodeGraph.Proofs.Workspace.Imports

/-!
# Bringing all nodes of a file up to date

The file's own node, its symbols and its imports, one after the other.
-/

namespace CodeGraph

namespace Pass

/-- The graph when the nodes of a file are up to date: what they show, which edges they have, and
what became of everything else. The nodes that went are the old ones that are not among the new. -/
structure Synced (start : Graph) (path : Path) (parsed : Parsed) (facts : FileFacts)
    (old oldSymbols oldImports : List NodeId) (after : Graph) (node : NodeId)
    (symbols imports : List NodeId) : Prop
    extends Replaced start old (node :: (symbols ++ imports)) after where
  symbolCount : symbols.length = facts.symbols.length
  importCount : imports.length = facts.imports.length
  oldNode : ∀ id ∈ old, id ∉ oldSymbols → id ∉ oldImports → id = node
  oldSymbol : ∀ id ∈ symbols, id ∈ old → id ∈ oldSymbols
  oldImport : ∀ id ∈ imports, id ∈ old → id ∈ oldImports
  own : after.node? node = some { Node.ofFile path parsed facts symbols imports with id := node }
  symbol : ∀ (index : Nat) id fact, symbols[index]? = some id → facts.symbols[index]? = some fact →
    after.node? id = some { Node.ofSymbol path parsed.language
      (fact.parent.bind (symbols[·]?)) fact with id }
  imported : ∀ (index : Nat) id fact, imports[index]? = some id →
    facts.imports[index]? = some fact → ∃ binding,
      Keeps (fun other => other ∈ old ∧ other ∉ node :: (symbols ++ imports)) start id binding ∧
      after.node? id =
        some (({ Node.ofImport path parsed.language fact with id } : Node).rebind binding)
  hasEdge : ∀ key, after.hasEdge key ↔ (∃ id ∈ symbols, key = ⟨node, id, .defines⟩) ∨
    (∃ parent child, Nests facts.symbols symbols parent child ∧
      key = ⟨parent, child, .contains⟩) ∨
    (∃ id ∈ imports, key = ⟨node, id, .imports⟩) ∨
    (start.hasEdge key ∧ ¬ (key.kind = .contains ∧ key.target ∈ symbols) ∧
      ¬ (key.source ∈ old ∧ key.source ∉ node :: (symbols ++ imports)) ∧
      ¬ (key.target ∈ old ∧ key.target ∉ node :: (symbols ++ imports)))

section Members

variable {start : Graph} {path : Path} {parsed : Parsed} {facts : FileFacts} {node : NodeId}
  {oldFacts : List SymbolFact} {oldSymbols oldImports : List NodeId} {olds : List ImportFact}

/-- An import that was there before the symbols were brought up to date is there after it. -/
theorem OldImports.after {middle : Graph} {symbols : List NodeId} {newFacts : List SymbolFact}
    (himports : OldImports start node oldImports) (hsound : start.Sound)
    (hapart : node ∉ oldSymbols) (hdisjoint : ∀ id ∈ oldSymbols, id ∉ oldImports)
    (hreplaced : Replaced start oldSymbols symbols middle)
    (hedge : ∀ key, middle.hasEdge key ↔ (∃ id ∈ symbols, key = ⟨node, id, .defines⟩) ∨
      (∃ parent child, Nests newFacts symbols parent child ∧ key = ⟨parent, child, .contains⟩) ∨
      (start.hasEdge key ∧ ¬ (key.kind = .contains ∧ key.target ∈ symbols) ∧
        ¬ (key.source ∈ oldSymbols ∧ key.source ∉ symbols) ∧
        ¬ (key.target ∈ oldSymbols ∧ key.target ∉ symbols))) :
    OldImports middle node oldImports := by
  have hnotNew : ∀ id ∈ oldImports, id ∉ oldSymbols ∧ id ∉ symbols := by
    intro id hid
    have hnotOld : id ∉ oldSymbols := fun h => hdisjoint id h hid
    refine ⟨hnotOld, fun h => ?_⟩
    obtain ⟨before, detail, hbefore, -⟩ := himports.shown id hid
    exact absurd (hsound.lt_nextId hbefore)
      (Nat.not_lt_of_le ((hreplaced.fresh id h).resolve_left hnotOld))
  refine ⟨himports.nodup, himports.apart, ?_, ?_, ?_⟩
  · intro id hid
    obtain ⟨before, detail, hbefore, hkind, hdetail⟩ := himports.shown id hid
    obtain ⟨now, hnow, hsurvives⟩ :=
      hreplaced.kept id before (hnotNew id hid).1 (hnotNew id hid).2 hbefore
    obtain ⟨detail', hdetail'⟩ := hsurvives.exists_detail hdetail
    exact ⟨now, detail', hnow, hsurvives.kind_eq.trans hkind, hdetail'⟩
  · intro id hid
    exact (hedge _).2 (.inr (.inr ⟨himports.listed id hid, fun h => (nomatch h.1),
      fun h => hapart h.1, fun h => (hnotNew id hid).1 h.1⟩))
  · intro id hid child hchild
    rcases (hedge _).1 hchild with ⟨_, _, hkey⟩ | ⟨parent, _, hnests, hkey⟩ | ⟨hstart, -⟩
    · cases hkey
    · cases hkey
      obtain ⟨_, _, _, _, _, hin, _⟩ := hnests
      exact (hnotNew id hid).2 (List.mem_of_getElem? hin)
    · exact himports.leaf id hid child hstart

/-- Bindings that were kept in two stages. -/
theorem Keeps.before {first : Graph} {id : NodeId} {binding : Binding} {gone more all : NodeId → Prop}
    (hkeeps : Keeps more first id binding) (hgone : ∀ other, gone other → all other)
    (hmore : ∀ other, more other → all other)
    (hsome : ∀ now, first.node? id = some now →
      ∃ before, start.node? id = some before ∧ before.Survives gone now)
    (hnone : first.node? id = none → start.node? id = none) : Keeps all start id binding := by
  rcases hkeeps with ⟨now, hnow, hbinding⟩ | ⟨reason, rfl, hdead | ⟨now, target, hnow, hbinding,
    htarget⟩⟩
  · obtain ⟨before, hbefore, hsurvives⟩ := hsome now hnow
    rcases hsurvives with ⟨keep, -, rfl⟩ | ⟨target, reason, htarget, hresolved, rfl⟩
    · exact .inl ⟨before, hbefore, (Node.binding?_relist before keep).symm.trans hbinding⟩
    · rw [Node.binding?_rebind, hresolved] at hbinding
      obtain rfl := Option.some.inj hbinding
      exact .inr ⟨reason, rfl, .inr ⟨before, target, hbefore, hresolved, hgone target htarget⟩⟩
  · exact .inr ⟨reason, rfl, .inl (hnone hdead)⟩
  · obtain ⟨before, hbefore, hsurvives⟩ := hsome now hnow
    rcases hsurvives with ⟨keep, -, rfl⟩ | ⟨other, _, _, hresolved, rfl⟩
    · exact .inr ⟨reason, rfl, .inr ⟨before, target, hbefore,
        (Node.binding?_relist before keep).symm.trans hbinding, hmore target htarget⟩⟩
    · rw [Node.binding?_rebind, hresolved] at hbinding
      cases hbinding

/-- The three stages: the symbols, the imports, and at last the file's own node. -/
structure Stages (start : Graph) (path : Path) (parsed : Parsed) (facts : FileFacts)
    (node : NodeId) (oldFacts : List SymbolFact) (oldSymbols oldImports : List NodeId)
    (first : Graph) (symbols : List NodeId) (second : Graph) (imports : List NodeId)
    (after : Graph) : Prop where
  sound : start.Sound
  symbolsBefore : OldSymbols start node oldFacts oldSymbols
  importsBefore : OldImports start node oldImports
  disjoint : ∀ id ∈ oldSymbols, id ∉ oldImports
  symbolCount : symbols.length = facts.symbols.length
  importCount : imports.length = facts.imports.length
  symbolsReplaced : Replaced start oldSymbols symbols first
  importsReplaced : Replaced first oldImports imports second
  nodeNotSymbol : node ∉ symbols
  nodeNotImport : node ∉ imports
  symbolShown : ∀ (index : Nat) id fact, symbols[index]? = some id →
    facts.symbols[index]? = some fact → first.node? id = some
      { Node.ofSymbol path parsed.language (fact.parent.bind (symbols[·]?)) fact with id }
  importShown : ∀ (index : Nat) id fact, imports[index]? = some id →
    facts.imports[index]? = some fact → ∃ binding,
      Keeps (fun other => other ∈ oldImports ∧ other ∉ imports) first id binding ∧
      second.node? id =
        some (({ Node.ofImport path parsed.language fact with id } : Node).rebind binding)
  firstEdge : ∀ key, first.hasEdge key ↔ (∃ id ∈ symbols, key = ⟨node, id, .defines⟩) ∨
    (∃ parent child, Nests facts.symbols symbols parent child ∧
      key = ⟨parent, child, .contains⟩) ∨
    (start.hasEdge key ∧ ¬ (key.kind = .contains ∧ key.target ∈ symbols) ∧
      ¬ (key.source ∈ oldSymbols ∧ key.source ∉ symbols) ∧
      ¬ (key.target ∈ oldSymbols ∧ key.target ∉ symbols))
  secondEdge : ∀ key, second.hasEdge key ↔ (∃ id ∈ imports, key = ⟨node, id, .imports⟩) ∨
    (first.hasEdge key ∧ ¬ (key.source ∈ oldImports ∧ key.source ∉ imports) ∧
      ¬ (key.target ∈ oldImports ∧ key.target ∉ imports))
  updated : second.Updated node
    { Node.ofFile path parsed facts symbols imports with id := node } after

section Stages

variable {first second after : Graph} {symbols imports : List NodeId}
  (hstages : Stages start path parsed facts node oldFacts oldSymbols oldImports first symbols second
    imports after)

include hstages

theorem Stages.notMem_oldImports {id : NodeId} (hid : id ∈ symbols) : id ∉ oldImports := by
  intro hold
  obtain ⟨before, detail, hbefore, -⟩ := hstages.importsBefore.shown id hold
  have hle := (hstages.symbolsReplaced.fresh id hid).resolve_left fun h =>
    hstages.disjoint id h hold
  exact absurd (hstages.sound.lt_nextId hbefore) (Nat.not_lt_of_le hle)

theorem Stages.notMem_imports {id : NodeId} (hid : id ∈ symbols) : id ∉ imports := by
  intro hnew
  obtain ⟨index, hindex⟩ := List.mem_iff_getElem?.1 hid
  have hlt : index < facts.symbols.length :=
    hstages.symbolCount ▸ (List.getElem?_eq_some_iff.1 hindex).1
  have hnode := hstages.symbolShown index id _ hindex (List.getElem?_eq_getElem hlt)
  have hle := (hstages.importsReplaced.fresh id hnew).resolve_left (hstages.notMem_oldImports hid)
  exact absurd (hstages.symbolsReplaced.sound.lt_nextId hnode) (Nat.not_lt_of_le hle)

theorem Stages.notMem_oldSymbols {id : NodeId} (hid : id ∈ imports) : id ∉ oldSymbols := by
  intro hold
  have hle := (hstages.importsReplaced.fresh id hid).resolve_left (hstages.disjoint id hold)
  obtain ⟨before, hbefore, -⟩ := hstages.symbolsBefore.exists_node hold
  exact absurd (hstages.sound.lt_nextId hbefore)
    (Nat.not_lt_of_le (hstages.symbolsReplaced.grows.trans hle))

/-- Symbols and imports do not get mixed up, so what goes is an old symbol or an old import. -/
theorem Stages.gone_iff (id : NodeId) :
    (id ∈ node :: (oldSymbols ++ oldImports) ∧ id ∉ node :: (symbols ++ imports)) ↔
      (id ∈ oldSymbols ∧ id ∉ symbols) ∨ (id ∈ oldImports ∧ id ∉ imports) := by
  simp only [List.mem_cons, List.mem_append, not_or]
  constructor
  · rintro ⟨rfl | hold | hold, hne, hnotSymbol, hnotImport⟩
    · exact absurd rfl hne
    · exact .inl ⟨hold, hnotSymbol⟩
    · exact .inr ⟨hold, hnotImport⟩
  · rintro (⟨hold, hnot⟩ | ⟨hold, hnot⟩)
    · exact ⟨.inr (.inl hold), fun h => hstages.symbolsBefore.apart (h ▸ hold), hnot,
        fun h => hstages.notMem_oldSymbols h hold⟩
    · exact ⟨.inr (.inr hold), fun h => hstages.importsBefore.apart (h ▸ hold),
        fun h => hstages.notMem_oldImports h hold, hnot⟩

theorem Stages.node?_of_ne {id : NodeId} (hne : id ≠ node) : after.node? id = second.node? id :=
  (hstages.updated.node? id).trans (if_neg hne)

/-- An import that is there after the first stage was there before it. -/
theorem Stages.exists_before {id : NodeId} (hid : id ∈ imports) {now : Node}
    (hnow : first.node? id = some now) : ∃ before, start.node? id = some before ∧
      before.Survives (fun other => other ∈ oldSymbols ∧ other ∉ symbols) now := by
  have hnotNew : id ∉ symbols := fun h => hstages.notMem_imports h hid
  cases hstart : start.node? id with
  | none =>
    rw [hstages.symbolsReplaced.absent id hnotNew hstart] at hnow
    cases hnow
  | some before =>
    obtain ⟨found, hfound, hsurvives⟩ := hstages.symbolsReplaced.kept id before
      (hstages.notMem_oldSymbols hid) hnotNew hstart
    rw [hnow] at hfound
    exact ⟨before, rfl, Option.some.inj hfound ▸ hsurvives⟩

theorem Stages.nodup : (node :: (symbols ++ imports)).Nodup := by
  refine List.nodup_cons.2 ⟨?_, hstages.symbolsReplaced.nodup.append hstages.importsReplaced.nodup
    fun _ => hstages.notMem_imports⟩
  rw [List.mem_append, not_or]
  exact ⟨hstages.nodeNotSymbol, hstages.nodeNotImport⟩

theorem Stages.fresh {id : NodeId} (hid : id ∈ node :: (symbols ++ imports)) :
    id ∈ node :: (oldSymbols ++ oldImports) ∨ start.nextId ≤ id := by
  rcases List.mem_cons.1 hid with rfl | hid
  · exact .inl List.mem_cons_self
  · rcases List.mem_append.1 hid with hid | hid
    · exact (hstages.symbolsReplaced.fresh id hid).imp_left fun h =>
        List.mem_cons_of_mem node (List.mem_append_left _ h)
    · exact (hstages.importsReplaced.fresh id hid).imp
        (fun h => List.mem_cons_of_mem node (List.mem_append_right _ h))
        hstages.symbolsReplaced.grows.trans

theorem Stages.symbol {index : Nat} {id : NodeId} {fact : SymbolFact}
    (hid : symbols[index]? = some id) (hfact : facts.symbols[index]? = some fact) :
    after.node? id = some { Node.ofSymbol path parsed.language
      (fact.parent.bind (symbols[·]?)) fact with id } := by
  have hmem := List.mem_of_getElem? hid
  rw [hstages.node?_of_ne fun h => hstages.nodeNotSymbol (h ▸ hmem)]
  obtain ⟨now, hnow, hsurvives⟩ := hstages.importsReplaced.kept id _
    (hstages.notMem_oldImports hmem) (hstages.notMem_imports hmem)
    (hstages.symbolShown index id fact hid hfact)
  rcases hsurvives with ⟨keep, -, rfl⟩ | ⟨_, _, _, hbinding, _⟩
  · exact hnow
  · cases hbinding

theorem Stages.imported {index : Nat} {id : NodeId} {fact : ImportFact}
    (hid : imports[index]? = some id) (hfact : facts.imports[index]? = some fact) :
    ∃ binding, Keeps (fun other => other ∈ node :: (oldSymbols ++ oldImports) ∧
        other ∉ node :: (symbols ++ imports)) start id binding ∧
      after.node? id =
        some (({ Node.ofImport path parsed.language fact with id } : Node).rebind binding) := by
  have hmem := List.mem_of_getElem? hid
  obtain ⟨binding, hkeeps, hnode⟩ := hstages.importShown index id fact hid hfact
  refine ⟨binding, ?_, (hstages.node?_of_ne fun h => hstages.nodeNotImport (h ▸ hmem)).trans hnode⟩
  refine hkeeps.before (fun other h => (hstages.gone_iff other).2 (.inl h))
    (fun other h => (hstages.gone_iff other).2 (.inr h))
    (fun _ => hstages.exists_before hmem) fun hnone => ?_
  cases hstart : start.node? id with
  | none => rfl
  | some before =>
    obtain ⟨now, hnow, -⟩ := hstages.symbolsReplaced.kept id before
      (hstages.notMem_oldSymbols hmem) (fun h => hstages.notMem_imports h hmem) hstart
    rw [hnone] at hnow
    cases hnow

theorem Stages.dead {id : NodeId} (hold : id ∈ node :: (oldSymbols ++ oldImports))
    (hnew : id ∉ node :: (symbols ++ imports)) : after.node? id = none := by
  have hnotNew := hnew
  rw [List.mem_cons, List.mem_append, not_or, not_or] at hnotNew
  rw [hstages.node?_of_ne hnotNew.1]
  rcases (hstages.gone_iff id).1 ⟨hold, hnew⟩ with hsymbol | himport
  · exact hstages.importsReplaced.absent id hnotNew.2.2
      (hstages.symbolsReplaced.dead id hsymbol.1 hsymbol.2)
  · exact hstages.importsReplaced.dead id himport.1 himport.2

theorem Stages.kept {id : NodeId} {before : Node} (hold : id ∉ node :: (oldSymbols ++ oldImports))
    (hnew : id ∉ node :: (symbols ++ imports)) (hbefore : start.node? id = some before) :
    ∃ now, after.node? id = some now ∧
      before.Survives (fun other => other ∈ node :: (oldSymbols ++ oldImports) ∧
        other ∉ node :: (symbols ++ imports)) now := by
  rw [List.mem_cons, List.mem_append, not_or, not_or] at hold hnew
  obtain ⟨middle, hmiddle, hstep⟩ :=
    hstages.symbolsReplaced.kept id before hold.2.1 hnew.2.1 hbefore
  obtain ⟨now, hnow, hstep'⟩ := hstages.importsReplaced.kept id middle hold.2.2 hnew.2.2 hmiddle
  exact ⟨now, (hstages.node?_of_ne hnew.1).trans hnow,
    (hstep.mono fun other h => (hstages.gone_iff other).2 (.inl h)).trans
      (hstep'.mono fun other h => (hstages.gone_iff other).2 (.inr h))⟩

/-- What stood for a symbol that went was unbound in the first stage and is so after the second. -/
theorem Stages.unbound_of_symbol {id target : NodeId} {now : Node} (htarget : target ∈ oldSymbols)
    (hgone : target ∉ symbols) (hedge : start.hasEdge ⟨id, target, .imports⟩)
    (hnow : second.node? id = some now) : now.binding? ≠ some (.resolved target) := by
  intro hresolved
  by_cases himport : id ∈ imports
  · obtain ⟨index, hindex⟩ := List.mem_iff_getElem?.1 himport
    have hlt : index < facts.imports.length :=
      hstages.importCount ▸ (List.getElem?_eq_some_iff.1 hindex).1
    obtain ⟨binding, hkeeps, hshown⟩ :=
      hstages.importShown index id _ hindex (List.getElem?_eq_getElem hlt)
    rw [hnow] at hshown
    rw [Option.some.inj hshown, Node.binding?_rebind] at hresolved
    obtain rfl := Option.some.inj hresolved
    rcases hkeeps with ⟨before, hbefore, hbinding⟩ | ⟨_, hreason, _⟩
    · exact hstages.symbolsReplaced.unbound id target before htarget hgone hedge hbefore hbinding
    · cases hreason
  · cases hmiddle : first.node? id with
    | none =>
      rw [hstages.importsReplaced.absent id himport hmiddle] at hnow
      cases hnow
    | some middle =>
      by_cases hold : id ∈ oldImports
      · rw [hstages.importsReplaced.dead id hold himport] at hnow
        cases hnow
      · obtain ⟨found, hfound, hsurvives⟩ :=
          hstages.importsReplaced.kept id middle hold himport hmiddle
        rw [hnow] at hfound
        obtain rfl := Option.some.inj hfound
        exact hsurvives.binding?_ne
          (hstages.symbolsReplaced.unbound id target middle htarget hgone hedge hmiddle) hresolved

theorem Stages.unbound {id target : NodeId} {now : Node}
    (hold : target ∈ node :: (oldSymbols ++ oldImports))
    (hnew : target ∉ node :: (symbols ++ imports)) (hedge : start.hasEdge ⟨id, target, .imports⟩)
    (hnow : after.node? id = some now) : now.binding? ≠ some (.resolved target) := by
  by_cases hself : id = node
  · rw [hself, hstages.updated.node?, if_pos rfl] at hnow
    obtain rfl := Option.some.inj hnow
    exact fun h => by cases h
  rw [hstages.node?_of_ne hself] at hnow
  rcases (hstages.gone_iff target).1 ⟨hold, hnew⟩ with ⟨htarget, hgone⟩ | ⟨htarget, hgone⟩
  · exact hstages.unbound_of_symbol htarget hgone hedge hnow
  · have hkept : ¬ (id ∈ oldSymbols ∧ id ∉ symbols) := by
      rintro ⟨hidOld, hidNew⟩
      rw [hstages.importsReplaced.absent id (fun h => hstages.notMem_oldSymbols h hidOld)
        (hstages.symbolsReplaced.dead id hidOld hidNew)] at hnow
      cases hnow
    refine hstages.importsReplaced.unbound id target now htarget hgone ?_ hnow
    exact (hstages.firstEdge _).2 (.inr (.inr ⟨hedge, fun h => (nomatch h.1), hkept,
      fun h => hstages.disjoint target h.1 htarget⟩))

theorem Stages.hasEdge (key : EdgeKey) :
    after.hasEdge key ↔ (∃ id ∈ symbols, key = ⟨node, id, .defines⟩) ∨
      (∃ parent child, Nests facts.symbols symbols parent child ∧
        key = ⟨parent, child, .contains⟩) ∨
      (∃ id ∈ imports, key = ⟨node, id, .imports⟩) ∨
      (start.hasEdge key ∧ ¬ (key.kind = .contains ∧ key.target ∈ symbols) ∧
        ¬ (key.source ∈ node :: (oldSymbols ++ oldImports) ∧
          key.source ∉ node :: (symbols ++ imports)) ∧
        ¬ (key.target ∈ node :: (oldSymbols ++ oldImports) ∧
          key.target ∉ node :: (symbols ++ imports))) := by
  rw [hstages.updated.hasEdge, hstages.secondEdge, hstages.firstEdge, hstages.gone_iff,
    hstages.gone_iff]
  constructor
  · rintro (⟨id, hid, rfl⟩ | ⟨⟨id, hid, rfl⟩ | ⟨parent, child, hnests, rfl⟩ |
      ⟨hstart, hinto, hsource, htarget⟩, hsource', htarget'⟩)
    · exact .inr (.inr (.inl ⟨id, hid, rfl⟩))
    · exact .inl ⟨id, hid, rfl⟩
    · exact .inr (.inl ⟨parent, child, hnests, rfl⟩)
    · exact .inr (.inr (.inr ⟨hstart, hinto, not_or.2 ⟨hsource, hsource'⟩,
        not_or.2 ⟨htarget, htarget'⟩⟩))
  · rintro (⟨id, hid, rfl⟩ | ⟨parent, child, hnests, rfl⟩ | ⟨id, hid, rfl⟩ |
      ⟨hstart, hinto, hsource, htarget⟩)
    · exact .inr ⟨.inl ⟨id, hid, rfl⟩, fun h => hstages.importsBefore.apart h.1,
        fun h => hstages.notMem_oldImports hid h.1⟩
    · have hnests' := hnests
      obtain ⟨_, _, _, _, _, hin, hat⟩ := hnests'
      exact .inr ⟨.inr (.inl ⟨parent, child, hnests, rfl⟩),
        fun h => hstages.notMem_oldImports (List.mem_of_getElem? hin) h.1,
        fun h => hstages.notMem_oldImports (List.mem_of_getElem? hat) h.1⟩
    · exact .inl ⟨id, hid, rfl⟩
    · rw [not_or] at hsource htarget
      exact .inr ⟨.inr (.inr ⟨hstart, hinto, hsource.1, htarget.1⟩), hsource.2, htarget.2⟩

theorem Stages.synced : Synced start path parsed facts (node :: (oldSymbols ++ oldImports))
    oldSymbols oldImports after node symbols imports where
  sound := hstages.updated.sound
  grows := hstages.updated.nextId ▸
    hstages.symbolsReplaced.grows.trans hstages.importsReplaced.grows
  symbolCount := hstages.symbolCount
  importCount := hstages.importCount
  nodup := hstages.nodup
  fresh := fun _ => hstages.fresh
  oldNode := by
    intro id hold hsymbol himport
    rw [List.mem_cons, List.mem_append] at hold
    exact hold.resolve_right (not_or.2 ⟨hsymbol, himport⟩)
  oldSymbol := by
    intro id hid hold
    rw [List.mem_cons, List.mem_append] at hold
    rcases hold with rfl | hold | hold
    · exact absurd hid hstages.nodeNotSymbol
    · exact hold
    · exact absurd hold (hstages.notMem_oldImports hid)
  oldImport := by
    intro id hid hold
    rw [List.mem_cons, List.mem_append] at hold
    rcases hold with rfl | hold | hold
    · exact absurd hid hstages.nodeNotImport
    · exact absurd hold (hstages.notMem_oldSymbols hid)
    · exact hold
  own := (hstages.updated.node? node).trans (if_pos rfl)
  symbol := fun _ _ _ => hstages.symbol
  imported := fun _ _ _ => hstages.imported
  dead := fun _ => hstages.dead
  absent := by
    intro id hnew hnone
    rw [List.mem_cons, List.mem_append, not_or, not_or] at hnew
    rw [hstages.node?_of_ne hnew.1]
    exact hstages.importsReplaced.absent id hnew.2.2
      (hstages.symbolsReplaced.absent id hnew.2.1 hnone)
  kept := fun _ _ => hstages.kept
  unbound := fun _ _ _ => hstages.unbound
  hasEdge := hstages.hasEdge

end Stages

variable (path parsed olds) in
/-- The members of a file whose node is there already, and then the node itself. -/
theorem exists_syncMembers (hsymbols : OldSymbols start node oldFacts oldSymbols)
    (himports : OldImports start node oldImports)
    (hdisjoint : ∀ id ∈ oldSymbols, id ∉ oldImports) (hsound : start.Sound) {file : Node}
    (hfile : start.node? node = some file) (hfileKind : file.kind = .file)
    (hfilePath : file.path = path) (hformed : facts.WellFormed) :
    ∃ first symbols second imports after,
      syncSymbols start path parsed.language node oldFacts oldSymbols facts.symbols =
        .ok (first, symbols) ∧
      syncImports first path parsed.language node olds oldImports facts.imports =
        .ok (second, imports) ∧
      second.update node (fun _ => Node.ofFile path parsed facts symbols imports) = .ok after ∧
      Synced start path parsed facts (node :: (oldSymbols ++ oldImports)) oldSymbols oldImports
        after node symbols imports := by
  obtain ⟨first, symbols, hrunSymbols, hsymbolCount, hfirst, hsymbolShown, hfirstEdge⟩ :=
    exists_syncSymbols path parsed.language hsymbols hsound
      (Graph.contains_of_node? hfile)
      (fun index fact hfact => (hformed.symbols index fact hfact).parent)
      (fun fact hfact => by
        obtain ⟨index, hindex⟩ := List.mem_iff_getElem?.1 hfact
        exact (hformed.symbols index fact hindex).kind)
  have hnodeNotSymbol : node ∉ symbols := fun h =>
    absurd (hsound.lt_nextId hfile)
      (Nat.not_lt_of_le ((hfirst.fresh node h).resolve_left hsymbols.apart))
  obtain ⟨file₁, hfile₁, hsurvives₁⟩ := hfirst.kept node file hsymbols.apart hnodeNotSymbol hfile
  obtain ⟨second, imports, hrunImports, himportCount, hsecond, hnodeNotImport, himportShown,
      hsecondEdge⟩ :=
    exists_syncImports path parsed.language facts.imports olds
      (himports.after hsound hsymbols.apart hdisjoint hfirst hfirstEdge) hfirst.sound
      (Graph.contains_of_node? hfile₁)
  obtain ⟨file₂, hfile₂, hsurvives₂⟩ := hsecond.kept node file₁ himports.apart hnodeNotImport hfile₁
  have hkind : file₂.kind = .file := hsurvives₂.kind_eq.trans (hsurvives₁.kind_eq.trans hfileKind)
  have hpath : file₂.path = path := hsurvives₂.path_eq.trans (hsurvives₁.path_eq.trans hfilePath)
  obtain ⟨after, hrunUpdate, hupdated⟩ := Graph.exists_update hsecond.sound
    (fun _ => Node.ofFile path parsed facts symbols imports) hfile₂
    fun _ => .inl hpath.symm
  have hchanged : Graph.changed file₂ (fun _ => Node.ofFile path parsed facts symbols imports) =
      { Node.ofFile path parsed facts symbols imports with id := node } := by
    rw [Graph.changed, Graph.id_of_node? hfile₂, hkind]
    rfl
  rw [hchanged] at hupdated
  have hstages : Stages start path parsed facts node oldFacts oldSymbols oldImports first symbols
      second imports after :=
    ⟨hsound, hsymbols, himports, hdisjoint, hsymbolCount, himportCount, hfirst, hsecond,
      hnodeNotSymbol, hnodeNotImport, hsymbolShown, himportShown, hfirstEdge, hsecondEdge, hupdated⟩
  exact ⟨first, symbols, second, imports, after, hrunSymbols, hrunImports, hrunUpdate,
    hstages.synced⟩

end Members

/-- A file that has no node yet gets one first. -/
theorem Synced.ofInserted {start inserted after : Graph} {path : Path} {parsed : Parsed}
    {facts : FileFacts} {own : Node} {symbols imports : List NodeId}
    (hinserted : start.Inserted own inserted)
    (hsynced : Synced inserted path parsed facts [start.nextId] [] [] after start.nextId symbols
      imports) :
    Synced start path parsed facts [] [] [] after start.nextId symbols imports := by
  have hgone : ∀ id, ¬ (id ∈ [start.nextId] ∧ id ∉ start.nextId :: (symbols ++ imports)) := by
    rintro id ⟨hold, hnew⟩
    rw [List.mem_singleton.1 hold] at hnew
    exact hnew List.mem_cons_self
  have hview : ∀ id, id ≠ start.nextId → inserted.node? id = start.node? id := fun id hne =>
    (hinserted.node? id).trans (if_neg hne)
  have hne : ∀ id, id ∉ start.nextId :: (symbols ++ imports) → id ≠ start.nextId := fun id hid h =>
    hid (h ▸ List.mem_cons_self)
  have hmember : ∀ id ∈ symbols ++ imports, id ≠ start.nextId := fun id hid h =>
    (List.nodup_cons.1 hsynced.nodup).1 (h ▸ hid)
  have hgrows : start.nextId ≤ inserted.nextId := hinserted.nextId ▸ Nat.le_succ _
  refine ⟨⟨hsynced.sound, hgrows.trans hsynced.grows, hsynced.nodup, ?_, ?_, ?_, ?_, ?_⟩,
    hsynced.symbolCount, hsynced.importCount, ?_, ?_, ?_, hsynced.own, hsynced.symbol, ?_, ?_⟩
  · intro id hid
    rcases hsynced.fresh id hid with hold | hle
    · exact .inr (List.mem_singleton.1 hold).ge
    · exact .inr (hgrows.trans hle)
  · exact fun id hid => absurd hid List.not_mem_nil
  · exact fun id hnew hnone => hsynced.absent id hnew ((hview id (hne id hnew)).trans hnone)
  · intro id before _ hnew hbefore
    have hid := hne id hnew
    obtain ⟨now, hnow, hsurvives⟩ := hsynced.kept id before
      (fun h => hid (List.mem_singleton.1 h)) hnew ((hview id hid).trans hbefore)
    exact ⟨now, hnow, hsurvives.mono fun other h => absurd h (hgone other)⟩
  · exact fun id target now hid => absurd hid List.not_mem_nil
  · exact fun id hid => absurd hid List.not_mem_nil
  · exact fun id _ hid => absurd hid List.not_mem_nil
  · exact fun id _ hid => absurd hid List.not_mem_nil
  · intro index id fact hid hfact
    obtain ⟨binding, hkeeps, hnode⟩ := hsynced.imported index id fact hid hfact
    have hid' := hmember id (List.mem_append_right _ (List.mem_of_getElem? hid))
    refine ⟨binding, ?_, hnode⟩
    rw [Keeps, hview id hid'] at hkeeps
    rcases hkeeps with hbefore | ⟨reason, hreason, hnone | ⟨_, target, _, _, htarget⟩⟩
    · exact .inl hbefore
    · exact .inr ⟨reason, hreason, .inl hnone⟩
    · exact absurd htarget (hgone target)
  · intro key
    rw [hsynced.hasEdge, hinserted.hasEdge]
    simp only [hgone, List.not_mem_nil, false_and, not_false_eq_true, and_true]

/-- A file without a node finds its path free, and one with a node finds it as it was left. -/
inductive Prepared (graph : Graph) (path : Path) : Option SourceFile → Prop
  | absent (hfree : graph.files.get? path.tidy = none) : Prepared graph path none
  | present {file : SourceFile} (hheld : file.Held graph) (hparallel : file.Parallel)
    (hpath : file.path = path)
    (hdefined : ∀ id ∈ file.symbols, graph.hasEdge ⟨file.node, id, .defines⟩)
    (hnested : ∀ parent ∈ file.symbols, ∀ child, graph.hasEdge ⟨parent, child, .contains⟩ →
      Nests file.facts.symbols file.symbols parent child)
    (hlisted : ∀ id ∈ file.imports, graph.hasEdge ⟨file.node, id, .imports⟩)
    (hleaf : ∀ id ∈ file.imports, ∀ child, ¬ graph.hasEdge ⟨id, child, .contains⟩) :
    Prepared graph path (some file)

/-- **The nodes of a file.** -/
theorem exists_syncNodes {graph : Graph} {path : Path} (parsed : Parsed)
    {previous : Option SourceFile} (hsound : graph.Sound) (hprepared : Prepared graph path previous) :
    ∃ after node symbols imports,
      syncNodes graph path parsed parsed.facts previous = .ok (after, node, symbols, imports) ∧
      Synced graph path parsed parsed.facts ((previous.map SourceFile.nodes).getD [])
        ((previous.map SourceFile.symbols).getD []) ((previous.map SourceFile.imports).getD [])
        after node symbols imports := by
  have hformed := parsed.wellFormed_facts
  cases hprepared with
  | absent hfree =>
    obtain ⟨inserted, hrun, hinserted⟩ := Graph.exists_insertNode hsound
      (Node.ofFile path parsed parsed.facts [] []) fun _ => hfree
    have hnoSymbols : OldSymbols inserted graph.nextId [] [] :=
      ⟨rfl, List.nodup_nil, List.not_mem_nil, by simp, by simp, by simp, by simp⟩
    have hnoImports : OldImports inserted graph.nextId [] :=
      ⟨List.nodup_nil, List.not_mem_nil, by simp, by simp, by simp⟩
    obtain ⟨first, symbols, second, imports, after, hsymbols, himports, hupdate, hsynced⟩ :=
      exists_syncMembers path parsed [] hnoSymbols hnoImports (by simp) hinserted.sound
        ((hinserted.node? _).trans (if_pos rfl)) rfl rfl hformed
    refine ⟨after, graph.nextId, symbols, imports, ?_, Synced.ofInserted hinserted hsynced⟩
    simp only [syncNodes, fileNode, hrun, ok_bind, Option.map_none, Option.getD_none, hsymbols,
      himports, hupdate]
    rfl
  | present hheld hparallel hpath hdefined hnested hlisted hleaf =>
    rename_i file
    obtain ⟨own, errors, hown, hkind, hownPath, -⟩ := hheld.own
    have hnodup := List.nodup_cons.1 hparallel.nodup
    have hmembers := List.nodup_append.1 hnodup.2
    obtain ⟨first, symbols, second, imports, after, hsymbols, himports, hupdate, hsynced⟩ :=
      exists_syncMembers path parsed file.facts.imports
        { length := hparallel.symbols
          nodup := hmembers.1
          apart := fun h => hnodup.1 (List.mem_append_left _ h)
          shown := by
            intro index id fact hid hfact
            obtain ⟨node, parent, exported, hnode, hnodeKind, -, hdetail⟩ :=
              hheld.symbol index id fact hid hfact
            exact ⟨node, hnode, hnodeKind, by rw [Node.listed, hdetail]⟩
          defined := hdefined
          nested := hnested
          parent := fun index fact hfact => (hparallel.formed.symbols index fact hfact).parent }
        { nodup := hmembers.2.1
          apart := fun h => hnodup.1 (List.mem_append_right _ h)
          shown := by
            intro id hid
            obtain ⟨node, detail, hnode, hnodeKind, -, hdetail⟩ := hheld.imported id hid
            exact ⟨node, detail, hnode, hnodeKind, hdetail⟩
          listed := hlisted
          leaf := hleaf }
        (fun id hid hid' => hmembers.2.2 id hid id hid' rfl) hsound hown hkind
        (hownPath.trans hpath) hformed
    refine ⟨after, file.node, symbols, imports, ?_, hsynced⟩
    simp only [syncNodes, fileNode, ok_bind, Option.map_some, Option.getD_some, hsymbols, himports,
      hupdate]
    rfl

end Pass

end CodeGraph
