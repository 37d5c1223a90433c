import CodeGraph.Facts.Walk
import CodeGraph.Proofs.Table
import Mathlib.Data.List.Basic
import Mathlib.Order.Lattice

/-!
# Well-formed facts

Facts refer to each other by index. They are well formed when every index leads to what it stands
for: parents come before their children, a scope knows symbols and imports of its own under their
own names, and every owner and every scope that is mentioned exists. Whatever a walk does, it does
through a handful of steps that keep this, and so does the walk.
-/

namespace CodeGraph

namespace FileFacts

/-- What the facts say of the symbol at an index. -/
structure SymbolFits (facts : FileFacts) (index : Nat) (symbol : SymbolFact) : Prop where
  kind : symbol.kind.isSymbol = true
  parent : ∀ parent, symbol.parent = some parent → parent < index
  qualifiedName : symbol.qualifiedName =
    match symbol.parent.bind (facts.symbols[·]?) with
    | some owner => owner.qualifiedName ++ "." ++ symbol.name
    | none => symbol.name
  scope : symbol.scope < facts.scopes.size

/-- What the facts say of the scope with an id. -/
structure ScopeFits (facts : FileFacts) (id : ScopeId) (scope : Scope) : Prop where
  parent : id ≠ ScopeTree.root → ∃ parent, scope.parent = some parent ∧ parent < id
  owner : ∀ owner, scope.owner = some owner → owner < facts.symbols.length
  definition : ∀ name index, scope.definition? name = some (.symbol index) →
    ∃ symbol, facts.symbols[index]? = some symbol ∧ symbol.name = name ∧ symbol.scope = id
  importing : ∀ name index, scope.import? name = some index →
    ∃ fact, facts.imports[index]? = some fact ∧ fact.localName = some name ∧ fact.scope = id
  wildcard : ∀ index ∈ scope.wildcards,
    ∃ fact, facts.imports[index]? = some fact ∧ fact.wildcard = true ∧ fact.scope = id

/-- Every index leads to what it stands for. -/
structure WellFormed (facts : FileFacts) : Prop where
  symbols : ∀ index symbol, facts.symbols[index]? = some symbol → facts.SymbolFits index symbol
  scopes : ∀ id scope, facts.scopes.scope? id = some scope → facts.ScopeFits id scope
  imports : ∀ fact ∈ facts.imports, fact.scope < facts.scopes.size
  references : ∀ reference ∈ facts.references, reference.scope < facts.scopes.size ∧
    ∀ owner, reference.owner = some owner → owner < facts.symbols.length
  rooted : 0 < facts.scopes.size

/-- Facts collected later: nothing that was there is lost, and the module is still below no scope. -/
structure Grows (before after : FileFacts) : Prop where
  symbols : before.symbols.length ≤ after.symbols.length
  scopes : before.scopes.size ≤ after.scopes.size
  root : after.scopes.rootScope?.map Scope.parent = before.scopes.rootScope?.map Scope.parent

theorem Grows.refl (facts : FileFacts) : facts.Grows facts :=
  ⟨Nat.le_refl _, Nat.le_refl _, rfl⟩

theorem Grows.trans {first second third : FileFacts} (hfirst : first.Grows second)
    (hsecond : second.Grows third) : first.Grows third :=
  ⟨hfirst.symbols.trans hsecond.symbols, hfirst.scopes.trans hsecond.scopes,
    hsecond.root.trans hfirst.root⟩

end FileFacts

/-- The place stands in a scope and belongs to a symbol that exist. -/
structure Place.Fits (place : Place) (facts : FileFacts) : Prop where
  scope : place.scope < facts.scopes.size
  owner : ∀ owner, place.owner = some owner → owner < facts.symbols.length

theorem Place.Fits.grow {place : Place} {before after : FileFacts} (hfits : place.Fits before)
    (hgrows : before.Grows after) : place.Fits after :=
  ⟨hfits.scope.trans_le hgrows.scopes,
    fun owner howner => (hfits.owner owner howner).trans_le hgrows.symbols⟩

/-! ### Steps on facts -/

namespace ScopeTree

theorem scope?_modify (tree : ScopeTree) (id other : ScopeId) (change : Scope → Scope) :
    (tree.modify id change).scope? other =
      if id = other then (tree.scope? other).map change else tree.scope? other := by
  simp only [scope?, modify, List.getElem?_modify]
  split <;> simp

theorem size_modify (tree : ScopeTree) (id : ScopeId) (change : Scope → Scope) :
    (tree.modify id change).size = tree.size :=
  List.length_modify ..

theorem size_push (tree : ScopeTree) (kind : ScopeKind) (parent : ScopeId) (range : ByteRange)
    (owner : Option Nat) : (tree.push kind parent range owner).size = tree.size + 1 := by
  simp [push, size]

theorem scope?_push (tree : ScopeTree) (kind : ScopeKind) (parent : ScopeId) (range : ByteRange)
    (owner : Option Nat) (id : ScopeId) :
    (tree.push kind parent range owner).scope? id =
      if id = tree.size then some { kind, parent := some parent, range, owner }
      else tree.scope? id := by
  rcases Nat.lt_trichotomy id tree.size with hlt | rfl | hgt
  · rw [if_neg (Nat.ne_of_lt hlt), scope?, push, List.getElem?_append_left hlt]
    rfl
  · simp [scope?, push, size]
  · have hold : tree.scope? id = none := List.getElem?_eq_none hgt.le
    rw [if_neg (Nat.ne_of_gt hgt), hold]
    have hlength : (tree.push kind parent range owner).size ≤ id := by
      rw [size_push]
      exact hgt
    exact List.getElem?_eq_none hlength

end ScopeTree

namespace FileFacts

/-- One scope that is changed, and not in its parent. -/
theorem Grows.of_modify {before after : FileFacts} {id : ScopeId} {change : Scope → Scope}
    (hsymbols : before.symbols.length ≤ after.symbols.length)
    (hscopes : after.scopes = before.scopes.modify id change)
    (hparent : ∀ scope, (change scope).parent = scope.parent) : before.Grows after := by
  refine ⟨hsymbols, by rw [hscopes, ScopeTree.size_modify], ?_⟩
  rw [hscopes, ScopeTree.rootScope?, ScopeTree.scope?_modify]
  split
  · rw [Option.map_map]
    exact Option.map_congr fun scope _ => hparent scope
  · rfl

theorem Grows.of_push {before : FileFacts} (hrooted : 0 < before.scopes.size) (kind : ScopeKind)
    (parent : ScopeId) (range : ByteRange) (owner : Option Nat) :
    before.Grows { before with scopes := before.scopes.push kind parent range owner } := by
  refine ⟨Nat.le_refl _, by rw [ScopeTree.size_push]; exact Nat.le_succ _, ?_⟩
  have hne : ScopeTree.root ≠ before.scopes.size := hrooted.ne
  rw [ScopeTree.rootScope?, ScopeTree.scope?_push, if_neg hne]
  rfl

theorem parent_define (scope : Scope) (name : String) (decl : Decl) :
    (scope.define name decl).parent = scope.parent := by
  cases decl <;> rfl

/-- The facts agree on everything that well-formedness speaks of, and may have gained symbols and
imports at the end. -/
structure Extends (before after : FileFacts) : Prop where
  symbols : ∀ (index : Nat) symbol, before.symbols[index]? = some symbol →
    ∃ now, after.symbols[index]? = some now ∧ now.name = symbol.name ∧ now.scope = symbol.scope ∧
      now.qualifiedName = symbol.qualifiedName
  imports : ∀ (index : Nat) fact, before.imports[index]? = some fact →
    after.imports[index]? = some fact
  count : before.symbols.length ≤ after.symbols.length

theorem Extends.refl (facts : FileFacts) : facts.Extends facts :=
  ⟨fun _ symbol hsymbol => ⟨symbol, hsymbol, rfl, rfl, rfl⟩, fun _ _ hfact => hfact, Nat.le_refl _⟩

theorem ScopeFits.extend {before after : FileFacts} {id : ScopeId} {scope : Scope}
    (hfits : before.ScopeFits id scope) (hextends : before.Extends after) :
    after.ScopeFits id scope where
  parent := hfits.parent
  owner := fun owner howner => (hfits.owner owner howner).trans_le hextends.count
  definition := by
    intro name index hdefinition
    obtain ⟨symbol, hsymbol, hname, hscope⟩ := hfits.definition name index hdefinition
    obtain ⟨now, hnow, hsameName, hsameScope, _⟩ := hextends.symbols index symbol hsymbol
    exact ⟨now, hnow, hsameName.trans hname, hsameScope.trans hscope⟩
  importing := by
    intro name index himport
    obtain ⟨fact, hfact, hrest⟩ := hfits.importing name index himport
    exact ⟨fact, hextends.imports index fact hfact, hrest⟩
  wildcard := by
    intro index hwildcard
    obtain ⟨fact, hfact, hrest⟩ := hfits.wildcard index hwildcard
    exact ⟨fact, hextends.imports index fact hfact, hrest⟩

/-- Facts whose scopes are changed at one id, and not in their parents and owners. -/
theorem WellFormed.modifyScope {before after : FileFacts} (hformed : before.WellFormed)
    {id : ScopeId} {change : Scope → Scope} (hextends : before.Extends after)
    (hscopes : after.scopes = before.scopes.modify id change)
    (hsymbols : ∀ index symbol, after.symbols[index]? = some symbol →
      after.SymbolFits index symbol)
    (himports : ∀ fact ∈ after.imports, fact.scope < before.scopes.size)
    (hreferences : after.references = before.references)
    (hchange : ∀ scope, after.ScopeFits id scope → after.ScopeFits id (change scope)) :
    after.WellFormed := by
  have hsize : after.scopes.size = before.scopes.size := by
    rw [hscopes, ScopeTree.size_modify]
  refine ⟨hsymbols, ?_, by rw [hsize]; exact himports, ?_, by rw [hsize]; exact hformed.rooted⟩
  · intro other scope hscope
    rw [hscopes, ScopeTree.scope?_modify] at hscope
    split at hscope
    · rename_i heq
      subst heq
      obtain ⟨old, hold, rfl⟩ := Option.map_eq_some_iff.1 hscope
      exact hchange old ((hformed.scopes id old hold).extend hextends)
    · exact (hformed.scopes other scope hscope).extend hextends
  · rw [hreferences, hsize]
    intro reference hreference
    obtain ⟨hscope, howner⟩ := hformed.references reference hreference
    exact ⟨hscope, fun owner h => (howner owner h).trans_le hextends.count⟩

theorem WellFormed.bindLocal {facts : FileFacts} (hformed : facts.WellFormed) (id : ScopeId)
    (name : String) :
    { facts with scopes := facts.scopes.define id name .plain : FileFacts }.WellFormed := by
  have hextends : facts.Extends { facts with scopes := facts.scopes.define id name .plain } :=
    ⟨(Extends.refl facts).symbols, (Extends.refl facts).imports, Nat.le_refl _⟩
  refine hformed.modifyScope hextends rfl ?_ hformed.imports rfl ?_
  · intro index symbol hsymbol
    obtain ⟨hkind, hparent, hqualified, hscope⟩ := hformed.symbols index symbol hsymbol
    refine ⟨hkind, hparent, hqualified, ?_⟩
    rw [show (facts.scopes.define id name .plain).size = facts.scopes.size from
      ScopeTree.size_modify ..]
    exact hscope
  · intro scope hfits
    refine ⟨hfits.parent, hfits.owner, ?_, hfits.importing, hfits.wildcard⟩
    intro other index hdefinition
    refine hfits.definition other index ?_
    simp only [Scope.define, Scope.definition?, Table.putNew] at hdefinition
    split at hdefinition
    · exact hdefinition
    · rw [Table.get?_put] at hdefinition
      split at hdefinition
      · cases hdefinition
      · exact hdefinition

theorem SymbolFits.extend {before after : FileFacts} {index : Nat} {symbol : SymbolFact}
    (hfits : before.SymbolFits index symbol) (hextends : before.Extends after)
    (hsize : before.scopes.size ≤ after.scopes.size) (hindex : index ≤ before.symbols.length) :
    after.SymbolFits index symbol := by
  refine ⟨hfits.kind, hfits.parent, ?_, hfits.scope.trans_le hsize⟩
  rw [hfits.qualifiedName]
  cases hparent : symbol.parent with
  | none => rfl
  | some parent =>
    have hlt : parent < before.symbols.length := (hfits.parent parent hparent).trans_le hindex
    obtain ⟨now, hnow, -, -, hqualified⟩ :=
      hextends.symbols parent _ (List.getElem?_eq_getElem hlt)
    simp only [Option.bind_some, List.getElem?_eq_getElem hlt, hnow, hqualified]

theorem WellFormed.define {facts : FileFacts} (hformed : facts.WellFormed) (symbol : SymbolFact)
    (hfits : facts.SymbolFits facts.symbols.length symbol) :
    { facts with
      symbols := facts.symbols ++ [symbol]
      scopes := facts.scopes.define symbol.scope symbol.name
        (.symbol facts.symbols.length) : FileFacts }.WellFormed := by
  set after : FileFacts := { facts with
    symbols := facts.symbols ++ [symbol]
    scopes := facts.scopes.define symbol.scope symbol.name (.symbol facts.symbols.length) }
  have hsize : after.scopes.size = facts.scopes.size := ScopeTree.size_modify ..
  have hextends : facts.Extends after := by
    refine ⟨?_, fun _ _ hfact => hfact, by simp [after]⟩
    intro index old hold
    exact ⟨old, List.getElem?_append_left (List.getElem?_eq_some_iff.1 hold).1 ▸ hold, rfl, rfl, rfl⟩
  refine hformed.modifyScope hextends rfl ?_ hformed.imports rfl ?_
  · intro index other hother
    rcases Nat.lt_or_ge index facts.symbols.length with hlt | hge
    · rw [List.getElem?_append_left hlt] at hother
      exact (hformed.symbols index other hother).extend hextends hsize.ge hlt.le
    · rw [List.getElem?_append_right hge, List.getElem?_singleton] at hother
      split at hother
      · rename_i hzero
        obtain rfl := Option.some.inj hother
        obtain rfl : index = facts.symbols.length := by omega
        exact hfits.extend hextends hsize.ge (Nat.le_refl _)
      · cases hother
  · intro scope hscope
    refine ⟨hscope.parent, hscope.owner, ?_, hscope.importing, hscope.wildcard⟩
    intro name index hdefinition
    simp only [Scope.define, Scope.definition?, Table.get?_put] at hdefinition
    split at hdefinition
    · rename_i hname
      cases hdefinition
      exact ⟨symbol, by simp [after], hname.symm, rfl⟩
    · exact hscope.definition name index hdefinition

theorem WellFormed.openScope {facts : FileFacts} (hformed : facts.WellFormed) {parent : ScopeId}
    (hparent : parent < facts.scopes.size) (kind : ScopeKind) (range : ByteRange)
    {owner : Option Nat} (howner : ∀ symbol, owner = some symbol → symbol < facts.symbols.length) :
    { facts with scopes := facts.scopes.push kind parent range owner : FileFacts }.WellFormed := by
  have hsize := ScopeTree.size_push facts.scopes kind parent range owner
  have hextends : facts.Extends
      { facts with scopes := facts.scopes.push kind parent range owner } :=
    ⟨(Extends.refl facts).symbols, (Extends.refl facts).imports, Nat.le_refl _⟩
  refine ⟨?_, ?_, ?_, ?_, ?_⟩
  · intro index symbol hsymbol
    exact (hformed.symbols index symbol hsymbol).extend hextends (by rw [hsize]; omega)
      (List.getElem?_eq_some_iff.1 hsymbol).1.le
  · intro id scope hscope
    rw [ScopeTree.scope?_push] at hscope
    split at hscope
    · rename_i hid
      obtain rfl := Option.some.inj hscope
      refine ⟨fun _ => ⟨parent, rfl, hid ▸ hparent⟩, howner, ?_, ?_, ?_⟩
      · intro name index hdefinition
        cases hdefinition
      · intro name index himport
        cases himport
      · intro index hindex
        cases hindex
    · exact (hformed.scopes id scope hscope).extend hextends
  · intro fact hfact
    rw [hsize]
    exact (hformed.imports fact hfact).trans (Nat.lt_succ_self _)
  · intro reference hreference
    obtain ⟨hscope, hrest⟩ := hformed.references reference hreference
    rw [hsize]
    exact ⟨hscope.trans (Nat.lt_succ_self _), hrest⟩
  · rw [hsize]
    exact Nat.succ_pos _

theorem WellFormed.refer {facts : FileFacts} (hformed : facts.WellFormed)
    {reference : ReferenceFact} (hscope : reference.scope < facts.scopes.size)
    (howner : ∀ owner, reference.owner = some owner → owner < facts.symbols.length) :
    { facts with references := facts.references ++ [reference] : FileFacts }.WellFormed := by
  refine ⟨fun index symbol hsymbol => ?_, fun id scope hid => ?_, hformed.imports, ?_,
    hformed.rooted⟩
  · obtain ⟨hkind, hparent, hqualified, hin⟩ := hformed.symbols index symbol hsymbol
    exact ⟨hkind, hparent, hqualified, hin⟩
  · obtain ⟨hparent, howned, hdefinition, himporting, hwildcard⟩ := hformed.scopes id scope hid
    exact ⟨hparent, howned, hdefinition, himporting, hwildcard⟩
  · intro other hother
    rcases List.mem_append.1 hother with hold | hnew
    · exact hformed.references other hold
    · rw [List.mem_singleton.1 hnew]
      exact ⟨hscope, howner⟩

/-- Facts that differ only in what no index leads to. -/
theorem WellFormed.congr {before after : FileFacts} (hformed : before.WellFormed)
    (hsymbols : after.symbols = before.symbols) (himports : after.imports = before.imports)
    (hreferences : after.references = before.references) (hscopes : after.scopes = before.scopes) :
    after.WellFormed := by
  obtain ⟨language, symbols, imports, references, scopes, exports, defaultExport, package,
    errorRanges⟩ := after
  simp only at hsymbols himports hreferences hscopes
  subst hsymbols himports hreferences hscopes
  refine ⟨fun index symbol hsymbol => ?_, fun id scope hid => ?_, hformed.imports,
    hformed.references, hformed.rooted⟩
  · obtain ⟨hkind, hparent, hqualified, hin⟩ := hformed.symbols index symbol hsymbol
    exact ⟨hkind, hparent, hqualified, hin⟩
  · obtain ⟨hparent, howned, hdefinition, himporting, hwildcard⟩ := hformed.scopes id scope hid
    exact ⟨hparent, howned, hdefinition, himporting, hwildcard⟩

theorem ScopeFits.bindWildcard {facts : FileFacts} {fact : ImportFact} {scope : Scope} {last : Nat}
    (hfits : facts.ScopeFits fact.scope scope) (hlast : facts.imports[last]? = some fact)
    (hwildcard : fact.wildcard = true) : facts.ScopeFits fact.scope (scope.bindWildcard last) where
  parent := hfits.parent
  owner := hfits.owner
  definition := hfits.definition
  importing := hfits.importing
  wildcard := by
    intro index hindex
    rcases List.mem_append.1 hindex with hold | hnew
    · exact hfits.wildcard index hold
    · rw [List.mem_singleton.1 hnew]
      exact ⟨fact, hlast, hwildcard, rfl⟩

theorem ScopeFits.bindImport {facts : FileFacts} {fact : ImportFact} {scope : Scope} {last : Nat}
    {name : String} (hfits : facts.ScopeFits fact.scope scope)
    (hlast : facts.imports[last]? = some fact) (hname : fact.localName = some name) :
    facts.ScopeFits fact.scope (scope.bindImport name last) where
  parent := hfits.parent
  owner := hfits.owner
  definition := hfits.definition
  importing := by
    intro other index himport
    simp only [Scope.bindImport, Scope.import?, Table.get?_put] at himport
    split at himport
    · rename_i heq
      cases himport
      exact ⟨fact, hlast, heq ▸ hname, rfl⟩
    · exact hfits.importing other index himport
  wildcard := hfits.wildcard

/-- A new import, known in its scope under its own name, as a wildcard, or not at all. -/
theorem WellFormed.importing {facts : FileFacts} (hformed : facts.WellFormed) (fact : ImportFact)
    (hscope : fact.scope < facts.scopes.size) :
    { facts with
      scopes := if fact.wildcard then facts.scopes.bindWildcard fact.scope facts.imports.length
        else match fact.localName with
          | some name => facts.scopes.bindImport fact.scope name facts.imports.length
          | none => facts.scopes
      imports := facts.imports ++ [fact] : FileFacts }.WellFormed := by
  set change : Scope → Scope := fun scope =>
    if fact.wildcard then scope.bindWildcard facts.imports.length
    else match fact.localName with
      | some name => scope.bindImport name facts.imports.length
      | none => scope
  have hscopes : (if fact.wildcard then
        facts.scopes.bindWildcard fact.scope facts.imports.length
      else match fact.localName with
        | some name => facts.scopes.bindImport fact.scope name facts.imports.length
        | none => facts.scopes) = facts.scopes.modify fact.scope change := by
    simp only [change]
    by_cases hwildcard : fact.wildcard = true
    · simp only [hwildcard, if_true, ScopeTree.bindWildcard]
    · simp only [hwildcard, if_false, Bool.false_eq_true]
      cases fact.localName with
      | some name => rfl
      | none =>
        have hsame : facts.scopes.scopes.modify fact.scope id = facts.scopes.scopes :=
          List.modify_id ..
        exact congrArg ScopeTree.mk hsame.symm
  rw [hscopes]
  set after : FileFacts := { facts with
    scopes := facts.scopes.modify fact.scope change, imports := facts.imports ++ [fact] }
  have hnew : after.imports[facts.imports.length]? = some fact := by simp [after]
  have hextends : facts.Extends after := by
    refine ⟨(Extends.refl facts).symbols, ?_, Nat.le_refl _⟩
    intro index old hold
    exact List.getElem?_append_left (List.getElem?_eq_some_iff.1 hold).1 ▸ hold
  refine hformed.modifyScope hextends rfl ?_ ?_ rfl ?_
  · intro index symbol hsymbol
    exact (hformed.symbols index symbol hsymbol).extend hextends
      (ScopeTree.size_modify ..).ge (List.getElem?_eq_some_iff.1 hsymbol).1.le
  · intro other hother
    rcases List.mem_append.1 hother with hold | hlast
    · exact hformed.imports other hold
    · rw [List.mem_singleton.1 hlast]
      exact hscope
  · intro scope hfits
    simp only [change]
    split
    · rename_i hwildcard
      exact hfits.bindWildcard hnew hwildcard
    · split
      · rename_i name hname
        exact hfits.bindImport hnew hname
      · exact hfits

/-- Symbols that keep their kind, names, parent and scope. -/
theorem WellFormed.mapSymbols {facts : FileFacts} (hformed : facts.WellFormed)
    {symbols : List SymbolFact} (hlength : symbols.length = facts.symbols.length)
    (hsame : ∀ (index : Nat) now, symbols[index]? = some now →
      ∃ symbol, facts.symbols[index]? = some symbol ∧ now.kind = symbol.kind ∧
        now.name = symbol.name ∧ now.qualifiedName = symbol.qualifiedName ∧
        now.parent = symbol.parent ∧ now.scope = symbol.scope) :
    { facts with symbols : FileFacts }.WellFormed := by
  have hextends : facts.Extends { facts with symbols } := by
    refine ⟨?_, fun _ _ hfact => hfact, hlength.ge⟩
    intro index symbol hsymbol
    have hlt : index < symbols.length := hlength ▸ (List.getElem?_eq_some_iff.1 hsymbol).1
    obtain ⟨other, hother, -, hname, hqualified, -, hscope⟩ :=
      hsame index _ (List.getElem?_eq_getElem hlt)
    obtain rfl := Option.some.inj (hother.symm.trans hsymbol)
    exact ⟨_, List.getElem?_eq_getElem hlt, hname, hscope, hqualified⟩
  refine ⟨?_, fun id scope hid => (hformed.scopes id scope hid).extend hextends, hformed.imports,
    ?_, hformed.rooted⟩
  · intro index now hnow
    obtain ⟨symbol, hsymbol, hkind, hname, hqualified, hparent, hscope⟩ := hsame index now hnow
    have hfits := (hformed.symbols index symbol hsymbol).extend hextends (Nat.le_refl _)
      (List.getElem?_eq_some_iff.1 hsymbol).1.le
    refine ⟨hkind ▸ hfits.kind, hparent ▸ hfits.parent, ?_, hscope ▸ hfits.scope⟩
    rw [hqualified, hname, hparent]
    exact hfits.qualifiedName
  · intro reference hreference
    obtain ⟨hscope, howner⟩ := hformed.references reference hreference
    exact ⟨hscope, fun owner h => hlength ▸ howner owner h⟩

/-- What the module level means by a name is a symbol that exists. -/
theorem WellFormed.topLevelSymbol?_lt {facts : FileFacts} (hformed : facts.WellFormed)
    {name : String} {index : Nat} (hfound : facts.topLevelSymbol? name = some index) :
    index < facts.symbols.length := by
  rw [topLevelSymbol?] at hfound
  split at hfound
  · rename_i found hdefinition
    obtain rfl := Option.some.inj hfound
    obtain ⟨scope, hscope, hname⟩ := Option.bind_eq_some_iff.1 hdefinition
    obtain ⟨symbol, hsymbol, -⟩ :=
      (hformed.scopes ScopeTree.root scope hscope).definition name found hname
    exact (List.getElem?_eq_some_iff.1 hsymbol).1
  · cases hfound

end FileFacts

namespace Walk

variable {α β : Type}

/-- Started with at least `count` symbols, the walk keeps the facts well formed, and afterwards there
are as many symbols as its answer calls for. -/
def Yields (count : Nat) (needs : α → Nat) (walk : Walk α) : Prop :=
  ∀ place facts, facts.WellFormed → place.Fits facts → count ≤ facts.symbols.length →
    (walk place facts).2.WellFormed ∧ facts.Grows (walk place facts).2 ∧
      needs (walk place facts).1 ≤ (walk place facts).2.symbols.length

/-- The walk keeps the facts well formed. -/
def Keeps (count : Nat) (walk : Walk α) : Prop :=
  Yields count (fun _ => 0) walk

/-- How many symbols there have to be for an index to stand for one of them. -/
def needsOne (index : Nat) : Nat := index + 1

def needsOption : Option Nat → Nat
  | some index => index + 1
  | none => 0

theorem Yields.mono {count larger : Nat} {needs : α → Nat} {walk : Walk α}
    (hwalk : Yields count needs walk) (hle : count ≤ larger) : Yields larger needs walk :=
  fun place facts hformed hfits hcount => hwalk place facts hformed hfits (hle.trans hcount)

theorem Yields.keeps {count : Nat} {needs : α → Nat} {walk : Walk α}
    (hwalk : Yields count needs walk) : Keeps count walk := by
  intro place facts hformed hfits hcount
  obtain ⟨hafter, hgrows, _⟩ := hwalk place facts hformed hfits hcount
  exact ⟨hafter, hgrows, Nat.zero_le _⟩

theorem Yields.bind {count : Nat} {needs : α → Nat} {wants : β → Nat} {walk : Walk α}
    {next : α → Walk β} (hwalk : Yields count needs walk)
    (hnext : ∀ answer, Yields (max count (needs answer)) wants (next answer)) :
    Yields count wants (walk >>= next) := by
  intro place facts hformed hfits hcount
  obtain ⟨hmiddle, hgrows, hneeds⟩ := hwalk place facts hformed hfits hcount
  obtain ⟨hafter, hgrows', hwants⟩ := hnext (walk place facts).1 place (walk place facts).2 hmiddle
    (hfits.grow hgrows) (max_le (hcount.trans hgrows.symbols) hneeds)
  exact ⟨hafter, hgrows.trans hgrows', hwants⟩

theorem Keeps.bind {count : Nat} {wants : β → Nat} {walk : Walk α} {next : α → Walk β}
    (hwalk : Keeps count walk) (hnext : ∀ answer, Yields count wants (next answer)) :
    Yields count wants (walk >>= next) :=
  Yields.bind hwalk fun answer => (hnext answer).mono (Nat.le_max_left count 0)

theorem yields_pure {count : Nat} {needs : α → Nat} (answer : α) (hneeds : needs answer ≤ count) :
    Yields count needs (pure answer : Walk α) :=
  fun _ facts hformed _ hcount => ⟨hformed, .refl facts, hneeds.trans hcount⟩

theorem keeps_pure {count : Nat} (answer : α) : Keeps count (pure answer : Walk α) :=
  yields_pure answer (Nat.zero_le count)

theorem keeps_read {count : Nat} : Keeps count (read : Walk Place) :=
  fun _ facts hformed _ _ => ⟨hformed, .refl facts, Nat.zero_le _⟩

theorem keeps_get {count : Nat} : Keeps count (get : Walk FileFacts) :=
  fun _ facts hformed _ _ => ⟨hformed, .refl facts, Nat.zero_le _⟩

/-- What is looked up in the facts may be an index of a symbol there. -/
theorem yields_get_bind {count : Nat} {wants : α → Nat} {next : FileFacts → Walk α}
    (hnext : ∀ facts, facts.WellFormed →
      Yields (max count facts.symbols.length) wants (next facts)) :
    Yields count wants (get >>= next) :=
  fun place facts hformed hfits hcount =>
    hnext facts hformed place facts hformed hfits (max_le hcount (Nat.le_refl _))

theorem keeps_forM {count : Nat} {items : List α} {walk : α → Walk Unit}
    (hwalk : ∀ item ∈ items, Keeps count (walk item)) : Keeps count (items.forM walk) := by
  induction items with
  | nil => exact keeps_pure ()
  | cons item rest ih =>
    exact (hwalk item List.mem_cons_self).bind fun _ =>
      ih fun other hother => hwalk other (List.mem_cons_of_mem item hother)

theorem keeps_optionForM {count : Nat} {item : Option α} {walk : α → Walk Unit}
    (hwalk : ∀ found, item = some found → Keeps count (walk found)) :
    Keeps count (item.forM walk) := by
  cases item with
  | none => exact keeps_pure ()
  | some found => exact hwalk found rfl

theorem keeps_mapM {count : Nat} {items : List α} {walk : α → Walk β}
    (hwalk : ∀ item ∈ items, Keeps count (walk item)) : Keeps count (items.mapM walk) := by
  induction items with
  | nil => exact keeps_pure []
  | cons item rest ih =>
    rw [List.mapM_cons]
    exact (hwalk item List.mem_cons_self).bind fun _ =>
      (ih fun other hother => hwalk other (List.mem_cons_of_mem item hother)).bind fun _ =>
      keeps_pure _

theorem keeps_optionMapM {count : Nat} {item : Option α} {walk : α → Walk β}
    (hwalk : ∀ found, Keeps count (walk found)) : Keeps count (item.mapM walk) := by
  cases item with
  | none => exact keeps_pure none
  | some found => exact (hwalk found).bind fun _ => keeps_pure _

theorem yields_foldlM {count : Nat} {items : List β} {needs : α → Nat} {walk : α → β → Walk α}
    (hwalk : ∀ state item, Yields (max count (needs state)) needs (walk state item)) {start : α}
    (hstart : needs start ≤ count) : Yields count needs (items.foldlM walk start) := by
  suffices h : ∀ state, Yields (max count (needs state)) needs (items.foldlM walk state) from
    (h start).mono (max_le (Nat.le_refl _) hstart)
  induction items with
  | nil => exact fun state => yields_pure state (Nat.le_max_right _ _)
  | cons item rest ih =>
    intro state
    rw [List.foldlM_cons]
    refine (hwalk state item).bind fun next => (ih next).mono ?_
    exact max_le ((Nat.le_max_left _ _).trans (Nat.le_max_left _ _)) (Nat.le_max_right _ _)

/-- A change of the facts that adds to them at most. -/
theorem keeps_modify {count : Nat} {change : FileFacts → FileFacts}
    (hchange : ∀ facts, facts.WellFormed → count ≤ facts.symbols.length →
      (change facts).WellFormed ∧ facts.Grows (change facts)) :
    Keeps count (modify change : Walk Unit) := by
  intro place facts hformed _ hcount
  obtain ⟨hafter, hgrows⟩ := hchange facts hformed hcount
  exact ⟨hafter, hgrows, Nat.zero_le _⟩

/-- A walk in a place that fits whenever the present one does. -/
theorem keeps_withReader {count : Nat} {move : Place → Place} {walk : Walk Unit}
    (hmove : ∀ place facts, place.Fits facts → count ≤ facts.symbols.length →
      (move place).Fits facts)
    (hwalk : Keeps count walk) : Keeps count (withReader move walk) :=
  fun place facts hformed hfits hcount =>
    hwalk (move place) facts hformed (hmove place facts hfits hcount) hcount

/-! ### Walks that only look -/

theorem keeps_textOf {count : Nat} (node : Tree) : Keeps count (textOf node) :=
  keeps_read.bind fun _ => keeps_pure _

theorem keeps_sourceRange {count : Nat} (node : Tree) : Keeps count (sourceRange node) :=
  keeps_read.bind fun _ => keeps_pure _

theorem keeps_scope? {count : Nat} : Keeps count scope? :=
  keeps_get.bind fun _ => keeps_read.bind fun _ => keeps_pure _

theorem keeps_inFunction {count : Nat} : Keeps count inFunction :=
  keeps_scope?.bind fun _ => keeps_pure _

theorem keeps_enclosingClass? {count : Nat} : Keeps count enclosingClass? :=
  keeps_read.bind fun _ => keeps_get.bind fun _ => keeps_pure _

theorem keeps_isSelf {count : Nat} (name : String) : Keeps count (isSelf name) :=
  keeps_enclosingClass?.bind fun _ => keeps_read.bind fun _ => keeps_pure _

theorem keeps_declaredHere {count : Nat} (name : String) : Keeps count (declaredHere name) := by
  refine keeps_scope?.bind fun scope => ?_
  split
  · exact keeps_pure _
  · exact keeps_pure _

theorem keeps_memberChain? {count : Nat} (shape : MemberShape) (node : Tree) :
    Keeps count (memberChain? shape node) :=
  keeps_read.bind fun _ => keeps_pure _

/-! ### Walks that add facts -/

theorem yields_defineNamed {count : Nat} {kind : NodeKind} (hkind : kind.isSymbol = true)
    (name : String) (nameRange : ByteRange) (definition : Tree) (exported : Bool) :
    Yields count needsOne (defineNamed kind name nameRange definition exported) := by
  intro place facts hformed hfits _
  have hafter := hformed.define {
      kind, name, nameRange, exported, bases := []
      qualifiedName := match place.owner.bind fun owner => facts.symbols[owner]? with
        | some owner => owner.qualifiedName ++ "." ++ name
        | none => name
      body := (Text.slice? place.text definition.range.start definition.range.stop).getD ""
      range := SourceRange.ofBytes place.text definition.range
      parent := place.owner, scope := place.scope
      shape := shapeOf ((Text.slice? place.text definition.range.start definition.range.stop).getD "")
        definition.range.start nameRange }
    ⟨hkind, hfits.owner, rfl, hfits.scope⟩
  have hlength : (defineNamed kind name nameRange definition exported place facts).2.symbols.length =
      facts.symbols.length + 1 := List.length_append
  have hgrows : facts.Grows (defineNamed kind name nameRange definition exported place facts).2 :=
    .of_modify (by omega) rfl fun scope => FileFacts.parent_define scope name _
  exact ⟨hafter, hgrows, hlength.ge⟩

theorem yields_define {count : Nat} {kind : NodeKind} (name definition : Tree) (exported : Bool)
    (hkind : kind.isSymbol = true) :
    Yields count needsOne (define kind name definition exported) :=
  (keeps_textOf name).bind fun _ => yields_defineNamed hkind _ _ definition exported

/-- A walk in a scope that is opened for it. -/
theorem keeps_openScope {count : Nat} (kind : ScopeKind) (range : ByteRange) (owner : Option Nat)
    (howner : needsOption owner ≤ count) {move : ScopeId → Place → Place} {walk : Walk Unit}
    (hmove : ∀ scope place facts, scope < facts.scopes.size → place.Fits facts →
      count ≤ facts.symbols.length → (move scope place).Fits facts)
    (hwalk : Keeps count walk) :
    Keeps count (openScope kind range owner >>= fun scope => withReader (move scope) walk) := by
  intro place facts hformed hfits hcount
  have hlive : ∀ symbol, owner = some symbol → symbol < facts.symbols.length := by
    rintro symbol rfl
    exact (Nat.lt_of_succ_le howner).trans_le hcount
  set opened : FileFacts :=
    { facts with scopes := facts.scopes.push kind place.scope range owner }
  have hsize : opened.scopes.size = facts.scopes.size + 1 := ScopeTree.size_push ..
  have hgrows : facts.Grows opened := .of_push hformed.rooted kind place.scope range owner
  have hinside := hmove facts.scopes.nextId place opened (hsize ▸ Nat.lt_succ_self _)
    (hfits.grow hgrows) hcount
  obtain ⟨hafter, hgrows', -⟩ := hwalk (move facts.scopes.nextId place) opened
    (hformed.openScope hfits.scope kind range hlive) hinside hcount
  exact ⟨hafter, hgrows.trans hgrows', Nat.zero_le _⟩

theorem keeps_inSymbol {count symbol : Nat} (hsymbol : symbol < count) (kind : ScopeKind)
    (node : Tree) {walk : Walk Unit} (hwalk : Keeps count walk) :
    Keeps count (inSymbol symbol kind node walk) := by
  refine keeps_openScope kind node.range (some symbol) hsymbol ?_ hwalk
  rintro scope place facts hscope hfits hcount
  refine ⟨hscope, ?_⟩
  rintro owner ⟨⟩
  exact hsymbol.trans_le hcount

theorem keeps_inAnonymous {count : Nat} (kind : ScopeKind) (node : Tree) {walk : Walk Unit}
    (hwalk : Keeps count walk) : Keeps count (inAnonymous kind node walk) :=
  keeps_openScope kind node.range none (Nat.zero_le _)
    (fun _ _ _ hscope hfits _ => ⟨hscope, hfits.owner⟩) hwalk

theorem keeps_withOwner {count symbol : Nat} (hsymbol : symbol < count) {walk : Walk Unit}
    (hwalk : Keeps count walk) : Keeps count (withOwner symbol walk) := by
  refine keeps_withReader ?_ hwalk
  intro place facts hfits hcount
  refine ⟨hfits.scope, ?_⟩
  rintro owner ⟨⟩
  exact hsymbol.trans_le hcount

theorem keeps_withSelfName {count : Nat} (name : String) {walk : Walk Unit}
    (hwalk : Keeps count walk) : Keeps count (withSelfName name walk) :=
  keeps_withReader (fun _ _ hfits _ => ⟨hfits.scope, hfits.owner⟩) hwalk

theorem keeps_bindLocal {count : Nat} (name : String) : Keeps count (bindLocal name) := by
  refine keeps_read.bind fun place => ?_
  split
  · exact keeps_modify fun facts hformed _ =>
      ⟨hformed.bindLocal place.scope name,
        .of_modify (Nat.le_refl _) rfl fun scope => FileFacts.parent_define scope name .plain⟩
  · exact keeps_pure ()

theorem keeps_bindPattern {count : Nat} (identifiers : List String) (node : Tree) :
    Keeps count (bindPattern identifiers node) :=
  keeps_forM fun name _ => (keeps_textOf name).bind fun _ => keeps_bindLocal _

theorem keeps_pushReference {count : Nat} (target : NameRef) (kind : RefKind) :
    Keeps count (pushReference target kind) :=
  fun _ _ hformed hfits _ =>
    ⟨hformed.refer hfits.scope hfits.owner, ⟨Nat.le_refl _, Nat.le_refl _, rfl⟩, Nat.zero_le _⟩

theorem keeps_referencePath {count : Nat} (target : NameRef) :
    Keeps count (referencePath target) := by
  rw [referencePath]
  split
  · exact keeps_pure ()
  · exact keeps_pushReference target .name

theorem keeps_reference {count : Nat} (node : Tree) : Keeps count (reference node) :=
  (keeps_textOf node).bind fun _ => keeps_referencePath _

theorem keeps_selfMember {count : Nat} (member : String) (range : ByteRange) :
    Keeps count (selfMember member range) :=
  keeps_pushReference _ .selfMember

theorem keeps_stringLookup {count : Nat} (name : String) (range : ByteRange) :
    Keeps count (stringLookup name range) := by
  rw [stringLookup]
  split
  · exact keeps_pushReference _ .stringLookup
  · exact keeps_pure ()

theorem keeps_importing {count : Nat} (fact : ImportFact) : Keeps count (importing fact) := by
  intro place facts hformed hfits _
  refine ⟨hformed.importing { fact with scope := place.scope } hfits.scope, ?_, Nat.zero_le _⟩
  show facts.Grows { facts with scopes := if fact.wildcard then _ else _, imports := _ }
  split
  · exact .of_modify (Nat.le_refl _) rfl fun _ => rfl
  · split
    · exact .of_modify (Nat.le_refl _) rfl fun _ => rfl
    · exact ⟨Nat.le_refl _, Nat.le_refl _, rfl⟩

theorem keeps_addBase {count : Nat} (symbol : Nat) (base : NameRef) :
    Keeps count (addBase symbol base) := by
  rw [addBase]
  split
  · exact keeps_pure ()
  · refine keeps_modify fun facts hformed _ => ?_
    refine ⟨hformed.mapSymbols (List.length_modify ..) ?_,
      ⟨(List.length_modify ..).ge, Nat.le_refl _, rfl⟩⟩
    intro index now hnow
    rw [List.getElem?_modify] at hnow
    obtain ⟨old, hold, rfl⟩ := Option.map_eq_some_iff.1 hnow
    refine ⟨old, hold, ?_⟩
    split <;> exact ⟨rfl, rfl, rfl, rfl, rfl⟩

theorem keeps_markExported {count : Nat} (name : String) : Keeps count (markExported name) := by
  refine keeps_modify fun facts hformed _ => ?_
  split
  · exact ⟨hformed, .refl facts⟩
  · exact ⟨hformed.congr rfl rfl rfl rfl, ⟨Nat.le_refl _, Nat.le_refl _, rfl⟩⟩

theorem keeps_setDefaultExport {count : Nat} (name : String) :
    Keeps count (setDefaultExport name) := by
  refine Keeps.bind (keeps_modify fun facts hformed _ => ?_) fun _ => keeps_markExported name
  exact ⟨hformed.congr rfl rfl rfl rfl, ⟨Nat.le_refl _, Nat.le_refl _, rfl⟩⟩

theorem keeps_setPackage {count : Nat} (package : String) : Keeps count (setPackage package) :=
  keeps_modify fun _ hformed _ =>
    ⟨hformed.congr rfl rfl rfl rfl, ⟨Nat.le_refl _, Nat.le_refl _, rfl⟩⟩

/-! ### Going on below a node -/

section Visit

variable {visit : Visit} (hvisit : ∀ node, Keeps 0 (visit node))

include hvisit

theorem keeps_visit {count : Nat} (node : Tree) : Keeps count (visit node) :=
  (hvisit node).mono (Nat.zero_le count)

theorem keeps_visitChildren {count : Nat} (node : Tree) : Keeps count (visitChildren visit node) :=
  keeps_forM fun child _ => keeps_visit hvisit child

theorem keeps_visitField {count : Nat} (node : Tree) (field : String) :
    Keeps count (visitField visit node field) := by
  rw [visitField]
  split
  · exact keeps_visit hvisit _
  · exact keeps_pure ()

theorem keeps_memberUse {count : Nat} (shape : MemberShape) (node : Tree) :
    Keeps count (memberUse visit shape node) := by
  refine (keeps_memberChain? shape node).bind fun chain => ?_
  split
  · exact keeps_visit hvisit _
  · refine (keeps_isSelf _).bind fun isSelf => ?_
    split
    · exact keeps_selfMember _ _
    · split
      · exact keeps_pure ()
      · exact keeps_referencePath _

end Visit

/-- What every node keeps, a whole tree keeps. -/
theorem keeps_unroll {step : Visit → Visit}
    (hstep : ∀ visit, (∀ node, Keeps 0 (visit node)) → ∀ node, Keeps 0 (step visit node))
    (fuel : Nat) (node : Tree) : Keeps 0 (unroll step fuel node) := by
  induction fuel generalizing node with
  | zero => exact keeps_pure ()
  | succ fuel ih => exact hstep _ ih node

end Walk

end CodeGraph
