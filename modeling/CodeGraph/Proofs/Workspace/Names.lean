import CodeGraph.Proofs.Graph.Edges
import CodeGraph.Proofs.Workspace.Bind
import Mathlib.Data.List.Induction

/-!
# What a name stands for, up to the names of nodes

The uses of a file depend on the files that are there and on what imports stand for. Two workspaces
that agree on these, up to a pairing of their nodes, call for the same edges.
-/

namespace CodeGraph

/-! ### Lists of nodes that are related one to one -/

section OneToOne

variable {related : NodeId → NodeId → Prop}

/-- A pairing of nodes. -/
structure OneToOne (related : NodeId → NodeId → Prop) : Prop where
  left : ∀ {first second other}, related first other → related second other → first = second
  right : ∀ {other first second}, related other first → related other second → first = second

theorem OneToOne.eq_iff (honeToOne : OneToOne related) {first second first' second' : NodeId}
    (hfirst : related first first') (hsecond : related second second') :
    first = second ↔ first' = second' := by
  constructor
  · rintro rfl
    exact honeToOne.right hfirst hsecond
  · rintro rfl
    exact honeToOne.left hfirst hsecond

theorem OneToOne.mem_iff (honeToOne : OneToOne related) {xs ys : List NodeId}
    (hrel : List.Forall₂ related xs ys) {x y : NodeId} (hxy : related x y) : x ∈ xs ↔ y ∈ ys := by
  induction hrel with
  | nil => simp
  | cons hhead _ ih => rw [List.mem_cons, List.mem_cons, ih, honeToOne.eq_iff hxy hhead]

theorem OneToOne.idxOf? (honeToOne : OneToOne related) {xs ys : List NodeId}
    (hrel : List.Forall₂ related xs ys) {x y : NodeId} (hxy : related x y) :
    xs.idxOf? x = ys.idxOf? y := by
  induction hrel with
  | nil => rfl
  | @cons first second xs ys hhead _ ih =>
    rw [List.idxOf?_cons, List.idxOf?_cons, ih]
    have hsame : (first == x) = (second == y) := by
      rw [Bool.eq_iff_iff, beq_iff_eq, beq_iff_eq]
      exact honeToOne.eq_iff hhead hxy
    rw [hsame]

end OneToOne

/-! ### Workspaces -/

/-- Lookups that found the same. -/
inductive Lookup.Twin (related : NodeId → NodeId → Prop) : Lookup → Lookup → Prop
  | found {left right : NodeId} (hrelated : related left right) (consumed : Nat) :
    Twin related (.found left consumed) (.found right consumed)
  | hidden : Twin related .hidden .hidden
  | missing : Twin related .missing .missing

/-- Edges that join the same nodes in the same way. -/
structure Edge.Twin (related : NodeId → NodeId → Prop) (left right : Edge) : Prop where
  source : related left.source right.source
  target : related left.target right.target
  kind : left.kind = right.kind
  evidence : left.evidence = right.evidence
  confidence : left.confidence = right.confidence

namespace Workspace

/-- Two imports that stand for the same. -/
def SameBinding (related : NodeId → NodeId → Prop) (left right : Workspace)
    (first second : NodeId) : Prop :=
  Option.Rel (Binding.Twin related) (left.bindingAt? first) (right.bindingAt? second)

/-- Workspaces that show the same files, whose imports stand for the same. -/
structure Mirrors (related : NodeId → NodeId → Prop) (left right : Workspace) : Prop where
  oneToOne : OneToOne related
  files : SameFiles related (SameBinding related left right) left right
  shown : ∀ first second, related first second → ∃ node node',
    left.graph.node? first = some node ∧ right.graph.node? second = some node' ∧
      node.kind = node'.kind ∧ node.path = node'.path

/-- The edges that a file asks for, before the strongest of each key is chosen. -/
def wantedEdges (workspace : Workspace) (file : SourceFile) : List Edge :=
  (file.facts.references.filterMap (workspace.referenceEdge? file) ++
    workspace.inheritanceEdges file).filter fun edge => edge.source ≠ edge.target

theorem importTarget?_eq (workspace : Workspace) (file : SourceFile) (index : Nat) :
    workspace.importTarget? file index = (file.imports[index]?).bind fun id =>
      (workspace.bindingAt? id).bind fun binding => binding.target?.bind fun target =>
        if workspace.graph.contains target then some target else none := by
  simp only [importTarget?, bindingAt?, Option.bind_eq_bind, Option.bind_assoc]

section Mirrors

variable {related : NodeId → NodeId → Prop} {left right : Workspace}
  (hmirrors : Mirrors related left right)

include hmirrors

theorem Mirrors.contains {first second : NodeId} (hrelated : related first second) :
    left.graph.contains first ∧ right.graph.contains second := by
  obtain ⟨node, node', hnode, hnode', -⟩ := hmirrors.shown first second hrelated
  exact ⟨Graph.contains_of_node? hnode, Graph.contains_of_node? hnode'⟩

variable {first second : SourceFile}
  (htwin : first.Twin related (SameBinding related left right) second)

include htwin

theorem Mirrors.importTarget? (index : Nat) :
    Option.Rel related (left.importTarget? first index) (right.importTarget? second index) := by
  rw [importTarget?_eq, importTarget?_eq]
  refine rel_bind (rel_getElem? htwin.imports index) fun import' import'' hbinding => ?_
  refine rel_bind hbinding fun binding binding' htwin => ?_
  refine rel_bind htwin.target? fun target target' htarget => ?_
  obtain ⟨hleft, hright⟩ := hmirrors.contains htarget
  rw [if_pos hleft, if_pos hright]
  exact .some htarget

theorem Mirrors.wildcardMember? (name : String) (index : Nat) :
    Option.Rel related (left.wildcardMember? first name index)
      (right.wildcardMember? second name index) := by
  rw [Workspace.wildcardMember?, Workspace.wildcardMember?, htwin.planned?, htwin.language]
  refine rel_bind (hmirrors.importTarget? htwin index) fun _ _ _ => ?_
  cases second.planned? index with
  | none => exact .none
  | some planned =>
    refine rel_bind (hmirrors.files.lookupMember
      (hmirrors.files.firstPresent second.language planned.2.candidates) name) fun _ _ htwin => ?_
    exact htwin.target?

theorem Mirrors.lookupImports (scope : Scope) (target : NameRef) :
    Lookup.Twin related (left.lookupImports first scope target)
      (right.lookupImports second scope target) := by
  rw [Workspace.lookupImports, Workspace.lookupImports]
  simp only
  split
  · rename_i index taken _
    rcases rel_cases (hmirrors.importTarget? htwin index) with
      ⟨hleft, hright⟩ | ⟨_, _, hleft, hright, hrelated⟩
    · rw [hleft, hright]
      exact .hidden
    · rw [hleft, hright]
      exact .found hrelated taken
  · rcases rel_cases (rel_findSome?_same scope.wildcards
      fun index => hmirrors.wildcardMember? htwin target.name index) with
      ⟨hleft, hright⟩ | ⟨_, _, hleft, hright, hrelated⟩
    · rw [hleft, hright]
      exact .missing
    · rw [hleft, hright]
      exact .found hrelated 0

theorem Mirrors.lookupInScope (scope : Scope) (target : NameRef) :
    Lookup.Twin related (left.lookupInScope first scope target)
      (right.lookupInScope second scope target) := by
  rw [Workspace.lookupInScope, Workspace.lookupInScope]
  split
  · exact .hidden
  · rename_i index _
    rcases rel_cases (htwin.symbol? index) with ⟨hleft, hright⟩ | ⟨_, _, hleft, hright, hrelated⟩
    · rw [hleft, hright]
      exact .hidden
    · rw [hleft, hright]
      exact .found hrelated 0
  · exact hmirrors.lookupImports htwin scope target

theorem Mirrors.lookupInScopes (target : NameRef) (scopes : List Scope) :
    Lookup.Twin related (left.lookupInScopes first target scopes)
      (right.lookupInScopes second target scopes) := by
  induction scopes with
  | nil => exact .missing
  | cons scope rest ih =>
    rw [Workspace.lookupInScopes, Workspace.lookupInScopes]
    have hscope := hmirrors.lookupInScope htwin scope target
    revert hscope
    generalize left.lookupInScope first scope target = answer
    generalize right.lookupInScope second scope target = answer'
    intro hscope
    cases hscope with
    | found hrelated consumed => exact .found hrelated consumed
    | hidden => exact .hidden
    | missing => exact ih

/-! ### Packages and paths -/

theorem Mirrors.lookupInPackage (name : String) :
    Option.Rel related (left.lookupInPackage first name) (right.lookupInPackage second name) := by
  rw [Workspace.lookupInPackage, Workspace.lookupInPackage, htwin.language]
  split
  · rw [Workspace.packageSiblings, Workspace.packageSiblings, htwin.path, htwin.language]
    split
    · exact .none
    · refine rel_findSome? (rel_filter (hmirrors.files.packageFiles _ second.language)
        fun sibling sibling' hsibling => ?_) fun sibling sibling' hsibling => hsibling.topLevel name
      rw [hsibling.path, hsibling.facts, htwin.facts]
  · exact .none

theorem Mirrors.facade : List.Forall₂
    (SourceFile.Twin related (SameBinding related left right)) (left.facade first)
      (right.facade second) := by
  rw [Workspace.facade, Workspace.facade, htwin.path, htwin.language]
  split
  · split
    · exact hmirrors.files.packageFiles _ second.language
    · exact .cons htwin .nil
  · exact .cons htwin .nil

omit htwin

theorem Mirrors.symbolNode? {current current' : NodeId} (hrelated : related current current') :
    Option.Rel related (left.symbolNode? current) (right.symbolNode? current') := by
  obtain ⟨node, node', hnode, hnode', hkind, -⟩ := hmirrors.shown current current' hrelated
  simp only [Workspace.symbolNode?, hnode, hnode', Option.bind_eq_bind, Option.bind_some, hkind]
  split
  · exact .some hrelated
  · exact .none

theorem Mirrors.fileMember? (path : Path) (name : String) :
    Option.Rel related (left.fileMember? path name) (right.fileMember? path name) := by
  refine rel_bind (hmirrors.files.file? path) fun first second htwin => ?_
  refine rel_bind (hmirrors.files.lookupMember (hmirrors.facade htwin) name) fun _ _ htwin => ?_
  exact htwin.target?

/-- A symbol is declared in twin files, at the same index. -/
theorem Mirrors.locate? {current current' : NodeId} (hrelated : related current current') :
    Option.Rel (fun place place' : SourceFile × Nat =>
        place.1.Twin related (SameBinding related left right) place'.1 ∧ place.2 = place'.2)
      (left.locate? current) (right.locate? current') := by
  obtain ⟨node, node', hnode, hnode', hkind, hpath⟩ := hmirrors.shown current current' hrelated
  simp only [Workspace.locate?, hnode, hnode', Option.bind_eq_bind, Option.bind_some, hkind, hpath]
  refine rel_bind (?_ : Option.Rel Eq _ _) fun _ _ _ => ?_
  · cases (guard (node'.kind.isSymbol = true) : Option Unit) with
    | none => exact .none
    | some => exact .some rfl
  · refine rel_bind (hmirrors.files.file? node'.path) fun first second htwin => ?_
    rw [SourceFile.symbolIndex?, SourceFile.symbolIndex?,
      hmirrors.oneToOne.idxOf? htwin.symbols hrelated]
    cases second.symbols.idxOf? current' with
    | none => exact .none
    | some index => exact .some ⟨htwin, rfl⟩

theorem Mirrors.classMember? {current current' : NodeId} (hrelated : related current current')
    (name : String) :
    Option.Rel related (left.classMember? current name) (right.classMember? current' name) := by
  refine rel_bind (hmirrors.locate? hrelated) fun (file, index) (file', index') hplace => ?_
  obtain ⟨htwin, rfl⟩ := hplace
  exact htwin.member? index name

/-- By induction on the names along the path. -/
theorem Mirrors.follow {current current' : NodeId} (hrelated : related current current')
    (names : List String) :
    Option.Rel related (left.follow current names) (right.follow current' names) := by
  induction names generalizing current current' with
  | nil => exact hmirrors.symbolNode? hrelated
  | cons name rest ih =>
    obtain ⟨node, node', hnode, hnode', hkind, hpath⟩ := hmirrors.shown current current' hrelated
    rw [Workspace.follow, Workspace.follow, hnode, hnode']
    simp only [hkind, hpath]
    split
    · rcases rel_cases (hmirrors.fileMember? node'.path name) with
        ⟨hleft, hright⟩ | ⟨_, _, hleft, hright, hnext⟩
      · rw [hleft, hright]
        exact .none
      · rw [hleft, hright]
        exact ih hnext
    · rcases rel_cases (hmirrors.classMember? hrelated name) with
        ⟨hleft, hright⟩ | ⟨_, _, hleft, hright, hnext⟩
      · rw [hleft, hright]
        exact hmirrors.symbolNode? hrelated
      · rw [hleft, hright]
        exact ih hnext
    · exact hmirrors.symbolNode? hrelated

include htwin

theorem Mirrors.resolveName (scope : ScopeId) (target : NameRef) :
    Option.Rel related (left.resolveName first scope target)
      (right.resolveName second scope target) := by
  have hscopes : visibleScopes first scope = visibleScopes second scope := by
    rw [visibleScopes, htwin.facts, htwin.language, visibleScopes]
  rw [Workspace.resolveName, Workspace.resolveName, hscopes]
  have hlookup := hmirrors.lookupInScopes htwin target (visibleScopes second scope)
  revert hlookup
  generalize left.lookupInScopes first target (visibleScopes second scope) = answer
  generalize right.lookupInScopes second target (visibleScopes second scope) = answer'
  intro hlookup
  cases hlookup with
  | found hrelated consumed => exact hmirrors.follow hrelated _
  | hidden => exact .none
  | missing =>
    rcases rel_cases (hmirrors.lookupInPackage htwin target.name) with
      ⟨hleft, hright⟩ | ⟨_, _, hleft, hright, hrelated⟩
    · simp only [hleft, hright]
      exact .none
    · simp only [hleft, hright]
      exact hmirrors.follow hrelated _

/-! ### Classes -/

omit htwin in
theorem Mirrors.isClass {current current' : NodeId} (hrelated : related current current') :
    left.isClass current = right.isClass current' := by
  obtain ⟨node, node', hnode, hnode', hkind, -⟩ := hmirrors.shown current current' hrelated
  simp only [Workspace.isClass, hnode, hnode', Option.any_some, hkind]

theorem Mirrors.basesIn (symbol : SymbolFact) :
    List.Forall₂ related (left.basesIn first symbol) (right.basesIn second symbol) :=
  rel_filter (rel_filterMap_same symbol.bases fun base =>
    hmirrors.resolveName htwin symbol.scope base) fun _ _ hrelated => hmirrors.isClass hrelated

omit htwin

theorem Mirrors.basesOf {current current' : NodeId} (hrelated : related current current') :
    List.Forall₂ related (left.basesOf current) (right.basesOf current') := by
  rw [Workspace.basesOf, Workspace.basesOf]
  rcases rel_cases (hmirrors.locate? hrelated) with
    ⟨hleft, hright⟩ | ⟨⟨file, index⟩, ⟨file', index'⟩, hleft, hright, htwin, hindex⟩
  · rw [hleft, hright]
    exact .nil
  · rw [hleft, hright]
    obtain rfl : index = index' := hindex
    have hfacts : file.facts = file'.facts := htwin.facts
    simp only [hfacts]
    split
    · exact .nil
    · exact hmirrors.basesIn htwin _

/-- By induction on the number of turns. -/
theorem Mirrors.askInTurn (name : String) (turns : Nat) {seen seen' : List NodeId}
    {waiting waiting' : List (NodeId × Bool)} (hseen : List.Forall₂ related seen seen')
    (hwaiting : List.Forall₂ (fun entry entry' => related entry.1 entry'.1 ∧ entry.2 = entry'.2)
      waiting waiting') :
    Option.Rel (fun member member' : NodeId × Bool =>
        related member.1 member'.1 ∧ member.2 = member'.2)
      (left.askInTurn name turns seen waiting) (right.askInTurn name turns seen' waiting') := by
  induction turns generalizing seen seen' waiting waiting' with
  | zero => exact .none
  | succ turns ih =>
    cases hwaiting with
    | nil => exact .none
    | @cons entry entry' _ _ hentry hrest =>
      obtain ⟨current, inherited⟩ := entry
      obtain ⟨current', _⟩ := entry'
      obtain ⟨hcurrent, rfl⟩ := hentry
      rw [Workspace.askInTurn, Workspace.askInTurn]
      simp only [hmirrors.oneToOne.mem_iff hseen hcurrent]
      split
      · exact ih hseen hrest
      · rcases rel_cases (hmirrors.classMember? hcurrent name) with
          ⟨hleft, hright⟩ | ⟨_, _, hleft, hright, hmember⟩
        · rw [hleft, hright]
          refine ih (List.rel_append hseen (.cons hcurrent .nil)) (List.rel_append hrest ?_)
          rw [List.forall₂_map_left_iff, List.forall₂_map_right_iff]
          exact (hmirrors.basesOf hcurrent).imp fun _ _ hbase => ⟨hbase, rfl⟩
        · rw [hleft, hright]
          exact .some ⟨hmember, rfl⟩

theorem Mirrors.baseCount : left.baseCount = right.baseCount := by
  have hbases : List.Forall₂ Eq
      (left.files.flatMap fun file => file.facts.symbols.flatMap SymbolFact.bases)
      (right.files.flatMap fun file => file.facts.symbols.flatMap SymbolFact.bases) := by
    refine rel_flatMap hmirrors.files fun file file' htwin => ?_
    rw [htwin.facts]
    exact List.forall₂_refl _
  exact hbases.length_eq

theorem Mirrors.nearestMember? {current current' : NodeId} (hrelated : related current current')
    (name : String) :
    Option.Rel (fun member member' : NodeId × Bool =>
        related member.1 member'.1 ∧ member.2 = member'.2)
      (left.nearestMember? current name) (right.nearestMember? current' name) := by
  rw [Workspace.nearestMember?, Workspace.nearestMember?, hmirrors.baseCount]
  exact hmirrors.askInTurn name _ .nil (.cons ⟨hrelated, rfl⟩ .nil)

/-! ### Edges -/

include htwin

omit hmirrors in
theorem twin_userOf (reference : ReferenceFact) :
    related (userOf first reference) (userOf second reference) := by
  refine rel_getD ?_ htwin.node
  cases reference.owner with
  | none => exact .none
  | some owner => exact htwin.symbol? owner

theorem Mirrors.selfMember? (reference : ReferenceFact) :
    Option.Rel (fun member member' : NodeId × Bool =>
        related member.1 member'.1 ∧ member.2 = member'.2)
      (left.selfMember? first reference) (right.selfMember? second reference) := by
  refine rel_bind (?_ : Option.Rel related (surroundingClass? first reference)
    (surroundingClass? second reference)) fun _ _ hclass => hmirrors.nearestMember? hclass _
  rw [surroundingClass?, surroundingClass?, htwin.facts]
  cases reference.owner with
  | none => exact .none
  | some owner =>
    simp only [Option.bind_eq_bind, Option.bind_some]
    cases second.facts.enclosingClass? owner with
    | none => exact .none
    | some index => exact htwin.symbol? index

theorem Mirrors.referenceEdge? (reference : ReferenceFact) :
    Option.Rel (Edge.Twin related) (left.referenceEdge? first reference)
      (right.referenceEdge? second reference) := by
  have huser := twin_userOf htwin reference
  have hnamed := hmirrors.resolveName htwin reference.scope reference.target
  rw [Workspace.referenceEdge?, Workspace.referenceEdge?]
  simp only
  split
  · exact rel_map hnamed fun _ _ htarget => ⟨huser, htarget, rfl, rfl, rfl⟩
  · refine rel_map (hmirrors.selfMember? htwin reference) fun (_, _) (_, _) hmember =>
      ⟨huser, hmember.1, rfl, rfl, ?_⟩
    exact congrArg
      (fun inherited : Bool => if inherited then Confidence.inheritedMember else .ownMember) hmember.2
  · rcases rel_cases (hmirrors.selfMember? htwin reference) with
      ⟨hleft, hright⟩ | ⟨_, _, hleft, hright, hmember⟩
    · rw [hleft, hright]
      exact rel_map hnamed fun _ _ htarget => ⟨huser, htarget, rfl, rfl, rfl⟩
    · rw [hleft, hright]
      exact .some ⟨huser, hmember.1, rfl, rfl, rfl⟩

theorem Mirrors.inheritanceEdges : List.Forall₂ (Edge.Twin related) (left.inheritanceEdges first)
    (right.inheritanceEdges second) := by
  rw [Workspace.inheritanceEdges, Workspace.inheritanceEdges, htwin.facts]
  refine rel_flatMap (rel_zip htwin.symbols _) fun (id, symbol) (id', symbol') hentry => ?_
  obtain ⟨hid, rfl⟩ := hentry
  simp only
  split
  · refine List.forall₂_map_left_iff.2 (List.forall₂_map_right_iff.2 ?_)
    exact (hmirrors.basesIn htwin symbol).imp fun _ _ hbase => ⟨hid, hbase, rfl, rfl, rfl⟩
  · exact .nil

theorem Mirrors.wantedEdges : List.Forall₂ (Edge.Twin related) (left.wantedEdges first)
    (right.wantedEdges second) := by
  rw [Workspace.wantedEdges, Workspace.wantedEdges, htwin.facts]
  refine rel_filter (List.rel_append (rel_filterMap_same _ (hmirrors.referenceEdge? htwin))
    (hmirrors.inheritanceEdges htwin)) fun edge edge' hedge => ?_
  rw [decide_eq_decide]
  exact not_congr (hmirrors.oneToOne.eq_iff hedge.source hedge.target)

end Mirrors

/-! ### Ends of edges -/

/-- Each key is kept once, in the order in which they came. -/
theorem keys_keepStrongest (edges : List Edge) (edge : Edge) :
    (keepStrongest edges edge).map Edge.key =
      if edge.key ∈ edges.map Edge.key then edges.map Edge.key
      else edges.map Edge.key ++ [edge.key] := by
  have hreplaced : (edges.map fun other => if other.key = edge.key then edge else other).map
      Edge.key = edges.map Edge.key := by
    rw [List.map_map]
    refine List.map_congr_left fun other _ => ?_
    simp only [Function.comp_apply]
    split
    · rename_i heq
      exact heq.symm
    · rfl
  rw [keepStrongest]
  split
  · rename_i hnone
    rw [if_neg, List.map_append, List.map_singleton]
    rintro hkey
    obtain ⟨other, hother, hsame⟩ := List.mem_map.1 hkey
    simpa [hsame] using List.find?_eq_none.1 hnone other hother
  · rename_i existing hfind
    have hkey : edge.key ∈ edges.map Edge.key :=
      List.mem_map.2 ⟨existing, List.mem_of_find?_eq_some hfind, by simpa using List.find?_some hfind⟩
    rw [if_pos hkey]
    split
    · rfl
    · exact hreplaced

theorem mem_of_mem_keepStrongest {edges : List Edge} {edge other : Edge}
    (hother : other ∈ keepStrongest edges edge) : other ∈ edges ∨ other = edge := by
  rw [keepStrongest] at hother
  split at hother
  · exact (List.mem_append.1 hother).imp_right List.mem_singleton.1
  · split at hother
    · exact .inl hother
    · obtain ⟨old, hold, rfl⟩ := List.mem_map.1 hother
      split
      · exact .inr rfl
      · exact .inl hold

/-- One edge of each wanted key, as certain as any that is wanted with that key. -/
structure Strongest (wanted kept : List Edge) : Prop where
  keys : (kept.map Edge.key).Nodup
  among : ∀ edge ∈ kept, edge ∈ wanted
  most : ∀ edge ∈ wanted, ∃ top ∈ kept, top.key = edge.key ∧
    edge.confidence.value ≤ top.confidence.value

theorem Strongest.keepStrongest {wanted kept : List Edge} (hkept : Strongest wanted kept)
    (edge : Edge) : Strongest (wanted ++ [edge]) (Workspace.keepStrongest kept edge) where
  keys := by
    rw [keys_keepStrongest]
    split
    · exact hkept.keys
    · rename_i hkey
      exact hkept.keys.append (List.nodup_singleton _) (by simpa using hkey)
  among other hother := by
    obtain hold | rfl := mem_of_mem_keepStrongest hother
    · exact List.mem_append_left _ (hkept.among other hold)
    · exact List.mem_append_right _ List.mem_cons_self
  most := by
    rw [List.forall_mem_append, List.forall_mem_singleton, Workspace.keepStrongest]
    split
    · refine ⟨fun other hother => ?_, edge, by simp, rfl, le_rfl⟩
      obtain ⟨top, htop, hmost⟩ := hkept.most other hother
      exact ⟨top, List.mem_append_left _ htop, hmost⟩
    · rename_i existing hfind
      have hexisting := List.mem_of_find?_eq_some hfind
      have hkey : existing.key = edge.key := by simpa using List.find?_some hfind
      split
      · rename_i hle
        exact ⟨hkept.most, existing, hexisting, hkey, hle⟩
      · rename_i hlt
        have hplaced : edge ∈ kept.map fun other => if other.key = edge.key then edge else other :=
          List.mem_map.2 ⟨existing, hexisting, if_pos hkey⟩
        refine ⟨fun other hother => ?_, edge, hplaced, rfl, le_rfl⟩
        obtain ⟨top, htop, htopKey, hle⟩ := hkept.most other hother
        by_cases hsame : top.key = edge.key
        · obtain rfl := List.inj_on_of_nodup_map hkept.keys htop hexisting (hsame.trans hkey.symm)
          exact ⟨edge, hplaced, hsame.symm.trans htopKey, by omega⟩
        · exact ⟨top, List.mem_map.2 ⟨top, htop, if_neg hsame⟩, htopKey, hle⟩

/-- The edges a file should have are among those it asks for, one of each key. By induction on what is
asked for, from its end. -/
theorem strongest_desiredEdges (workspace : Workspace) (file : SourceFile) :
    Strongest (workspace.wantedEdges file) (workspace.desiredEdges file) := by
  rw [desiredEdges, ← wantedEdges]
  induction workspace.wantedEdges file using List.reverseRecOn with
  | nil => exact ⟨List.nodup_nil, nofun, nofun⟩
  | append_singleton wanted edge ih =>
    rw [List.foldl_concat]
    exact ih.keepStrongest edge

theorem exists_base_of_mem_inheritanceEdges {workspace : Workspace} {file : SourceFile} {edge : Edge}
    (hedge : edge ∈ workspace.inheritanceEdges file) : ∃ id symbol base,
      (id, symbol) ∈ file.symbols.zip file.facts.symbols ∧ symbol.kind = .classDef ∧
        base ∈ workspace.basesIn file symbol ∧ edge = .structural id base .inherits := by
  obtain ⟨⟨id, symbol⟩, hentry, hedge⟩ := List.mem_flatMap.1 hedge
  simp only at hedge
  split at hedge
  · rename_i hclass
    obtain ⟨base, hbase, rfl⟩ := List.mem_map.1 hedge
    exact ⟨id, symbol, base, hentry, hclass, hbase, rfl⟩
  · cases hedge

theorem isPlain_of_mem_wantedEdges {workspace : Workspace} {file : SourceFile} {edge : Edge}
    (hedge : edge ∈ workspace.wantedEdges file) : edge.IsPlain := by
  obtain hedge | hedge := List.mem_append.1 (List.mem_of_mem_filter hedge)
  · obtain ⟨reference, -, hedge⟩ := List.mem_filterMap.1 hedge
    rw [referenceEdge?] at hedge
    simp only at hedge
    split at hedge <;> obtain ⟨found, -, rfl⟩ := Option.map_eq_some_iff.1 hedge <;>
      exact fun hkind => absurd rfl hkind
  · obtain ⟨id, symbol, base, -, -, -, rfl⟩ := exists_base_of_mem_inheritanceEdges hedge
    exact Edge.isPlain_structural _ _ _

/-- Choosing the strongest of each key keeps all keys. -/
theorem mem_keys_desiredEdges {workspace : Workspace} {file : SourceFile} {key : EdgeKey} :
    key ∈ (workspace.desiredEdges file).map Edge.key ↔
      key ∈ (workspace.wantedEdges file).map Edge.key := by
  have hstrongest := workspace.strongest_desiredEdges file
  simp only [List.mem_map]
  constructor
  · rintro ⟨edge, hedge, rfl⟩
    exact ⟨edge, hstrongest.among edge hedge, rfl⟩
  · rintro ⟨edge, hedge, rfl⟩
    obtain ⟨top, htop, hkey, -⟩ := hstrongest.most edge hedge
    exact ⟨top, htop, hkey⟩

/-- A symbol of one of the files. -/
def IsSymbol (workspace : Workspace) (id : NodeId) : Prop :=
  ∃ file ∈ workspace.files, id ∈ file.symbols

section Ends

variable {environment : Environment} {stale pending : Path → Prop} {workspace : Workspace}
  (hstands : workspace.Stands environment stale pending)

include hstands

theorem Stands.isSymbol_of_kind {id : NodeId} {node : Node}
    (hnode : workspace.graph.node? id = some node) (hkind : node.kind.isSymbol = true) :
    workspace.IsSymbol id := by
  obtain ⟨file, hfile, hid⟩ := hstands.covered id node hnode fun h => by
    rw [h] at hkind
    cases hkind
  rcases List.mem_cons.1 hid with rfl | hid
  · rw [hstands.kind_of_node hfile hnode] at hkind
    cases hkind
  · rcases List.mem_append.1 hid with hid | hid
    · exact ⟨file, hfile, hid⟩
    · rw [hstands.kind_of_import hfile hid hnode] at hkind
      cases hkind

theorem Stands.isSymbol_of_symbolNode? {current target : NodeId}
    (htarget : workspace.symbolNode? current = some target) : workspace.IsSymbol target := by
  obtain ⟨node, hnode, hsome⟩ := Option.bind_eq_some_iff.1 htarget
  split at hsome
  · rename_i hkind
    obtain rfl := Option.some.inj hsome
    exact hstands.isSymbol_of_kind hnode hkind
  · cases hsome

/-- Every walk along a path of names ends at a symbol. -/
theorem Stands.isSymbol_of_follow {current target : NodeId} {names : List String}
    (htarget : workspace.follow current names = some target) : workspace.IsSymbol target := by
  induction names generalizing current with
  | nil => exact hstands.isSymbol_of_symbolNode? htarget
  | cons name rest ih =>
    rw [follow] at htarget
    split at htarget
    · cases htarget
    · split at htarget
      · split at htarget
        · exact ih htarget
        · cases htarget
      · split at htarget
        · exact ih htarget
        · exact hstands.isSymbol_of_symbolNode? htarget
      · exact hstands.isSymbol_of_symbolNode? htarget

theorem Stands.isSymbol_of_resolveName {file : SourceFile} {scope : ScopeId} {name : NameRef}
    {target : NodeId} (htarget : workspace.resolveName file scope name = some target) :
    workspace.IsSymbol target := by
  rw [resolveName] at htarget
  split at htarget
  · exact hstands.isSymbol_of_follow htarget
  · cases htarget
  · split at htarget
    · exact hstands.isSymbol_of_follow htarget
    · cases htarget

omit hstands in
theorem isSymbol_of_classMember? {current target : NodeId} {name : String}
    (htarget : workspace.classMember? current name = some target) : workspace.IsSymbol target := by
  obtain ⟨⟨file, index⟩, hlocate, hmember⟩ := Option.bind_eq_some_iff.1 htarget
  obtain ⟨node, -, hrest⟩ := Option.bind_eq_some_iff.1 hlocate
  obtain ⟨_, -, hrest⟩ := Option.bind_eq_some_iff.1 hrest
  obtain ⟨found, hfound, hindex⟩ := Option.bind_eq_some_iff.1 hrest
  obtain ⟨_, -, hplace⟩ := Option.bind_eq_some_iff.1 hindex
  cases hplace
  obtain ⟨member, -, hsymbol⟩ := Option.bind_eq_some_iff.1 hmember
  exact ⟨_, (file?_mem hfound).1, List.mem_of_getElem? hsymbol⟩

omit hstands in
theorem isSymbol_of_askInTurn {name : String} {turns : Nat} {seen : List NodeId}
    {waiting : List (NodeId × Bool)} {member : NodeId × Bool}
    (hmember : workspace.askInTurn name turns seen waiting = some member) :
    workspace.IsSymbol member.1 := by
  induction turns generalizing seen waiting with
  | zero => cases hmember
  | succ turns ih =>
    cases waiting with
    | nil => cases hmember
    | cons entry waiting =>
      rw [askInTurn] at hmember
      split at hmember
      · exact ih hmember
      · split at hmember
        · rename_i found hfound
          obtain rfl := Option.some.inj hmember
          exact isSymbol_of_classMember? hfound
        · exact ih hmember

omit hstands in
theorem isSymbol_of_selfMember? {file : SourceFile} {reference : ReferenceFact}
    {member : NodeId × Bool} (hmember : workspace.selfMember? file reference = some member) :
    workspace.IsSymbol member.1 := by
  obtain ⟨_, -, hfound⟩ := Option.bind_eq_some_iff.1 hmember
  exact isSymbol_of_askInTurn hfound

omit hstands in
theorem userOf_mem (file : SourceFile) (reference : ReferenceFact) :
    userOf file reference = file.node ∨ userOf file reference ∈ file.symbols := by
  rw [userOf]
  cases hsymbol : reference.owner.bind file.symbol? with
  | none => exact .inl rfl
  | some id =>
    obtain ⟨index, -, hindex⟩ := Option.bind_eq_some_iff.1 hsymbol
    exact .inr (List.mem_of_getElem? hindex)

/-- A use leads from a file or one of its symbols to a symbol. -/
structure IsUseOf (workspace : Workspace) (file : SourceFile) (key : EdgeKey) : Prop where
  source : key.source = file.node ∨ key.source ∈ file.symbols
  target : workspace.IsSymbol key.target
  kind : key.kind = .references ∨ key.kind = .inherits

theorem Stands.isUseOf_referenceEdge? {file : SourceFile} {reference : ReferenceFact} {edge : Edge}
    (hedge : workspace.referenceEdge? file reference = some edge) :
    IsUseOf workspace file edge.key := by
  rw [referenceEdge?] at hedge
  simp only at hedge
  split at hedge
  · obtain ⟨target, htarget, rfl⟩ := Option.map_eq_some_iff.1 hedge
    exact ⟨userOf_mem file reference, hstands.isSymbol_of_resolveName htarget, .inl rfl⟩
  · obtain ⟨⟨target, inherited⟩, htarget, rfl⟩ := Option.map_eq_some_iff.1 hedge
    exact ⟨userOf_mem file reference, isSymbol_of_selfMember? htarget, .inl rfl⟩
  · obtain ⟨target, htarget, rfl⟩ := Option.map_eq_some_iff.1 hedge
    refine ⟨userOf_mem file reference, ?_, .inl rfl⟩
    cases hself : workspace.selfMember? file reference with
    | none =>
      rw [hself] at htarget
      exact hstands.isSymbol_of_resolveName htarget
    | some member =>
      rw [hself] at htarget
      obtain rfl := Option.some.inj htarget
      exact isSymbol_of_selfMember? hself

theorem Stands.isUseOf_inheritanceEdges {file : SourceFile} {edge : Edge}
    (hedge : edge ∈ workspace.inheritanceEdges file) : IsUseOf workspace file edge.key := by
  obtain ⟨id, symbol, base, hentry, -, hbase, rfl⟩ := exists_base_of_mem_inheritanceEdges hedge
  obtain ⟨name, -, hname⟩ := List.mem_filterMap.1 (List.mem_of_mem_filter hbase)
  exact ⟨.inr (List.of_mem_zip hentry).1, hstands.isSymbol_of_resolveName hname, .inr rfl⟩

/-- **The edges a file should have are uses.** -/
theorem Stands.isUseOf_desiredEdges {file : SourceFile} {key : EdgeKey}
    (hkey : key ∈ (workspace.desiredEdges file).map Edge.key) : IsUseOf workspace file key := by
  obtain ⟨edge, hedge, rfl⟩ := List.mem_map.1 (mem_keys_desiredEdges.1 hkey)
  rcases List.mem_append.1 (List.mem_of_mem_filter hedge) with hedge | hedge
  · obtain ⟨reference, -, hedge⟩ := List.mem_filterMap.1 hedge
    exact hstands.isUseOf_referenceEdge? hedge
  · exact hstands.isUseOf_inheritanceEdges hedge

end Ends

end Workspace

end CodeGraph
