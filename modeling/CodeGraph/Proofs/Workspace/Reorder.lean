import CodeGraph.Proofs.Workspace.Resolve
import CodeGraph.Workspace.Link

/-!
# What a name means does not depend on the references

What the imports and names of a file stand for is found from its scopes, symbols, imports and nodes.
The references are only asked in turn what they mean. So a workspace in which files make other
references, or the same in another order, gives every name the meaning it had.
-/

namespace CodeGraph

/-- The file with other references. -/
def SourceFile.refer (file : SourceFile) (references : List ReferenceFact) : SourceFile :=
  { file with facts := { file.facts with references } }

namespace SourceFile

variable (file : SourceFile) (references : List ReferenceFact)

@[simp] theorem path_refer : (file.refer references).path = file.path := rfl

@[simp] theorem language_refer : (file.refer references).language = file.language := rfl

@[simp] theorem symbols_refer : (file.refer references).symbols = file.symbols := rfl

@[simp] theorem symbol?_refer : (file.refer references).symbol? = file.symbol? := rfl

@[simp] theorem planned?_refer : (file.refer references).planned? = file.planned? := rfl

@[simp] theorem references_refer : (file.refer references).facts.references = references := rfl

@[simp] theorem facts_symbols_refer : (file.refer references).facts.symbols = file.facts.symbols :=
  rfl

@[simp] theorem enclosingClass?_refer :
    (file.refer references).facts.enclosingClass? = file.facts.enclosingClass? := by
  have hwithin : ∀ fuel index, (file.refer references).facts.enclosingClassWithin fuel index =
      file.facts.enclosingClassWithin fuel index := by
    intro fuel
    induction fuel with
    | zero => exact fun _ => rfl
    | succ fuel ih =>
      intro index
      simp only [FileFacts.enclosingClassWithin, facts_symbols_refer, ih]
  exact funext fun index => hwithin _ index

theorem looksLike_refer : file.LooksLike Eq (file.refer references) where
  path := rfl
  language := rfl
  node := rfl
  sought := fun _ => rfl
  declared := (LooksLike.refl file).declared
  named := fun _ => rfl
  wildcards := rfl

end SourceFile

namespace Workspace

/-- The workspace with the references that each file is given. -/
def refer (workspace : Workspace) (references : SourceFile → List ReferenceFact) : Workspace :=
  { workspace with files := workspace.files.map fun file => file.refer (references file) }

section Refer

variable (workspace : Workspace) (references : SourceFile → List ReferenceFact)

@[simp] theorem graph_refer : (workspace.refer references).graph = workspace.graph := rfl

theorem file?_refer (path : Path) : (workspace.refer references).file? path =
    (workspace.file? path).map fun file => file.refer (references file) := by
  rw [file?, refer, List.find?_map, file?]
  rfl

theorem packageFiles_refer (directory : Path) (language : Language) :
    (workspace.refer references).packageFiles directory language =
      (workspace.packageFiles directory language).map fun file => file.refer (references file) := by
  rw [packageFiles, refer, List.filter_map, packageFiles]
  rfl

theorem sameLooks_refer : SameLooks Eq workspace (workspace.refer references) :=
  List.forall₂_map_right_iff.2 (List.forall₂_same.2 fun file _ => file.looksLike_refer _)

theorem lookupMember_refer {files others : List SourceFile}
    (hfiles : List.Forall₂ (SourceFile.LooksLike Eq) files others) (name : String) :
    (workspace.refer references).lookupMember others name = workspace.lookupMember files name := by
  obtain ⟨hfound, -⟩ :=
    (sameLooks_refer workspace references).searchMember files others hfiles name []
  rw [lookupMember, lookupMember]
  rcases rel_cases hfound with ⟨hleft, hright⟩ | ⟨_, _, hleft, hright, htwin⟩
  · rw [hleft, hright]
  · rw [hleft, hright, htwin.eq]

theorem facade_refer (file : SourceFile) :
    List.Forall₂ (SourceFile.LooksLike Eq) (workspace.facade file)
      ((workspace.refer references).facade (file.refer (references file))) := by
  have hself := List.Forall₂.cons (file.looksLike_refer (references file)) .nil
  rw [facade, facade, SourceFile.path_refer, SourceFile.language_refer]
  cases file.path.parent? with
  | none => exact hself
  | some directory =>
    simp only [packageFiles_refer]
    split
    · exact List.forall₂_map_right_iff.2 (List.forall₂_same.2 fun file _ => file.looksLike_refer _)
    · exact hself

theorem fileMember?_refer (path : Path) (name : String) :
    (workspace.refer references).fileMember? path name = workspace.fileMember? path name := by
  rw [fileMember?, fileMember?, file?_refer, Option.bind_eq_bind, Option.bind_map]
  refine Option.bind_congr fun file _ => ?_
  rw [Function.comp_apply,
    lookupMember_refer workspace references (facade_refer workspace references file)]

theorem locate?_refer (id : NodeId) : (workspace.refer references).locate? id =
    (workspace.locate? id).map fun place => (place.1.refer (references place.1), place.2) := by
  rw [locate?, locate?, graph_refer]
  cases workspace.graph.node? id with
  | none => rfl
  | some node =>
    simp only [Option.bind_eq_bind, Option.bind_some, file?_refer]
    cases hsymbol : node.kind.isSymbol with
    | false => rfl
    | true =>
      cases workspace.file? node.path with
      | none => rfl
      | some file => cases hindex : file.symbolIndex? id <;> simp [SourceFile.symbolIndex?]

theorem classMember?_refer (id : NodeId) (name : String) :
    (workspace.refer references).classMember? id name = workspace.classMember? id name := by
  rw [classMember?, classMember?, locate?_refer]
  cases workspace.locate? id <;> rfl

theorem follow_refer (names : List String) (current : NodeId) :
    (workspace.refer references).follow current names = workspace.follow current names := by
  induction names generalizing current with
  | nil => rfl
  | cons name rest ih =>
    simp only [follow, graph_refer, fileMember?_refer, classMember?_refer, ih, symbolNode?]

variable (file : SourceFile) (others : List ReferenceFact)

theorem importTarget?_refer (index : Nat) :
    (workspace.refer references).importTarget? (file.refer others) index =
      workspace.importTarget? file index := rfl

theorem wildcardMember?_refer (name : String) :
    (workspace.refer references).wildcardMember? (file.refer others) name =
      workspace.wildcardMember? file name := by
  funext index
  simp only [wildcardMember?, importTarget?_refer, SourceFile.planned?_refer,
    SourceFile.language_refer, lookupMember_refer workspace references
      ((sameLooks_refer workspace references).firstPresent _ _)]

theorem lookupInScope_refer (scope : Scope) (target : NameRef) :
    (workspace.refer references).lookupInScope (file.refer others) scope target =
      workspace.lookupInScope file scope target := by
  simp only [lookupInScope, lookupImports, importTarget?_refer, wildcardMember?_refer,
    SourceFile.symbol?_refer]

theorem lookupInScopes_refer (target : NameRef) (scopes : List Scope) :
    (workspace.refer references).lookupInScopes (file.refer others) target scopes =
      workspace.lookupInScopes file target scopes := by
  induction scopes with
  | nil => rfl
  | cons scope rest ih => rw [lookupInScopes, lookupInScopes, lookupInScope_refer, ih]

theorem lookupInPackage_refer (name : String) :
    (workspace.refer references).lookupInPackage (file.refer others) name =
      workspace.lookupInPackage file name := by
  have hsiblings : (workspace.refer references).packageSiblings (file.refer others) =
      (workspace.packageSiblings file).map fun sibling => sibling.refer (references sibling) := by
    rw [packageSiblings, packageSiblings, SourceFile.path_refer, SourceFile.language_refer]
    split
    · rfl
    · rw [packageFiles_refer, List.filter_map]
      rfl
  rw [lookupInPackage, lookupInPackage, hsiblings, List.findSome?_map, SourceFile.language_refer]
  rfl

theorem resolveName_refer (scope : ScopeId) (target : NameRef) :
    (workspace.refer references).resolveName (file.refer others) scope target =
      workspace.resolveName file scope target := by
  have hscopes : visibleScopes (file.refer others) scope = visibleScopes file scope := rfl
  rw [resolveName, resolveName, hscopes, lookupInScopes_refer, lookupInPackage_refer]
  simp only [follow_refer]

theorem basesIn_refer (symbol : SymbolFact) :
    (workspace.refer references).basesIn (file.refer others) symbol =
      workspace.basesIn file symbol := by
  rw [basesIn, basesIn, funext (resolveName_refer workspace references file others symbol.scope)]
  rfl

theorem basesOf_refer : (workspace.refer references).basesOf = workspace.basesOf := by
  funext id
  rw [basesOf, basesOf, locate?_refer]
  cases workspace.locate? id with
  | none => rfl
  | some place =>
    simp only [Option.map_some, SourceFile.facts_symbols_refer, basesIn_refer]

theorem nearestMember?_refer (id : NodeId) (name : String) :
    (workspace.refer references).nearestMember? id name = workspace.nearestMember? id name := by
  have hcount : (workspace.refer references).baseCount = workspace.baseCount := by
    rw [baseCount, baseCount, refer, List.flatMap_map]
    rfl
  have hasked : ∀ turns seen waiting, (workspace.refer references).askInTurn name turns seen
      waiting = workspace.askInTurn name turns seen waiting := by
    intro turns
    induction turns with
    | zero => exact fun _ _ => rfl
    | succ turns ih =>
      intro seen waiting
      cases waiting with
      | nil => rfl
      | cons entry waiting => simp only [askInTurn, classMember?_refer, basesOf_refer, ih]
  rw [nearestMember?, nearestMember?, hcount, hasked]

/-- A reference leads where it led. -/
theorem referenceEdge?_refer :
    (workspace.refer references).referenceEdge? (file.refer others) =
      workspace.referenceEdge? file := by
  funext reference
  have huser : userOf (file.refer others) reference = userOf file reference := rfl
  have hclass : surroundingClass? (file.refer others) reference =
      surroundingClass? file reference := by
    rw [surroundingClass?, SourceFile.enclosingClass?_refer, SourceFile.symbol?_refer,
      surroundingClass?]
  simp only [referenceEdge?, selfMember?, huser, hclass, nearestMember?_refer, resolveName_refer]

theorem inheritanceEdges_refer :
    (workspace.refer references).inheritanceEdges (file.refer others) =
      workspace.inheritanceEdges file := by
  simp only [inheritanceEdges, SourceFile.symbols_refer, SourceFile.facts_symbols_refer,
    basesIn_refer]

end Refer

end Workspace

end CodeGraph
