import CodeGraph.Facts.TypeScript
import CodeGraph.Proofs.Facts.Descent
import CodeGraph.Proofs.Facts.Walk

/-!
# Walks of JavaScript and TypeScript files

They keep the facts well formed, and at every node they go down.
-/

namespace CodeGraph

open Walk

namespace Ecma

theorem keeps_typeNameWithin {count : Nat} (fuel : Nat) (node : Tree) :
    Keeps count (typeNameWithin fuel node) := by
  induction fuel generalizing node with
  | zero => exact keeps_pure none
  | succ fuel ih =>
    rw [typeNameWithin]
    split
    · exact keeps_memberChain? _ node
    · exact keeps_memberChain? _ node
    · exact keeps_memberChain? _ node
    · split
      · refine (ih _).bind fun base => ?_
        split
        · exact keeps_pure none
        · exact (keeps_textOf _).bind fun _ => keeps_pure _
      · exact keeps_pure none
    · split
      · exact ih _
      · exact keeps_pure none
    · exact keeps_pure none

theorem keeps_typeName? {count : Nat} (node : Tree) : Keeps count (typeName? node) :=
  keeps_typeNameWithin _ node

theorem keeps_requireSpecifier? {count : Nat} (node : Tree) :
    Keeps count (requireSpecifier? node) := by
  rw [requireSpecifier?]
  split
  · exact keeps_pure none
  · split
    · refine (keeps_textOf _).bind fun text => ?_
      split
      · exact keeps_pure none
      · split
        · split
          · exact (keeps_textOf _).bind fun _ => keeps_pure _
          · exact keeps_pure none
        · exact keeps_pure none
    · exact keeps_pure none

theorem keeps_requireProperty (fact : ImportFact) (property : Tree) :
    Keeps 0 (requireProperty fact property) := by
  rw [requireProperty]
  dsimp only
  split
  · exact (keeps_textOf property).bind fun _ => keeps_importing _
  · split
    · split
      · exact (keeps_textOf _).bind fun _ => (keeps_textOf _).bind fun _ => keeps_importing _
      · exact keeps_pure ()
    · exact keeps_pure ()
  · exact keeps_pure ()

theorem keeps_requireBindings (fact : ImportFact) (pattern : Tree) :
    Keeps 0 (requireBindings fact pattern) := by
  rw [requireBindings]
  split
  · exact (keeps_textOf pattern).bind fun _ => keeps_importing _
  · exact keeps_forM fun property _ => keeps_requireProperty fact property
  · exact keeps_importing fact

theorem keeps_specifierNames? (specifier : Tree) : Keeps 0 (specifierNames? specifier) := by
  rw [specifierNames?]
  split
  · exact keeps_pure none
  · exact (keeps_optionMapM keeps_textOf).bind fun _ =>
      (keeps_textOf _).bind fun _ => keeps_pure _

theorem keeps_importPart (fact : ImportFact) (part : Tree) : Keeps 0 (importPart fact part) := by
  rw [importPart]
  split
  · exact (keeps_textOf part).bind fun _ => keeps_importing _
  · split
    · exact (keeps_textOf _).bind fun _ => keeps_importing _
    · exact keeps_pure ()
  · refine keeps_forM fun specifier _ => (keeps_specifierNames? specifier).bind fun names => ?_
    split
    · exact keeps_importing _
    · exact keeps_pure ()
  · exact keeps_pure ()

theorem keeps_importStatement (node : Tree) : Keeps 0 (importStatement node) := by
  rw [importStatement]
  split
  · exact keeps_pure ()
  · refine (keeps_textOf _).bind fun _ => (keeps_sourceRange node).bind fun _ => ?_
    split
    · exact keeps_importing _
    · exact keeps_forM fun part _ => keeps_importPart _ part

theorem keeps_reexportPart (fact : ImportFact) (child : Tree) :
    Keeps 0 (reexportPart fact child) := by
  rw [reexportPart]
  split
  · exact keeps_importing _
  · split
    · exact keeps_pure ()
    · exact (keeps_textOf _).bind fun _ => (keeps_markExported _).bind fun _ => keeps_importing _
  · refine keeps_forM fun specifier _ => (keeps_specifierNames? specifier).bind fun names => ?_
    split
    · exact keeps_pure ()
    · exact (keeps_markExported _).bind fun _ => keeps_importing _
  · exact keeps_pure ()

theorem keeps_reexport (node source : Tree) : Keeps 0 (reexport node source) :=
  (keeps_textOf source).bind fun _ => (keeps_sourceRange node).bind fun _ =>
    keeps_forM fun child _ => keeps_reexportPart _ child

theorem keeps_exportSpecifier (specifier : Tree) : Keeps 0 (exportSpecifier specifier) := by
  rw [exportSpecifier]
  split
  · exact keeps_pure ()
  · refine (keeps_textOf _).bind fun _ => (keeps_reference _).bind fun _ =>
      (keeps_optionMapM keeps_textOf).bind fun renamed => ?_
    split
    · exact keeps_setDefaultExport _
    · exact keeps_markExported _

/-- The first symbol of a pattern is one of those that were defined for it. -/
theorem yields_definePattern (node : Tree) (parts : List Tree) {count : Nat} :
    Yields count (fun symbols => needsOption symbols.head?)
      (parts.mapM fun part => define .variableDef part node false) := by
  cases parts with
  | nil => exact yields_pure [] (Nat.zero_le _)
  | cons part rest =>
    rw [List.mapM_cons]
    refine (yields_define _ _ _ (by rfl)).bind fun symbol => ?_
    have hrest : Keeps (max count (needsOne symbol))
        (rest.mapM fun part => define .variableDef part node false) :=
      keeps_mapM fun other _ => (yields_define _ _ _ (by rfl)).keeps
    exact hrest.bind fun symbols => yields_pure (symbol :: symbols) (Nat.le_max_right _ _)

section Visit

variable {visit : Visit} (hvisit : ∀ node, Keeps 0 (visit node))

include hvisit

theorem keeps_defaultValuesWithin {count : Nat} (fuel : Nat) (pattern : Tree) :
    Keeps count (defaultValuesWithin visit fuel pattern) := by
  induction fuel generalizing pattern with
  | zero => exact keeps_pure ()
  | succ fuel ih =>
    rw [defaultValuesWithin]
    refine keeps_forM fun child _ => ?_
    have hbelow : ∀ done : Unit, Keeps count
        (if Text.endsWith "pattern" child.kind then defaultValuesWithin visit fuel child
          else pure ()) := by
      intro done
      split
      · exact ih child
      · exact keeps_pure ()
    dsimp only
    split
    · exact (keeps_visitField hvisit child _).bind hbelow
    · exact hbelow ()

theorem keeps_parameter {count : Nat} (node : Tree) : Keeps count (parameter visit node) :=
  (keeps_bindPattern bindings _).bind fun _ =>
  (keeps_visitField hvisit node _).bind fun _ =>
  (keeps_visitField hvisit node _).bind fun _ =>
  (keeps_visitField hvisit node _).bind fun _ => keeps_defaultValuesWithin hvisit _ _

theorem keeps_parameters {count : Nat} (node : Tree) : Keeps count (parameters visit node) := by
  rw [parameters]
  split
  · exact (keeps_textOf node).bind fun _ => keeps_bindLocal _
  · exact keeps_forM fun child _ => keeps_parameter hvisit child

theorem keeps_functionBody {count : Nat} (node : Tree) : Keeps count (functionBody visit node) :=
  (keeps_optionForM fun found _ => keeps_parameters hvisit found).bind fun _ =>
  (keeps_optionForM fun found _ => keeps_parameters hvisit found).bind fun _ =>
  (keeps_visitField hvisit node _).bind fun _ => keeps_visitField hvisit node _

theorem keeps_anonymousFunction (node : Tree) : Keeps 0 (anonymousFunction visit node) :=
  keeps_inAnonymous _ node (keeps_functionBody hvisit node)

/-- A symbol of its own for something with parameters and a body. -/
theorem keeps_defineFunction (name node value : Tree) :
    Keeps 0 (do
      let symbol ← define .functionDef name node false
      inSymbol symbol .functionBody value (functionBody visit value)) :=
  (yields_define _ _ _ (by rfl)).bind fun _ =>
    keeps_inSymbol (Nat.le_max_right _ _) _ value (keeps_functionBody hvisit value)

/-- A variable that owns what its value uses. -/
theorem keeps_defineVariable (name node value : Tree) :
    Keeps 0 (do
      let symbol ← define .variableDef name node false
      withOwner symbol (visit value)) :=
  (yields_define _ _ _ (by rfl)).bind fun _ =>
    keeps_withOwner (Nat.le_max_right _ _) (keeps_visit hvisit value)

theorem keeps_functionDeclaration (node : Tree) : Keeps 0 (functionDeclaration visit node) := by
  rw [functionDeclaration]
  split
  · exact keeps_anonymousFunction hvisit node
  · exact keeps_defineFunction hvisit _ node node

theorem keeps_classBody {count : Nat} (node : Tree) : Keeps count (classBody visit node) := by
  rw [classBody]
  split
  · exact keeps_visitChildren hvisit _
  · exact keeps_pure ()

theorem keeps_heritageWithin {count : Nat} (symbol fuel : Nat) (clause : Tree) :
    Keeps count (heritageWithin visit symbol fuel clause) := by
  induction fuel generalizing clause with
  | zero => exact keeps_pure ()
  | succ fuel ih =>
    rw [heritageWithin]
    refine keeps_forM fun part _ => (keeps_typeName? part).bind fun base => ?_
    split
    · exact (keeps_addBase symbol _).bind fun _ => (keeps_referencePath _).bind fun _ =>
        keeps_visitField hvisit part _
    · split
      · exact ih part
      · exact keeps_visit hvisit part

theorem keeps_heritage {count : Nat} (symbol : Nat) (clause : Tree) :
    Keeps count (heritage visit symbol clause) :=
  keeps_heritageWithin hvisit symbol _ clause

theorem keeps_classDeclaration (node : Tree) : Keeps 0 (classDeclaration visit node) := by
  rw [classDeclaration]
  split
  · exact keeps_classBody hvisit node
  · refine (yields_define _ _ _ (by rfl)).bind fun symbol => ?_
    have hsymbol : symbol < max 0 (needsOne symbol) := Nat.le_max_right _ _
    exact (keeps_withOwner hsymbol (keeps_forM fun clause _ =>
      keeps_heritage hvisit symbol clause)).bind fun _ =>
      keeps_inSymbol hsymbol _ node (keeps_classBody hvisit node)

theorem keeps_method (node : Tree) : Keeps 0 (method visit node) := by
  rw [method]
  split
  · exact keeps_visitChildren hvisit node
  · split
    · exact (hvisit _).bind fun _ => keeps_anonymousFunction hvisit node
    · exact keeps_defineFunction hvisit _ node node

theorem keeps_field (node : Tree) : Keeps 0 (field visit node) := by
  rw [field]
  split
  · exact keeps_visitChildren hvisit node
  · refine (keeps_visitField hvisit node _).bind fun _ => ?_
    split
    · exact (yields_define _ _ _ (by rfl)).bind fun _ => keeps_pure ()
    · split
      · exact keeps_defineFunction hvisit _ node _
      · exact keeps_defineVariable hvisit _ node _

theorem keeps_moduleDeclarator (node name : Tree) : Keeps 0 (moduleDeclarator visit node name) := by
  rw [moduleDeclarator]
  split
  · refine (yields_definePattern node _).bind fun symbols => ?_
    split
    · rename_i hhead
      refine keeps_withOwner ?_ (keeps_visit hvisit _)
      rw [hhead]
      exact Nat.le_max_right _ _
    · exact keeps_visit hvisit _
    · exact keeps_pure ()
  · split
    · exact (yields_define _ _ _ (by rfl)).bind fun _ => keeps_pure ()
    · split
      · exact keeps_defineFunction hvisit _ node _
      · split
        · exact (yields_define _ _ _ (by rfl)).bind fun symbol =>
            keeps_inSymbol (Nat.le_max_right _ _) _ _ (keeps_classBody hvisit _)
        · exact keeps_defineVariable hvisit _ node _

theorem keeps_declarator (node : Tree) : Keeps 0 (declarator visit node) := by
  rw [declarator]
  split
  · exact keeps_visitChildren hvisit node
  · rename_i name _
    refine (keeps_visitField hvisit node _).bind fun _ => ?_
    extract_lets bindRequired
    have hbind : ∀ required, Keeps 0 (bindRequired required) := by
      intro required
      dsimp only [bindRequired]
      split
      · exact (keeps_sourceRange node).bind fun _ => keeps_requireBindings _ name
      · refine keeps_inFunction.bind fun inFunction => ?_
        split
        · exact (keeps_visitField hvisit node _).bind fun _ => keeps_bindPattern bindings name
        · exact keeps_moduleDeclarator hvisit node name
    split
    · exact (keeps_requireSpecifier? _).bind hbind
    · exact hbind none

theorem keeps_declaration (node : Tree) : Keeps 0 (declaration visit node) := by
  refine keeps_forM fun child _ => ?_
  split
  · exact keeps_declarator hvisit child
  · exact hvisit child

theorem keeps_visitDeclared (node : Tree) : Keeps 0 (visitDeclared visit node) :=
  keeps_get.bind fun _ => (hvisit node).bind fun _ => keeps_get.bind fun _ => keeps_pure _

theorem keeps_exportDeclaration (node declaration : Tree) :
    Keeps 0 (exportDeclaration visit node declaration) := by
  refine (keeps_visitDeclared hvisit declaration).bind fun declared =>
    (keeps_forM fun name _ => keeps_markExported name).bind fun _ => ?_
  split
  · exact keeps_optionForM fun name _ => keeps_setDefaultExport name
  · exact keeps_pure ()

theorem keeps_exportValue (value : Tree) : Keeps 0 (exportValue visit value) := by
  rw [exportValue]
  split
  · exact (keeps_textOf value).bind fun _ => (keeps_setDefaultExport _).bind fun _ =>
      keeps_reference value
  · split
    · exact keeps_get.bind fun _ => (keeps_functionDeclaration hvisit value).bind fun _ =>
        keeps_get.bind fun _ => keeps_optionForM fun name _ => keeps_setDefaultExport name
    · exact (keeps_visitDeclared hvisit value).bind fun _ =>
        keeps_optionForM fun name _ => keeps_setDefaultExport name

theorem keeps_exportStatement (node : Tree) : Keeps 0 (exportStatement visit node) := by
  rw [exportStatement]
  split
  · exact keeps_reexport node _
  · exact keeps_exportDeclaration hvisit node _
  · exact keeps_exportValue hvisit _
  · exact keeps_forM fun clause _ => keeps_forM fun specifier _ => keeps_exportSpecifier specifier

theorem keeps_forIn (node : Tree) : Keeps 0 (forIn visit node) := by
  refine (keeps_visitField hvisit node _).bind fun _ => ?_
  have hbody : ∀ done : Unit, Keeps 0 (visitField visit node "body") := fun _ =>
    keeps_visitField hvisit node _
  dsimp only
  split
  · exact hbody ()
  · refine keeps_inFunction.bind fun inFunction => ?_
    split
    · exact (keeps_bindPattern bindings _).bind hbody
    · exact (hvisit _).bind hbody

theorem keeps_catchClause (node : Tree) : Keeps 0 (catchClause visit node) :=
  keeps_inAnonymous _ node <|
    (keeps_optionForM fun found _ => keeps_bindPattern bindings found).bind fun _ =>
    keeps_visitField hvisit node _

theorem keeps_call (node : Tree) : Keeps 0 (call visit node) := by
  refine (keeps_requireSpecifier? node).bind fun required => ?_
  split
  · exact (keeps_sourceRange node).bind fun _ => keeps_importing _
  · exact keeps_visitChildren hvisit node

theorem keeps_step (node : Tree) : Keeps 0 (step visit node) := by
  rw [step]
  split
  · exact keeps_functionDeclaration hvisit node
  · exact keeps_functionDeclaration hvisit node
  · exact keeps_functionDeclaration hvisit node
  · exact keeps_classDeclaration hvisit node
  · exact keeps_classDeclaration hvisit node
  · exact keeps_classDeclaration hvisit node
  · exact keeps_anonymousFunction hvisit node
  · exact keeps_anonymousFunction hvisit node
  · exact keeps_anonymousFunction hvisit node
  · exact keeps_anonymousFunction hvisit node
  · exact keeps_method hvisit node
  · exact keeps_method hvisit node
  · exact keeps_method hvisit node
  · exact keeps_field hvisit node
  · exact keeps_field hvisit node
  · exact keeps_declaration hvisit node
  · exact keeps_declaration hvisit node
  · exact keeps_importStatement node
  · exact keeps_exportStatement hvisit node
  · exact keeps_forIn hvisit node
  · exact keeps_catchClause hvisit node
  · exact keeps_memberUse hvisit memberShape node
  · exact keeps_call hvisit node
  · exact keeps_visitField hvisit node _
  · exact keeps_reference node
  · exact keeps_reference node
  · exact keeps_pure ()
  · exact keeps_pure ()
  · exact keeps_pure ()
  · exact keeps_pure ()
  · exact keeps_pure ()
  · exact keeps_pure ()
  · exact keeps_pure ()
  · exact keeps_visitChildren hvisit node

end Visit

/-! ### Where the walks go -/

section Descent

variable {node : Tree} {left right : Visit} (hagree : node.AgreeBelow left right)

include hagree

theorem defaultValuesWithin_congr (fuel : Nat) :
    defaultValuesWithin left fuel node = defaultValuesWithin right fuel node := by
  induction fuel generalizing node with
  | zero => rfl
  | succ fuel ih =>
    refine namedForM_congr fun child hchild => ?_
    have hinside := hagree.below hchild
    simp only [visitField_congr hinside, ih hinside]

theorem parameter_congr : parameter left node = parameter right node := by
  have hdefaults : defaultValues left ((node.child? "pattern").getD node) =
      defaultValues right ((node.child? "pattern").getD node) := by
    cases hpattern : node.child? "pattern" with
    | none => exact defaultValuesWithin_congr hagree _
    | some pattern =>
      exact defaultValuesWithin_congr (hagree.below (Tree.mem_children_of_child? hpattern)) _
  simp only [parameter, visitField_congr hagree, hdefaults]

theorem parameters_congr : parameters left node = parameters right node := by
  simp only [parameters, namedForM_congr fun _ h => parameter_congr (hagree.below h)]

theorem functionBody_congr : functionBody left node = functionBody right node := by
  simp only [functionBody, visitField_congr hagree,
    fieldForM_congr _ fun _ h => parameters_congr (hagree.below h)]

theorem anonymousFunction_congr : anonymousFunction left node = anonymousFunction right node := by
  rw [anonymousFunction, anonymousFunction, functionBody_congr hagree]

theorem functionDeclaration_congr :
    functionDeclaration left node = functionDeclaration right node := by
  simp only [functionDeclaration, anonymousFunction_congr hagree, functionBody_congr hagree]

theorem classBody_congr : classBody left node = classBody right node := by
  rw [classBody, classBody]
  split
  · exact visitChildren_congr (hagree.below (Tree.mem_children_of_child? ‹_›))
  · rfl

theorem heritageWithin_congr (symbol fuel : Nat) :
    heritageWithin left symbol fuel node = heritageWithin right symbol fuel node := by
  induction fuel generalizing node with
  | zero => rfl
  | succ fuel ih =>
    refine namedForM_congr fun part hpart => ?_
    have hinside := hagree.below hpart
    simp only [visitField_congr hinside, ih hinside, hagree.eq hpart]

/-- What is done at the children of a kind that are clauses of the heritage. -/
theorem heritageForM_congr (symbol : Nat) (kind : String) :
    (node.namedChildren.filter fun child => child.kind = kind).forM (heritage left symbol) =
      (node.namedChildren.filter fun child => child.kind = kind).forM (heritage right symbol) :=
  forM_congr fun _ hclause => heritageWithin_congr
    (hagree.below (Tree.mem_children_of_named (List.mem_filter.1 hclause).1)) symbol _

theorem classDeclaration_congr : classDeclaration left node = classDeclaration right node := by
  simp only [classDeclaration, classBody_congr hagree, heritageForM_congr hagree]

theorem method_congr : method left node = method right node := by
  rw [method, method]
  split
  · exact visitChildren_congr hagree
  · rename_i name hname
    simp only [hagree.eq (Tree.mem_children_of_child? hname), anonymousFunction_congr hagree,
      functionBody_congr hagree]

theorem field_congr : field left node = field right node := by
  simp only [field, visitChildren_congr hagree, visitField_congr hagree]
  cases hvalue : node.child? "value" with
  | none => rfl
  | some value =>
    have hmem := Tree.mem_children_of_child? hvalue
    simp only [hagree.eq hmem, functionBody_congr (hagree.below hmem)]

theorem moduleDeclarator_congr (name : Tree) :
    moduleDeclarator left node name = moduleDeclarator right node name := by
  rw [moduleDeclarator, moduleDeclarator]
  split
  · refine congrArg _ (funext fun symbols => ?_)
    split
    · rw [hagree.eq (Tree.mem_children_of_child? ‹_›)]
    · exact hagree.eq (Tree.mem_children_of_child? ‹_›)
    · rfl
  · cases hvalue : node.child? "value" with
    | none => rfl
    | some value =>
      have hmem := Tree.mem_children_of_child? hvalue
      have hinside := hagree.below hmem
      simp only [hagree.eq hmem, functionBody_congr hinside, classBody_congr hinside]

theorem declarator_congr : declarator left node = declarator right node := by
  simp only [declarator, visitChildren_congr hagree, visitField_congr hagree,
    moduleDeclarator_congr hagree]

theorem declaration_congr : declaration left node = declaration right node := by
  refine namedForM_congr fun child hchild => ?_
  rw [hagree.eq hchild, declarator_congr (hagree.below hchild)]

theorem visitDeclared_congr {child : Tree} (hchild : child ∈ node.children) :
    visitDeclared left child = visitDeclared right child := by
  rw [visitDeclared, visitDeclared, hagree.eq hchild]

theorem exportValue_congr {value : Tree} (hvalue : value ∈ node.children) :
    exportValue left value = exportValue right value := by
  rw [exportValue, exportValue, functionDeclaration_congr (hagree.below hvalue),
    visitDeclared_congr hagree hvalue]

theorem exportStatement_congr : exportStatement left node = exportStatement right node := by
  rw [exportStatement, exportStatement]
  split
  · rfl
  · rename_i declaration _ hdeclaration
    rw [exportDeclaration, exportDeclaration,
      visitDeclared_congr hagree (Tree.mem_children_of_child? hdeclaration)]
  · rename_i hvalue
    exact exportValue_congr hagree (Tree.mem_children_of_child? hvalue)
  · rfl

theorem forIn_congr : forIn left node = forIn right node := by
  simp only [forIn, visitField_congr hagree]
  cases htarget : node.child? "left" with
  | none => rfl
  | some target => simp only [hagree.eq (Tree.mem_children_of_child? htarget)]

theorem catchClause_congr : catchClause left node = catchClause right node := by
  simp only [catchClause, visitField_congr hagree]

theorem call_congr : call left node = call right node := by
  simp only [call, visitChildren_congr hagree]

end Descent

theorem descends_step : Tree.Descends memberShape.Carries step := by
  intro node left right hcarries hagree
  rw [step, step]
  split
  · exact functionDeclaration_congr hagree
  · exact functionDeclaration_congr hagree
  · exact functionDeclaration_congr hagree
  · exact classDeclaration_congr hagree
  · exact classDeclaration_congr hagree
  · exact classDeclaration_congr hagree
  · exact anonymousFunction_congr hagree
  · exact anonymousFunction_congr hagree
  · exact anonymousFunction_congr hagree
  · exact anonymousFunction_congr hagree
  · exact method_congr hagree
  · exact method_congr hagree
  · exact method_congr hagree
  · exact field_congr hagree
  · exact field_congr hagree
  · exact declaration_congr hagree
  · exact declaration_congr hagree
  · rfl
  · exact exportStatement_congr hagree
  · exact forIn_congr hagree
  · exact catchClause_congr hagree
  · rename_i hkind
    exact memberUse_congr hagree hcarries (hkind ▸ List.mem_cons_self)
  · exact call_congr hagree
  · exact visitField_congr hagree _
  · rfl
  · rfl
  · rfl
  · rfl
  · rfl
  · rfl
  · rfl
  · rfl
  · rfl
  · exact visitChildren_congr hagree

end Ecma

namespace TypeScript

theorem keeps_nestedType {visit : Visit} (hvisit : ∀ node, Keeps 0 (visit node)) (node : Tree) :
    Keeps 0 (nestedType visit node) := by
  refine (Ecma.keeps_typeName? node).bind fun name => ?_
  split
  · exact keeps_referencePath _
  · exact keeps_visitChildren hvisit node

theorem keeps_interface {visit : Visit} (hvisit : ∀ node, Keeps 0 (visit node)) (node : Tree) :
    Keeps 0 (interface visit node) := by
  rw [interface]
  split
  · exact keeps_visitChildren hvisit node
  · refine (yields_define _ _ _ (by rfl)).bind fun symbol =>
      (keeps_visitField hvisit node _).bind fun _ => ?_
    have hsymbol : symbol < max 0 (needsOne symbol) := Nat.le_max_right _ _
    exact (keeps_withOwner hsymbol (keeps_forM fun clause _ =>
      Ecma.keeps_heritage hvisit symbol clause)).bind fun _ =>
      keeps_inSymbol hsymbol _ node (keeps_visitField hvisit node _)

theorem keeps_typeDeclaration {visit : Visit} (hvisit : ∀ node, Keeps 0 (visit node))
    (node : Tree) : Keeps 0 (typeDeclaration visit node) := by
  rw [typeDeclaration]
  split
  · exact keeps_visitChildren hvisit node
  · exact (yields_define _ _ _ (by rfl)).bind fun symbol =>
      keeps_inSymbol (Nat.le_max_right _ _) _ node <|
      (keeps_visitField hvisit node _).bind fun _ =>
      (keeps_visitField hvisit node _).bind fun _ => keeps_visitField hvisit node _

theorem keeps_step {visit : Visit} (hvisit : ∀ node, Keeps 0 (visit node)) (node : Tree) :
    Keeps 0 (step visit node) := by
  rw [step]
  split
  · exact keeps_interface hvisit node
  · exact keeps_typeDeclaration hvisit node
  · exact keeps_typeDeclaration hvisit node
  · exact keeps_reference node
  · exact keeps_nestedType hvisit node
  · exact keeps_pure ()
  · exact keeps_pure ()
  · exact keeps_pure ()
  · exact keeps_visitField hvisit node _
  · exact keeps_visitField hvisit node _
  · exact keeps_visitField hvisit node _
  · exact keeps_visitChildren hvisit node
  · exact Ecma.keeps_step hvisit node

theorem descends_step : Tree.Descends Ecma.memberShape.Carries step := by
  intro node left right hcarries hagree
  rw [step, step]
  split
  · simp only [interface, visitChildren_congr hagree, visitField_congr hagree,
      Ecma.heritageForM_congr hagree]
  · simp only [typeDeclaration, visitChildren_congr hagree, visitField_congr hagree]
  · simp only [typeDeclaration, visitChildren_congr hagree, visitField_congr hagree]
  · rfl
  · simp only [nestedType, visitChildren_congr hagree]
  · rfl
  · rfl
  · rfl
  · exact visitField_congr hagree _
  · exact visitField_congr hagree _
  · exact visitField_congr hagree _
  · exact visitChildren_congr hagree
  · exact Ecma.descends_step node left right hcarries hagree

end TypeScript

end CodeGraph
