import CodeGraph.Facts.Java
import CodeGraph.Proofs.Facts.Descent
import CodeGraph.Proofs.Facts.Walk

/-!
# Walks of Java files

They keep the facts well formed, and at every node they go down.
-/

namespace CodeGraph.Java

open Walk

theorem keeps_isPublic {count : Nat} (node : Tree) : Keeps count (isPublic node) :=
  (keeps_mapM fun child _ => keeps_textOf child).bind fun _ => keeps_pure _

theorem keeps_packageDeclaration (node : Tree) : Keeps 0 (packageDeclaration node) := by
  rw [packageDeclaration]
  split
  · exact (keeps_textOf _).bind fun _ => keeps_setPackage _
  · exact keeps_pure ()

theorem keeps_importDeclaration (node : Tree) : Keeps 0 (importDeclaration node) := by
  rw [importDeclaration]
  split
  · exact keeps_pure ()
  · refine (keeps_textOf _).bind fun _ => (keeps_sourceRange node).bind fun _ => ?_
    split
    · exact keeps_importing _
    · split
      · exact keeps_importing _
      · exact keeps_importing _

theorem keeps_typeRefsWithin {count : Nat} (fuel : Nat) (node : Tree) :
    Keeps count (typeRefsWithin fuel node) := by
  induction fuel generalizing node with
  | zero => exact keeps_pure []
  | succ fuel ih =>
    rw [typeRefsWithin]
    split
    · exact (keeps_textOf node).bind fun _ => keeps_pure _
    · dsimp only
      split
      · exact ih _
      · exact keeps_pure _
    · refine (keeps_textOf node).bind fun _ => ?_
      split
      · exact keeps_pure _
      · exact keeps_pure _
    · exact (keeps_mapM fun child _ => ih child).bind fun _ => keeps_pure _

theorem keeps_bindName {count : Nat} (node : Tree) : Keeps count (bindName node) := by
  rw [bindName]
  split
  · exact (keeps_textOf _).bind fun _ => keeps_bindLocal _
  · exact keeps_pure ()

theorem keeps_heritage {count : Nat} (symbol : Nat) (clause : Tree) :
    Keeps count (heritage symbol clause) :=
  (keeps_typeRefsWithin _ clause).bind fun _ => keeps_forM fun base _ =>
    (keeps_addBase symbol base).bind fun _ => keeps_referencePath base

section Visit

variable {visit : Visit} (hvisit : ∀ node, Keeps 0 (visit node))

include hvisit

theorem keeps_spreadPart {count : Nat} (part : Tree) : Keeps count (spreadPart visit part) := by
  rw [spreadPart]
  split
  · exact keeps_bindName part
  · exact keeps_visit hvisit part

theorem keeps_parameter {count : Nat} (node : Tree) : Keeps count (parameter visit node) := by
  rw [parameter]
  split
  · exact (keeps_textOf node).bind fun _ => keeps_bindLocal _
  · exact (keeps_visitField hvisit node _).bind fun _ => keeps_bindName node
  · exact keeps_forM fun part _ => keeps_spreadPart hvisit part
  · exact keeps_pure ()

theorem keeps_parameters {count : Nat} (node : Tree) : Keeps count (parameters visit node) := by
  rw [parameters]
  split
  · exact (keeps_textOf node).bind fun _ => keeps_bindLocal _
  · exact keeps_forM fun child _ => keeps_parameter hvisit child

/-- The parameters and the body of anything that has them. -/
theorem keeps_parametersAndBody {count : Nat} (node : Tree) :
    Keeps count (do
      (node.child? "parameters").forM (parameters visit)
      visitField visit node "body") :=
  (keeps_optionForM fun found _ => keeps_parameters hvisit found).bind fun _ =>
    keeps_visitField hvisit node _

theorem keeps_typeDeclaration (node : Tree) : Keeps 0 (typeDeclaration visit node) := by
  rw [typeDeclaration]
  split
  · exact keeps_visitChildren hvisit node
  · refine (keeps_isPublic node).bind fun _ => (yields_define _ _ _ (by rfl)).bind fun symbol => ?_
    have hsymbol : symbol < max 0 (needsOne symbol) := Nat.le_max_right _ _
    exact (keeps_withOwner hsymbol (keeps_forM fun clause _ => keeps_heritage symbol clause)).bind
      fun _ => keeps_inSymbol hsymbol _ node (keeps_parametersAndBody hvisit node)

theorem keeps_method (node : Tree) : Keeps 0 (method visit node) := by
  rw [method]
  split
  · exact keeps_visitChildren hvisit node
  · exact (keeps_visitField hvisit node _).bind fun _ => (keeps_isPublic node).bind fun _ =>
      (yields_define _ _ _ (by rfl)).bind fun symbol =>
        keeps_inSymbol (Nat.le_max_right _ _) _ node (keeps_parametersAndBody hvisit node)

theorem keeps_field (node : Tree) : Keeps 0 (field visit node) := by
  refine (keeps_visitField hvisit node _).bind fun _ => (keeps_isPublic node).bind fun exported =>
    keeps_forM fun declarator _ => ?_
  split
  · exact keeps_pure ()
  · exact (yields_define _ _ _ (by rfl)).bind fun symbol =>
      keeps_withOwner (Nat.le_max_right _ _) (keeps_visitField hvisit declarator _)

theorem keeps_localVariables (node : Tree) : Keeps 0 (localVariables visit node) :=
  (keeps_visitField hvisit node _).bind fun _ => keeps_forM fun declarator _ =>
    (keeps_visitField hvisit declarator _).bind fun _ => keeps_bindName declarator

theorem keeps_boundStatement (node : Tree) : Keeps 0 (boundStatement visit node) :=
  (keeps_visitField hvisit node _).bind fun _ =>
  (keeps_visitField hvisit node _).bind fun _ =>
  (keeps_bindName node).bind fun _ =>
  (keeps_forM fun child _ => hvisit child).bind fun _ => keeps_visitField hvisit node _

theorem keeps_callOn (node object : Tree) (name : Option Tree) :
    Keeps 0 (callOn visit node object name) := by
  rw [callOn]
  split
  · refine (keeps_isSelf _).bind fun isSelf => ?_
    split
    · exact (keeps_textOf _).bind fun _ => keeps_selfMember _ _
    · exact keeps_pure ()
  · refine (keeps_memberChain? _ _).bind fun chain => ?_
    split
    · exact (keeps_optionMapM keeps_textOf).bind fun _ => keeps_referencePath _
    · exact hvisit object

theorem keeps_invocation (node : Tree) : Keeps 0 (invocation visit node) := by
  have hrest : Keeps 0 (do
      visitField visit node "type_arguments"
      visitField visit node "arguments") :=
    (keeps_visitField hvisit node _).bind fun _ => keeps_visitField hvisit node _
  rw [invocation]
  dsimp only
  split
  · exact (keeps_optionForM fun name _ => keeps_reference name).bind fun _ => hrest
  · exact (keeps_callOn hvisit node _ _).bind fun _ => hrest

theorem keeps_step (node : Tree) : Keeps 0 (step visit node) := by
  rw [step]
  split
  · exact keeps_packageDeclaration node
  · exact keeps_importDeclaration node
  · exact keeps_typeDeclaration hvisit node
  · exact keeps_typeDeclaration hvisit node
  · exact keeps_typeDeclaration hvisit node
  · exact keeps_typeDeclaration hvisit node
  · exact keeps_typeDeclaration hvisit node
  · exact keeps_method hvisit node
  · exact keeps_method hvisit node
  · exact keeps_method hvisit node
  · exact keeps_field hvisit node
  · exact keeps_field hvisit node
  · exact (keeps_visitField hvisit node _).bind fun _ => keeps_visitField hvisit node _
  · exact keeps_localVariables hvisit node
  · exact keeps_inAnonymous _ node (keeps_parametersAndBody hvisit node)
  · exact keeps_inAnonymous _ node (keeps_visitChildren hvisit node)
  · exact keeps_boundStatement hvisit node
  · exact keeps_boundStatement hvisit node
  · exact keeps_boundStatement hvisit node
  · exact keeps_invocation hvisit node
  · exact keeps_memberUse hvisit accessShape node
  · exact keeps_reference node
  · exact keeps_reference node
  · exact keeps_pure ()
  · exact keeps_pure ()
  · exact keeps_pure ()
  · exact keeps_pure ()
  · exact keeps_visitChildren hvisit node

end Visit

/-! ### Where the walks go -/

section Descent

variable {node : Tree} {left right : Visit} (hagree : node.AgreeBelow left right)

include hagree

theorem parameter_congr : parameter left node = parameter right node := by
  have hspread : node.namedChildren.forM (spreadPart left) =
      node.namedChildren.forM (spreadPart right) := by
    refine forM_congr fun part hpart => ?_
    rw [spreadPart, spreadPart, hagree.eq (Tree.mem_children_of_named hpart)]
  simp only [parameter, visitField_congr hagree, hspread]

theorem parameters_congr : parameters left node = parameters right node := by
  simp only [parameters, namedForM_congr fun _ h => parameter_congr (hagree.below h)]

theorem typeDeclaration_congr : typeDeclaration left node = typeDeclaration right node := by
  simp only [typeDeclaration, visitChildren_congr hagree, visitField_congr hagree,
    fieldForM_congr _ fun _ h => parameters_congr (hagree.below h)]

theorem method_congr : method left node = method right node := by
  simp only [method, visitChildren_congr hagree, visitField_congr hagree,
    fieldForM_congr _ fun _ h => parameters_congr (hagree.below h)]

theorem field_congr : field left node = field right node := by
  have hdeclarator : ∀ declarator ∈ node.childrenIn "declarator",
      visitField left declarator "value" = visitField right declarator "value" :=
    fun declarator hdeclarator =>
      visitField_congr (hagree.below (Tree.mem_children_of_childrenIn hdeclarator)) _
  rw [field, field, visitField_congr hagree]
  refine congrArg _ (funext fun _ => congrArg _ (funext fun exported => ?_))
  refine forM_congr fun declarator hmem => ?_
  rw [hdeclarator declarator hmem]

theorem localVariables_congr : localVariables left node = localVariables right node := by
  rw [localVariables, localVariables, visitField_congr hagree]
  refine congrArg _ (funext fun _ => forM_congr fun declarator hdeclarator => ?_)
  rw [visitField_congr (hagree.below (Tree.mem_children_of_childrenIn hdeclarator))]

theorem boundStatement_congr : boundStatement left node = boundStatement right node := by
  have htypes : (node.namedChildren.filter fun child => child.kind = "catch_type").forM left =
      (node.namedChildren.filter fun child => child.kind = "catch_type").forM right :=
    forM_congr fun type htype =>
      hagree.eq (Tree.mem_children_of_named (List.mem_filter.1 htype).1)
  simp only [boundStatement, visitField_congr hagree, htypes]

theorem invocation_congr : invocation left node = invocation right node := by
  rw [invocation, invocation]
  cases hobject : node.child? "object" with
  | none => simp only [visitField_congr hagree]
  | some object =>
    simp only [callOn, visitField_congr hagree,
      hagree.eq (Tree.mem_children_of_child? hobject)]

end Descent

theorem descends_step : Tree.Descends accessShape.Carries step := by
  intro node left right hcarries hagree
  rw [step, step]
  split
  · rfl
  · rfl
  · exact typeDeclaration_congr hagree
  · exact typeDeclaration_congr hagree
  · exact typeDeclaration_congr hagree
  · exact typeDeclaration_congr hagree
  · exact typeDeclaration_congr hagree
  · exact method_congr hagree
  · exact method_congr hagree
  · exact method_congr hagree
  · exact field_congr hagree
  · exact field_congr hagree
  · simp only [visitField_congr hagree]
  · exact localVariables_congr hagree
  · simp only [visitField_congr hagree, fieldForM_congr _ fun _ h => parameters_congr (hagree.below h)]
  · exact congrArg _ (visitChildren_congr hagree)
  · exact boundStatement_congr hagree
  · exact boundStatement_congr hagree
  · exact boundStatement_congr hagree
  · exact invocation_congr hagree
  · rename_i hkind
    exact memberUse_congr hagree hcarries (hkind ▸ List.mem_cons_self)
  · rfl
  · rfl
  · rfl
  · rfl
  · rfl
  · rfl
  · exact visitChildren_congr hagree

end CodeGraph.Java
