import CodeGraph.Facts.Python
import CodeGraph.Proofs.Facts.Descent
import CodeGraph.Proofs.Facts.Walk

/-!
# Walks of Python files

They keep the facts well formed, and at every node they go down.
-/

namespace CodeGraph.Python

open Walk

theorem keeps_importedModule (range : SourceRange) (name : Tree) :
    Keeps 0 (importedModule range name) := by
  rw [importedModule]
  split
  · exact (keeps_textOf name).bind fun _ => keeps_importing _
  · split
    · exact (keeps_textOf _).bind fun _ => (keeps_textOf _).bind fun _ => keeps_importing _
    · exact keeps_pure ()
  · exact keeps_pure ()

theorem keeps_importStatement (node : Tree) : Keeps 0 (importStatement node) :=
  (keeps_sourceRange node).bind fun range => keeps_forM fun name _ => keeps_importedModule range name

theorem keeps_importedMember (fact : ImportFact) (name : Tree) :
    Keeps 0 (importedMember fact name) := by
  rw [importedMember]
  split
  · exact (keeps_textOf name).bind fun _ => keeps_importing _
  · split
    · exact keeps_pure ()
    · exact (keeps_optionMapM keeps_textOf).bind fun _ =>
        (keeps_textOf _).bind fun _ => keeps_importing _
  · exact keeps_pure ()

theorem keeps_importFrom (node : Tree) : Keeps 0 (importFrom node) := by
  rw [importFrom]
  split
  · exact keeps_pure ()
  · refine (keeps_textOf _).bind fun _ => (keeps_sourceRange node).bind fun _ => ?_
    split
    · exact keeps_importing _
    · exact keeps_forM fun name _ => keeps_importedMember _ name

theorem keeps_exportList (list : Tree) : Keeps 0 (exportList list) := by
  refine keeps_forM fun item _ => ?_
  split
  · exact (keeps_textOf item).bind fun _ => keeps_markExported _
  · exact keeps_pure ()

theorem keeps_exportsNames (left : Tree) : Keeps 0 (exportsNames left) :=
  keeps_inFunction.bind fun _ => (keeps_textOf left).bind fun _ => keeps_pure _

theorem yields_assignName (statement target : Tree) :
    Yields 0 needsOption (assignName statement target) := by
  refine (keeps_textOf target).bind fun name => keeps_inFunction.bind fun inFunction => ?_
  split
  · exact (keeps_bindLocal name).bind fun _ => yields_pure none (Nat.zero_le _)
  · refine (keeps_declaredHere name).bind fun declared => ?_
    split
    · exact yields_pure none (Nat.zero_le _)
    · exact (yields_define _ _ _ (by rfl)).bind fun symbol =>
        yields_pure (some symbol) (Nat.le_max_right ..)

section Visit

variable {visit : Visit} (hvisit : ∀ node, Keeps 0 (visit node))

include hvisit

theorem keeps_visitDefaults (parameters : Tree) : Keeps 0 (visitDefaults visit parameters) :=
  keeps_forM fun parameter _ =>
    (keeps_visitField hvisit parameter "value").bind fun _ =>
    keeps_visitField hvisit parameter "type"

theorem keeps_function (node : Tree) : Keeps 0 (function visit node) := by
  rw [function]
  split
  · exact keeps_visitChildren hvisit node
  · refine (keeps_optionForM fun found _ => keeps_visitDefaults hvisit found).bind fun _ =>
      (keeps_visitField hvisit node _).bind fun _ =>
      (yields_define _ _ _ (by rfl)).bind fun symbol => ?_
    exact keeps_inSymbol (Nat.le_max_right ..) _ node <|
      (keeps_optionForM fun found _ => keeps_bindPattern identifiers found).bind fun _ =>
      keeps_visitField hvisit node "body"

theorem keeps_base (symbol : Nat) (argument : Tree) {count : Nat} :
    Keeps count (base visit symbol argument) := by
  rw [base]
  split
  · refine (keeps_memberChain? _ _).bind fun chain => ?_
    split
    · exact (keeps_addBase symbol _).bind fun _ => keeps_referencePath _
    · exact keeps_pure ()
  · exact keeps_visit hvisit argument

theorem keeps_classDefinition (node : Tree) : Keeps 0 (classDefinition visit node) := by
  rw [classDefinition]
  split
  · exact keeps_visitChildren hvisit node
  · refine (yields_define _ _ _ (by rfl)).bind fun symbol => ?_
    have hsymbol : symbol < max 0 (needsOne symbol) := Nat.le_max_right ..
    have hbody := keeps_inSymbol hsymbol .classBody node (keeps_visitField hvisit node "body")
    split
    · exact (keeps_withOwner hsymbol (keeps_forM fun argument _ =>
        keeps_base hvisit symbol argument)).bind fun _ => hbody
    · exact (keeps_pure ()).bind fun _ => hbody

theorem yields_assignTargets (statement target : Tree) :
    Yields 0 needsOption (assignTargets visit statement target) := by
  refine yields_foldlM (fun first leaf => ?_) (Nat.le_refl _)
  split
  · refine ((yields_assignName statement leaf).mono (Nat.zero_le _)).bind fun second => ?_
    refine yields_pure _ ?_
    cases first with
    | none => exact Nat.le_max_right ..
    | some symbol => exact (Nat.le_max_right ..).trans (Nat.le_max_left ..)
  · exact (keeps_visit hvisit leaf).bind fun _ => yields_pure first (Nat.le_max_right ..)

theorem keeps_assignment (node : Tree) : Keeps 0 (assignment visit node) := by
  refine (keeps_visitField hvisit node "type").bind fun _ => ?_
  extract_lets left right visitValue assign
  clear_value left right
  have hvalue : ∀ symbol, Keeps (needsOption symbol) (visitValue symbol) := by
    intro symbol
    dsimp only [visitValue]
    split
    · exact keeps_withOwner (Nat.lt_succ_self _) (keeps_visit hvisit _)
    · exact keeps_visit hvisit _
    · exact keeps_pure ()
  have hassign : ∀ done, Keeps 0 (assign done) := by
    intro done
    dsimp only [assign]
    split
    · exact (yields_assignTargets hvisit node _).bind fun symbol =>
        (hvalue symbol).mono (Nat.le_max_right _ _)
    · exact hvalue none
  split
  · refine (keeps_exportsNames _).bind fun exporting => ?_
    split
    · exact (keeps_exportList _).bind hassign
    · exact hassign ()
  · exact hassign ()

theorem keeps_augmentedAssignment (node : Tree) : Keeps 0 (augmentedAssignment visit node) := by
  rw [augmentedAssignment]
  split
  · refine (keeps_exportsNames _).bind fun exporting => ?_
    have hrest : ∀ left right, Keeps 0 (do visit left; visit right) := fun left right =>
      (hvisit left).bind fun _ => hvisit right
    split
    · exact (keeps_exportList _).bind fun _ => hrest _ _
    · exact hrest _ _
  · exact keeps_visitChildren hvisit node

theorem keeps_bindTargets (target : Tree) : Keeps 0 (bindTargets visit target) := by
  rw [bindTargets]
  split
  · exact hvisit target
  · exact keeps_bindPattern identifiers target

theorem keeps_loop (node : Tree) : Keeps 0 (loop visit node) :=
  (keeps_visitField hvisit node _).bind fun _ =>
  (keeps_optionForM fun target _ => keeps_bindTargets hvisit target).bind fun _ =>
  (keeps_visitField hvisit node _).bind fun _ => keeps_visitField hvisit node _

theorem keeps_asPatternChildren (bound : Bool) (children : List Tree) :
    Keeps 0 (asPatternChildren visit bound children) := by
  induction children generalizing bound with
  | nil => exact keeps_pure ()
  | cons child rest ih =>
    rw [asPatternChildren]
    dsimp only
    split
    · split
      · exact (keeps_bindTargets hvisit child).bind fun _ => ih _
      · exact (hvisit child).bind fun _ => ih _
    · exact ih _

theorem keeps_exceptChildren (afterAs : Bool) (children : List Tree) :
    Keeps 0 (exceptChildren visit afterAs children) := by
  induction children generalizing afterAs with
  | nil => exact keeps_pure ()
  | cons child rest ih =>
    rw [exceptChildren]
    split
    · dsimp only
      split
      · exact (keeps_textOf child).bind fun _ => (keeps_bindLocal _).bind fun _ => ih _
      · exact (hvisit child).bind fun _ => ih _
    · exact ih _

omit hvisit in
theorem keeps_lookupLiteral? (function arguments : Tree) :
    Keeps 0 (lookupLiteral? function arguments) := by
  refine (keeps_textOf function).bind fun _ => ?_
  split
  · exact keeps_pure _
  · exact keeps_pure _

theorem keeps_call (node : Tree) : Keeps 0 (call visit node) := by
  have hchildren : Keeps 0 (visitChildren visit node) := keeps_visitChildren hvisit node
  rw [call]
  dsimp only
  split
  · refine (keeps_lookupLiteral? _ _).bind fun literal => ?_
    split
    · exact (keeps_textOf _).bind fun _ => (keeps_stringLookup _ _).bind fun _ => hchildren
    · exact hchildren
  · exact hchildren

theorem keeps_step (node : Tree) : Keeps 0 (step visit node) := by
  rw [step]
  split
  · exact keeps_function hvisit node
  · exact keeps_classDefinition hvisit node
  · exact keeps_importStatement node
  · exact keeps_importFrom node
  · exact keeps_pure ()
  · exact keeps_pure ()
  · exact keeps_pure ()
  · exact keeps_pure ()
  · exact keeps_assignment hvisit node
  · exact keeps_augmentedAssignment hvisit node
  · exact keeps_loop hvisit node
  · exact keeps_loop hvisit node
  · exact keeps_asPatternChildren hvisit false node.children
  · exact keeps_exceptChildren hvisit false node.children
  · exact (keeps_visitField hvisit node _).bind fun _ =>
      keeps_optionForM fun target _ => keeps_bindTargets hvisit target
  · exact keeps_inAnonymous _ node <|
      (keeps_optionForM fun parameters _ => keeps_bindPattern identifiers parameters).bind fun _ =>
      keeps_visitField hvisit node _
  · exact keeps_memberUse hvisit attributeShape node
  · exact keeps_call hvisit node
  · exact keeps_visitField hvisit node _
  · exact keeps_reference node
  · exact keeps_visitChildren hvisit node

end Visit

/-! ### Where the walks go -/

section Descent

variable {node : Tree} {left right : Visit} (hagree : node.AgreeBelow left right)

include hagree

theorem visitDefaults_congr : visitDefaults left node = visitDefaults right node := by
  refine namedForM_congr fun parameter hparameter => ?_
  simp only [visitField_congr (hagree.below hparameter)]

theorem function_congr : function left node = function right node := by
  simp only [function, visitChildren_congr hagree, visitField_congr hagree,
    fieldForM_congr _ fun _ h => visitDefaults_congr (hagree.below h)]

theorem classDefinition_congr : classDefinition left node = classDefinition right node := by
  rw [classDefinition, classDefinition, visitChildren_congr hagree, visitField_congr hagree]
  cases hsuperclasses : node.child? "superclasses" with
  | none => rfl
  | some superclasses =>
    have hinside := hagree.below (Tree.mem_children_of_child? hsuperclasses)
    have hbases : ∀ symbol, superclasses.namedChildren.forM (base left symbol) =
        superclasses.namedChildren.forM (base right symbol) := fun symbol =>
      namedForM_congr fun argument hargument => by
        rw [base, base, hinside.eq hargument]
    simp only [hbases]

theorem assignTargets_congr {target : Tree} (htarget : target ∈ node.children) (statement : Tree) :
    assignTargets left statement target = assignTargets right statement target := by
  refine foldlM_congr fun first leaf hleaf => ?_
  have hvisit : left leaf = right leaf := by
    obtain rfl | hinner := Tree.encloses_of_mem_leavesWithin hleaf
    · exact hagree.eq htarget
    · exact hagree.below htarget leaf hinner
  rw [hvisit]

theorem assignment_congr : assignment left node = assignment right node := by
  rw [assignment, assignment, visitField_congr hagree]
  refine congrArg _ (funext fun _ => ?_)
  extract_lets target value last assign last' assign'
  have hlast : last = last' := by
    funext symbol
    dsimp only [last, last', value]
    split
    · rw [hagree.eq (Tree.mem_children_of_child? ‹_›)]
    · exact hagree.eq (Tree.mem_children_of_child? ‹_›)
    · rfl
  have hassign : assign = assign' := by
    funext done
    dsimp only [assign, assign', target]
    rw [hlast]
    split
    · rw [assignTargets_congr hagree (Tree.mem_children_of_child? ‹_›)]
    · rfl
  rw [hassign]

theorem augmentedAssignment_congr :
    augmentedAssignment left node = augmentedAssignment right node := by
  rw [augmentedAssignment, augmentedAssignment, visitChildren_congr hagree]
  split
  · rename_i target value htarget hvalue
    rw [hagree.eq (Tree.mem_children_of_child? htarget),
      hagree.eq (Tree.mem_children_of_child? hvalue)]
  · rfl

theorem bindTargets_congr {target : Tree} (htarget : target ∈ node.children) :
    bindTargets left target = bindTargets right target := by
  rw [bindTargets, bindTargets, hagree.eq htarget]

theorem loop_congr : loop left node = loop right node := by
  simp only [loop, visitField_congr hagree,
    fieldForM_congr _ fun _ h => bindTargets_congr hagree h]

theorem asPatternChildren_congr {children : List Tree}
    (hchildren : ∀ child ∈ children, child ∈ node.children) (bound : Bool) :
    asPatternChildren left bound children = asPatternChildren right bound children := by
  induction children generalizing bound with
  | nil => rfl
  | cons child rest ih =>
    have hchild := hchildren child List.mem_cons_self
    rw [asPatternChildren, asPatternChildren, bindTargets_congr hagree hchild, hagree.eq hchild]
    simp only [ih fun other hother => hchildren other (List.mem_cons_of_mem child hother)]

theorem exceptChildren_congr {children : List Tree}
    (hchildren : ∀ child ∈ children, child ∈ node.children) (afterAs : Bool) :
    exceptChildren left afterAs children = exceptChildren right afterAs children := by
  induction children generalizing afterAs with
  | nil => rfl
  | cons child rest ih =>
    rw [exceptChildren, exceptChildren, hagree.eq (hchildren child List.mem_cons_self)]
    simp only [ih fun other hother => hchildren other (List.mem_cons_of_mem child hother)]

theorem call_congr : call left node = call right node := by
  simp only [call, visitChildren_congr hagree]

end Descent

theorem descends_step : Tree.Descends attributeShape.Carries step := by
  intro node left right hcarries hagree
  rw [step, step]
  split
  · exact function_congr hagree
  · exact classDefinition_congr hagree
  · rfl
  · rfl
  · rfl
  · rfl
  · rfl
  · rfl
  · exact assignment_congr hagree
  · exact augmentedAssignment_congr hagree
  · exact loop_congr hagree
  · exact loop_congr hagree
  · exact asPatternChildren_congr hagree (fun _ h => h) false
  · exact exceptChildren_congr hagree (fun _ h => h) false
  · simp only [visitField_congr hagree, fieldForM_congr _ fun _ h => bindTargets_congr hagree h]
  · simp only [visitField_congr hagree]
  · rename_i hkind
    exact memberUse_congr hagree hcarries (hkind ▸ List.mem_cons_self)
  · exact call_congr hagree
  · exact visitField_congr hagree _
  · rfl
  · exact visitChildren_congr hagree

end CodeGraph.Python
