import CodeGraph.Facts.Rust
import CodeGraph.Proofs.Facts.Descent
import CodeGraph.Proofs.Facts.Walk

/-!
# Walks of Rust files

They keep the facts well formed, and at every node they go down.
-/

namespace CodeGraph.Rust

open Walk

theorem keeps_segmentsWithin {count : Nat} (fuel : Nat) (node : Tree) :
    Keeps count (segmentsWithin fuel node) := by
  induction fuel generalizing node with
  | zero => exact keeps_pure none
  | succ fuel ih =>
    rw [segmentsWithin]
    split
    iterate 6
      · exact (keeps_textOf node).bind fun _ => keeps_pure _
    -- a scoped path: the part before the last separator first, then its name
    iterate 2
      · dsimp only
        split
        · refine (ih _).bind fun outer => ?_
          split
          · exact (keeps_textOf _).bind fun _ => keeps_pure _
          · exact keeps_pure none
        · refine (keeps_pure (some [])).bind fun outer => ?_
          split
          · exact (keeps_textOf _).bind fun _ => keeps_pure _
          · exact keeps_pure none
    · exact keeps_pure none

theorem keeps_segments? {count : Nat} (node : Tree) : Keeps count (segments? node) :=
  keeps_segmentsWithin _ node

theorem keeps_pathRef? {count : Nat} (node : Tree) : Keeps count (pathRef? node) := by
  rw [pathRef?]
  split
  · exact keeps_pure none
  · refine (keeps_segments? _).bind fun segments => ?_
    split
    · exact keeps_pure _
    · exact keeps_pure none

/-- The class an `impl` block extends is looked up in the facts that are there. -/
theorem yields_implOwner? (node : Tree) : Yields 0 needsOption (implOwner? node) := by
  refine (keeps_optionMapM keeps_textOf).bind fun text => ?_
  split
  · exact yields_pure none (Nat.le_refl _)
  · refine yields_get_bind fun facts hformed => yields_pure _ ?_
    cases hfound : (facts.topLevelSymbol? _).filter _ with
    | none => exact Nat.zero_le _
    | some index =>
      have htop := (Option.filter_eq_some_iff.1 hfound).1
      exact (Nat.succ_le_of_lt (hformed.topLevelSymbol?_lt htop)).trans (Nat.le_max_right _ _)

theorem keeps_usePathsWithin {count : Nat} (fuel : Nat) (outer : List String) (node : Tree) :
    Keeps count (usePathsWithin fuel outer node) := by
  induction fuel generalizing outer node with
  | zero => exact keeps_pure []
  | succ fuel ih =>
    rw [usePathsWithin]
    split
    iterate 6
      · refine (keeps_segments? node).bind fun segments => ?_
        split
        · exact keeps_pure _
        · exact keeps_pure []
    · split
      · refine (keeps_segments? _).bind fun segments => ?_
        split
        · exact (keeps_textOf _).bind fun _ => keeps_pure _
        · exact keeps_pure []
      · exact keeps_pure []
    · split
      · exact (keeps_segments? _).bind fun _ => keeps_pure _
      · exact keeps_pure _
    · dsimp only
      split
      · refine (keeps_segments? _).bind fun segments => ?_
        split
        · exact ih _ _
        · exact keeps_pure []
      · refine (keeps_pure none).bind fun segments => ?_
        split
        · exact ih _ _
        · exact keeps_pure []
    · exact (keeps_mapM fun child _ => ih outer child).bind fun _ => keeps_pure _
    · exact keeps_pure []

theorem keeps_importPath (range : SourceRange) (isReexport : Bool) (path : UsePath) :
    Keeps 0 (importPath range isReexport path) := by
  rw [importPath]
  dsimp only
  split
  · exact keeps_importing _
  · split
    · exact keeps_pure ()
    · split
      · exact keeps_importing _
      · exact keeps_importing _

theorem keeps_inInlineModule : Keeps 0 inInlineModule :=
  (keeps_read.bind fun _ => keeps_pure _ : Keeps 0 atModuleRoot).bind fun _ =>
    keeps_scope?.bind fun _ => keeps_pure _

theorem keeps_useDeclaration (node : Tree) : Keeps 0 (useDeclaration node) := by
  rw [useDeclaration]
  split
  · exact keeps_pure ()
  · exact (keeps_sourceRange node).bind fun _ => (keeps_usePathsWithin _ _ _).bind fun _ =>
      keeps_inInlineModule.bind fun _ => keeps_forM fun path _ => keeps_importPath _ _ path

theorem keeps_externCrate (node : Tree) : Keeps 0 (externCrate node) := by
  rw [externCrate]
  split
  · exact keeps_pure ()
  · exact (keeps_textOf _).bind fun _ => (keeps_optionMapM keeps_textOf).bind fun _ =>
      (keeps_sourceRange node).bind fun _ => keeps_importing _

theorem keeps_bindField {count : Nat} (node : Tree) : Keeps count (bindField node) :=
  keeps_optionForM fun pattern _ => keeps_bindPattern bindings pattern

section Visit

variable {visit : Visit} (hvisit : ∀ node, Keeps 0 (visit node))

include hvisit

theorem keeps_parameter {count : Nat} (node : Tree) : Keeps count (parameter visit node) := by
  rw [parameter]
  split
  · exact (keeps_visitField hvisit node _).bind fun _ => keeps_bindField node
  · exact keeps_pure ()
  · exact keeps_pure ()
  · exact keeps_bindPattern bindings node

theorem keeps_parameters {count : Nat} (node : Tree) : Keeps count (parameters visit node) :=
  keeps_forM fun child _ => keeps_parameter hvisit child

theorem keeps_function (node : Tree) : Keeps 0 (function visit node) := by
  rw [function]
  split
  · exact keeps_visitChildren hvisit node
  · exact (yields_define _ _ _ (by rfl)).bind fun symbol =>
      keeps_inSymbol (Nat.le_max_right _ _) _ node <|
      (keeps_visitField hvisit node _).bind fun _ =>
      (keeps_optionForM fun found _ => keeps_parameters hvisit found).bind fun _ =>
      (keeps_visitField hvisit node _).bind fun _ => keeps_visitField hvisit node _

theorem keeps_typeItem (node : Tree) : Keeps 0 (typeItem visit node) := by
  rw [typeItem]
  split
  · exact keeps_visitChildren hvisit node
  · exact (yields_define _ _ _ (by rfl)).bind fun symbol =>
      keeps_inSymbol (Nat.le_max_right _ _) _ node <|
      (keeps_visitField hvisit node _).bind fun _ =>
      (keeps_visitField hvisit node _).bind fun _ =>
      (keeps_visitField hvisit node _).bind fun _ => keeps_visitField hvisit node _

theorem keeps_valueItem (node : Tree) : Keeps 0 (valueItem visit node) := by
  rw [valueItem]
  split
  · exact keeps_visitChildren hvisit node
  · exact (keeps_visitField hvisit node _).bind fun _ =>
      (yields_define _ _ _ (by rfl)).bind fun symbol =>
      keeps_withOwner (Nat.le_max_right _ _) (keeps_visitField hvisit node _)

theorem keeps_moduleItem (node : Tree) : Keeps 0 (moduleItem visit node) := by
  rw [moduleItem]
  split
  · exact keeps_pure ()
  · split
    · exact (keeps_textOf _).bind fun _ => (keeps_sourceRange node).bind fun _ => keeps_importing _
    · exact (yields_define _ _ _ (by rfl)).bind fun symbol =>
        keeps_inSymbol (Nat.le_max_right _ _) _ node (keeps_visitChildren hvisit _)

/-- What an `impl` block makes of the type and the trait that it names. -/
theorem keeps_implBody (node : Tree) (owner : Option Nat) (base : Option NameRef) :
    Keeps (needsOption owner) (do
      match owner, base with
      | some owner, some base => addBase owner base
      | _, _ => pure ()
      visitField visit node "type_parameters"
      visitField visit node "trait"
      visitField visit node "type"
      match node.child? "body", owner with
      | some body, some owner => inSymbol owner .classBody node (visitChildren visit body)
      | some body, none => inAnonymous .classBody node (visitChildren visit body)
      | none, _ => pure ()) := by
  have hrest : ∀ done : Unit, Keeps (needsOption owner) (do
      visitField visit node "type_parameters"
      visitField visit node "trait"
      visitField visit node "type"
      match node.child? "body", owner with
      | some body, some owner => inSymbol owner .classBody node (visitChildren visit body)
      | some body, none => inAnonymous .classBody node (visitChildren visit body)
      | none, _ => pure ()) := by
    intro done
    refine (keeps_visitField hvisit node _).bind fun _ =>
      (keeps_visitField hvisit node _).bind fun _ => (keeps_visitField hvisit node _).bind fun _ => ?_
    split
    · exact keeps_inSymbol (Nat.lt_succ_self _) _ node (keeps_visitChildren hvisit _)
    · exact keeps_inAnonymous _ node (keeps_visitChildren hvisit _)
    · exact keeps_pure ()
  dsimp only
  split
  · exact (keeps_addBase _ _).bind hrest
  · exact hrest ()

theorem keeps_implBlock (node : Tree) : Keeps 0 (implBlock visit node) := by
  refine (yields_implOwner? node).bind fun owner => ?_
  have hbody : ∀ base : Option NameRef, Keeps (max 0 (needsOption owner)) _ := fun base =>
    (keeps_implBody hvisit node owner base).mono (Nat.le_max_right _ _)
  dsimp only
  split
  · exact (keeps_pathRef? _).bind hbody
  · exact hbody none

theorem keeps_scopedUse (node : Tree) : Keeps 0 (scopedUse visit node) := by
  refine (keeps_pathRef? node).bind fun target => ?_
  split
  · exact keeps_visitChildren hvisit node
  · split
    · refine keeps_enclosingClass?.bind fun enclosing => ?_
      split
      · exact keeps_selfMember _ _
      · exact keeps_pure ()
    · split
      · exact keeps_pure ()
      · exact keeps_referencePath _

theorem keeps_letDeclaration (node : Tree) : Keeps 0 (letDeclaration visit node) :=
  (keeps_visitField hvisit node _).bind fun _ =>
  (keeps_visitField hvisit node _).bind fun _ =>
  (keeps_visitField hvisit node _).bind fun _ => keeps_bindField node

theorem keeps_closure (node : Tree) : Keeps 0 (closure visit node) :=
  keeps_inAnonymous _ node <|
    (keeps_optionForM fun found _ => keeps_parameters hvisit found).bind fun _ =>
    (keeps_visitField hvisit node _).bind fun _ => keeps_visitField hvisit node _

/-- Two fields of a node, one after the other. -/
theorem keeps_visitFields (node : Tree) (first second : String) :
    Keeps 0 (do visitField visit node first; visitField visit node second) :=
  (keeps_visitField hvisit node first).bind fun _ => keeps_visitField hvisit node second

theorem keeps_step (node : Tree) : Keeps 0 (step visit node) := by
  rw [step]
  split
  · exact keeps_function hvisit node
  · exact keeps_function hvisit node
  · exact keeps_typeItem hvisit node
  · exact keeps_typeItem hvisit node
  · exact keeps_typeItem hvisit node
  · exact keeps_typeItem hvisit node
  · exact keeps_typeItem hvisit node
  · exact keeps_valueItem hvisit node
  · exact keeps_valueItem hvisit node
  · exact keeps_moduleItem hvisit node
  · exact keeps_implBlock hvisit node
  · exact keeps_useDeclaration node
  · exact keeps_externCrate node
  · exact keeps_letDeclaration hvisit node
  · exact (keeps_visitField hvisit node _).bind fun _ => keeps_bindField node
  · exact (keeps_visitField hvisit node _).bind fun _ => keeps_inAnonymous _ node <|
      (keeps_bindField node).bind fun _ => keeps_visitField hvisit node _
  · exact keeps_inAnonymous _ node <|
      (keeps_bindField node).bind fun _ => keeps_visitField hvisit node _
  · exact keeps_closure hvisit node
  · exact keeps_memberUse hvisit fieldShape node
  · exact keeps_scopedUse hvisit node
  · exact keeps_scopedUse hvisit node
  · exact keeps_visitField hvisit node _
  · exact keeps_visitFields hvisit node _ _
  · exact keeps_visitField hvisit node _
  · exact keeps_visitFields hvisit node _ _
  · exact keeps_reference node
  · exact keeps_reference node
  · exact keeps_reference node
  · exact keeps_pure ()
  · exact keeps_pure ()
  · exact keeps_pure ()
  · exact keeps_pure ()
  · exact keeps_pure ()
  · exact keeps_pure ()
  · exact keeps_pure ()
  · exact keeps_pure ()
  · exact keeps_visitChildren hvisit node

end Visit

/-! ### Where the walks go -/

section Descent

variable {node : Tree} {left right : Visit} (hagree : node.AgreeBelow left right)

include hagree

theorem parameter_congr : parameter left node = parameter right node := by
  simp only [parameter, visitField_congr hagree]

theorem parameters_congr : parameters left node = parameters right node :=
  namedForM_congr fun _ h => parameter_congr (hagree.below h)

theorem function_congr : function left node = function right node := by
  simp only [function, visitChildren_congr hagree, visitField_congr hagree,
    fieldForM_congr _ fun _ h => parameters_congr (hagree.below h)]

theorem typeItem_congr : typeItem left node = typeItem right node := by
  simp only [typeItem, visitChildren_congr hagree, visitField_congr hagree]

theorem valueItem_congr : valueItem left node = valueItem right node := by
  simp only [valueItem, visitChildren_congr hagree, visitField_congr hagree]

theorem moduleItem_congr : moduleItem left node = moduleItem right node := by
  rw [moduleItem, moduleItem]
  cases hbody : node.child? "body" with
  | none => rfl
  | some body =>
    simp only [visitChildren_congr (hagree.below (Tree.mem_children_of_child? hbody))]

theorem implBlock_congr : implBlock left node = implBlock right node := by
  rw [implBlock, implBlock]
  simp only [visitField_congr hagree]
  cases hbody : node.child? "body" with
  | none => rfl
  | some body =>
    have hvisit := visitChildren_congr (hagree.below (Tree.mem_children_of_child? hbody))
    refine congrArg _ (funext fun owner => ?_)
    cases owner <;> simp only [hvisit]

theorem scopedUse_congr : scopedUse left node = scopedUse right node := by
  simp only [scopedUse, visitChildren_congr hagree]

theorem letDeclaration_congr : letDeclaration left node = letDeclaration right node := by
  simp only [letDeclaration, visitField_congr hagree]

theorem closure_congr : closure left node = closure right node := by
  simp only [closure, visitField_congr hagree,
    fieldForM_congr _ fun _ h => parameters_congr (hagree.below h)]

end Descent

theorem descends_step : Tree.Descends fieldShape.Carries step := by
  intro node left right hcarries hagree
  rw [step, step]
  split
  · exact function_congr hagree
  · exact function_congr hagree
  · exact typeItem_congr hagree
  · exact typeItem_congr hagree
  · exact typeItem_congr hagree
  · exact typeItem_congr hagree
  · exact typeItem_congr hagree
  · exact valueItem_congr hagree
  · exact valueItem_congr hagree
  · exact moduleItem_congr hagree
  · exact implBlock_congr hagree
  · rfl
  · rfl
  · exact letDeclaration_congr hagree
  · simp only [visitField_congr hagree]
  · simp only [visitField_congr hagree]
  · simp only [visitField_congr hagree]
  · exact closure_congr hagree
  · rename_i hkind
    exact memberUse_congr hagree hcarries (hkind ▸ List.mem_cons_self)
  · exact scopedUse_congr hagree
  · exact scopedUse_congr hagree
  · exact visitField_congr hagree _
  · simp only [visitField_congr hagree]
  · exact visitField_congr hagree _
  · simp only [visitField_congr hagree]
  · rfl
  · rfl
  · rfl
  · rfl
  · rfl
  · rfl
  · rfl
  · rfl
  · rfl
  · rfl
  · rfl
  · exact visitChildren_congr hagree

end CodeGraph.Rust
