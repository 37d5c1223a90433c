import CodeGraph.Facts.Go
import CodeGraph.Proofs.Facts.Descent
import CodeGraph.Proofs.Facts.Walk

/-!
# Walks of Go files

They keep the facts well formed, and at every node they go down.
-/

namespace CodeGraph.Go

open Walk

theorem yields_defineByCase {count : Nat} {kind : NodeKind} (name node : Tree)
    (hkind : kind.isSymbol = true) :
    Yields count needsOne (defineByCase kind name node) :=
  (keeps_textOf name).bind fun _ => yields_define _ _ _ hkind

theorem keeps_packageClause (node : Tree) : Keeps 0 (packageClause node) := by
  rw [packageClause]
  split
  · exact (keeps_textOf _).bind fun _ => keeps_setPackage _
  · exact keeps_pure ()

theorem keeps_importSpec (node : Tree) : Keeps 0 (importSpec node) := by
  rw [importSpec]
  split
  · exact keeps_pure ()
  · refine (keeps_textOf _).bind fun _ => (keeps_sourceRange node).bind fun _ => ?_
    split
    · exact keeps_importing _
    · split
      · exact keeps_importing _
      · split
        · exact keeps_importing _
        · exact (keeps_textOf _).bind fun _ => keeps_importing _

theorem yields_defineValues (node : Tree) (names : List Tree) :
    Yields 0 needsOption (defineValues node names) := by
  refine yields_foldlM (fun first name => ?_) (Nat.le_refl _)
  refine (keeps_textOf name).bind fun text => ?_
  split
  · exact yields_pure first (Nat.le_max_right _ _)
  · refine (yields_defineByCase name node (by rfl)).bind fun symbol => yields_pure _ ?_
    cases first with
    | none => exact Nat.le_max_right _ _
    | some first => exact (Nat.le_max_right _ _).trans (Nat.le_max_left _ _)

theorem keeps_qualifiedType (node : Tree) : Keeps 0 (qualifiedType node) := by
  rw [qualifiedType]
  split
  · exact (keeps_textOf _).bind fun _ => (keeps_textOf _).bind fun _ => keeps_referencePath _
  · exact keeps_pure ()

section Visit

variable {visit : Visit} (hvisit : ∀ node, Keeps 0 (visit node))

include hvisit

theorem keeps_parameters {count : Nat} (node : Tree) : Keeps count (parameters visit node) :=
  keeps_forM fun declaration _ => (keeps_visitField hvisit declaration _).bind fun _ =>
    keeps_forM fun name _ => (keeps_textOf name).bind fun _ => keeps_bindLocal _

theorem keeps_signatureAndBody {count : Nat} (node : Tree) :
    Keeps count (signatureAndBody visit node) :=
  (keeps_visitField hvisit node _).bind fun _ =>
  (keeps_optionForM fun found _ => keeps_parameters hvisit found).bind fun _ =>
  (keeps_visitField hvisit node _).bind fun _ => keeps_visitField hvisit node _

theorem keeps_function (node : Tree) : Keeps 0 (function visit node) := by
  rw [function]
  split
  · exact keeps_visitChildren hvisit node
  · exact (yields_defineByCase _ node (by rfl)).bind fun symbol =>
      keeps_inSymbol (Nat.le_max_right _ _) _ node (keeps_signatureAndBody hvisit node)

theorem keeps_methodBody {count : Nat} (node name : Tree) :
    Keeps count (methodBody visit node name) :=
  (yields_defineByCase name node (by rfl)).bind fun symbol =>
    keeps_inSymbol (Nat.le_max_right _ _) _ node <|
      (keeps_optionForM fun found _ => keeps_parameters hvisit found).bind fun _ =>
      keeps_signatureAndBody hvisit node

/-- The receiver's type is looked up in the facts that are there, so its symbol exists. -/
theorem keeps_method (node : Tree) : Keeps 0 (method visit node) := by
  rw [method]
  split
  · exact keeps_visitChildren hvisit node
  · rename_i name _
    refine (keeps_optionMapM keeps_textOf).bind fun receiverName =>
      (keeps_optionMapM keeps_textOf).bind fun receiverType => ?_
    refine yields_get_bind fun facts hformed => keeps_inAnonymous _ node ?_
    have hbody : ∀ count, Keeps count (methodBody visit node name) := fun _ =>
      keeps_methodBody hvisit node name
    have howner : ∀ owner, receiverType.bind facts.topLevelSymbol? = some owner →
        owner < max 0 facts.symbols.length := by
      intro owner hfound
      obtain ⟨text, -, htop⟩ := Option.bind_eq_some_iff.1 hfound
      exact (hformed.topLevelSymbol?_lt htop).trans_le (Nat.le_max_right _ _)
    split
    · exact keeps_withOwner (howner _ ‹_›) (keeps_withSelfName _ (hbody _))
    · exact keeps_withOwner (howner _ ‹_›) (hbody _)
    · exact (keeps_optionForM fun type _ => keeps_reference type).bind fun _ => hbody _

theorem keeps_typeSpec (node : Tree) : Keeps 0 (typeSpec visit node) := by
  rw [typeSpec]
  split
  · exact keeps_visitChildren hvisit node
  · exact (yields_defineByCase _ node (by rfl)).bind fun symbol =>
      keeps_inSymbol (Nat.le_max_right _ _) _ node <|
        (keeps_visitField hvisit node _).bind fun _ => keeps_visitField hvisit node _

theorem keeps_valueSpec (node : Tree) : Keeps 0 (valueSpec visit node) := by
  refine (keeps_visitField hvisit node _).bind fun _ => keeps_inFunction.bind fun inFunction => ?_
  split
  · exact (keeps_visitField hvisit node _).bind fun _ =>
      keeps_forM fun name _ => (keeps_textOf name).bind fun _ => keeps_bindLocal _
  · refine (yields_defineValues node _).bind fun symbol => ?_
    split
    · exact keeps_withOwner (Nat.le_max_right _ _) (keeps_visitField hvisit node _)
    · exact keeps_visitField hvisit node _

theorem keeps_bindLeft (node : Tree) : Keeps 0 (bindLeft visit node) :=
  (keeps_visitField hvisit node _).bind fun _ =>
    keeps_optionForM fun left _ => keeps_bindPattern _ left

theorem keeps_step (node : Tree) : Keeps 0 (step visit node) := by
  rw [step]
  split
  · exact keeps_packageClause node
  · exact keeps_importSpec node
  · exact keeps_function hvisit node
  · exact keeps_method hvisit node
  · exact keeps_typeSpec hvisit node
  · exact keeps_typeSpec hvisit node
  · exact keeps_valueSpec hvisit node
  · exact keeps_valueSpec hvisit node
  · exact keeps_bindLeft hvisit node
  · exact keeps_bindLeft hvisit node
  · exact keeps_inAnonymous _ node (keeps_signatureAndBody hvisit node)
  · exact keeps_memberUse hvisit selectorShape node
  · exact keeps_qualifiedType node
  · exact keeps_optionForM fun child _ => hvisit child
  · exact keeps_reference node
  · exact keeps_reference node
  · exact keeps_pure ()
  · exact keeps_pure ()
  · exact keeps_pure ()
  · exact keeps_pure ()
  · exact keeps_pure ()
  · exact keeps_visitChildren hvisit node

end Visit

/-! ### Where the walks go -/

section Descent

variable {node : Tree} {left right : Visit} (hagree : node.AgreeBelow left right)

include hagree

theorem parameters_congr : parameters left node = parameters right node := by
  refine forM_congr fun declaration hdeclaration => ?_
  rw [visitField_congr (hagree.below (Tree.mem_children_of_named hdeclaration))]

theorem signatureAndBody_congr : signatureAndBody left node = signatureAndBody right node := by
  simp only [signatureAndBody, visitField_congr hagree,
    fieldForM_congr _ fun _ h => parameters_congr (hagree.below h)]

theorem function_congr : function left node = function right node := by
  simp only [function, visitChildren_congr hagree, signatureAndBody_congr hagree]

theorem methodBody_congr (name : Tree) :
    methodBody left node name = methodBody right node name := by
  simp only [methodBody, signatureAndBody_congr hagree,
    fieldForM_congr _ fun _ h => parameters_congr (hagree.below h)]

theorem method_congr : method left node = method right node := by
  simp only [method, visitChildren_congr hagree, methodBody_congr hagree]

theorem typeSpec_congr : typeSpec left node = typeSpec right node := by
  simp only [typeSpec, visitChildren_congr hagree, visitField_congr hagree]

theorem valueSpec_congr : valueSpec left node = valueSpec right node := by
  simp only [valueSpec, visitField_congr hagree]

theorem bindLeft_congr : bindLeft left node = bindLeft right node := by
  simp only [bindLeft, visitField_congr hagree]

end Descent

theorem descends_step : Tree.Descends selectorShape.Carries step := by
  intro node left right hcarries hagree
  rw [step, step]
  split
  · rfl
  · rfl
  · exact function_congr hagree
  · exact method_congr hagree
  · exact typeSpec_congr hagree
  · exact typeSpec_congr hagree
  · exact valueSpec_congr hagree
  · exact valueSpec_congr hagree
  · exact bindLeft_congr hagree
  · exact bindLeft_congr hagree
  · exact congrArg _ (signatureAndBody_congr hagree)
  · rename_i hkind
    exact memberUse_congr hagree hcarries (hkind ▸ List.mem_cons_self)
  · rfl
  · exact optionForM_congr fun child hchild =>
      hagree.eq (Tree.mem_children_of_named (List.mem_of_getLast? hchild))
  · rfl
  · rfl
  · rfl
  · rfl
  · rfl
  · rfl
  · rfl
  · exact visitChildren_congr hagree

end CodeGraph.Go
