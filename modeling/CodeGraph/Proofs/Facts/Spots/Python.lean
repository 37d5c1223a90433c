import CodeGraph.Facts.Python
import CodeGraph.Proofs.Facts.Spots
import CodeGraph.Proofs.Text

/-!
# Marks in Python files

Modules are named in imports; names are used where they stand, alone or at the start of a chain of
attributes. Whatever else there is, the walk goes on to the parts of it that lie apart.
-/

namespace CodeGraph

/-! ### Chains -/

namespace Walk

/-- The property of a member access stands after its object, with something in between. -/
def MemberShape.Dotted (shape : MemberShape) (node : Tree) : Prop :=
  node.kind ∈ shape.members → ∀ object ∈ node.child? shape.object,
    ∀ property ∈ node.child? shape.property, object.range.stop < property.range.start

instance (shape : MemberShape) (node : Tree) : Decidable (shape.Dotted node) :=
  inferInstanceAs (Decidable (_ → _))

/-- The names of a chain take no more room with dots between them than the chain does. -/
theorem exists_front_of_memberChain {text : String} {shape : MemberShape} {range : ByteRange}
    {fuel : Nat} {node : Tree} {path : List String} {target : NameRef}
    (hnested : node.Everywhere Tree.Nested) (hdotted : node.Everywhere shape.Dotted)
    (hchain : memberChainWithin text shape range fuel node path = some target) :
    target.range = range ∧ ∃ front, front ≠ [] ∧ target.name :: target.path = front ++ path ∧
      node.range.start + Text.size (Text.join "." front) ≤ node.range.stop := by
  induction fuel generalizing node path with
  | zero => cases hchain
  | succ fuel ih =>
    rw [memberChainWithin] at hchain
    split at hchain
    · rename_i hkind
      obtain ⟨property, hproperty, hchain⟩ := Option.bind_eq_some_iff.1 hchain
      obtain ⟨name, hname, hchain⟩ := Option.bind_eq_some_iff.1 hchain
      obtain ⟨object, hobject, hchain⟩ := Option.bind_eq_some_iff.1 hchain
      have hobjectMem := Tree.mem_children_of_child? hobject
      have hbelow := Tree.encloses_of_mem hobjectMem
      obtain ⟨hrange, front, hfront, hnames, hroom⟩ :=
        ih (hnested.below hbelow) (hdotted.below hbelow) hchain
      have hbetween := hdotted.here hkind object hobject property hproperty
      have hinside := hnested.here.inside object hobjectMem
      have hinside' := hnested.here.inside property (Tree.mem_children_of_child? hproperty)
      have hsize := Text.add_size_of_slice? hname
      refine ⟨hrange, front ++ [name], by simp, by simpa using hnames, ?_⟩
      rw [Text.size_join_concat "." hfront, show Text.size "." = 1 from rfl]
      have := hinside.1
      have := hinside'.2
      omega
    · split at hchain
      · obtain ⟨name, hname, htarget⟩ := Option.bind_eq_some_iff.1 hchain
        obtain rfl := Option.some.inj htarget
        exact ⟨rfl, [name], by simp, rfl, (Text.add_size_of_slice? hname).le⟩
      · cases hchain

theorem spot_inside_of_memberChain {text : String} {shape : MemberShape} {node : Tree}
    {target : NameRef} (hnested : node.Everywhere Tree.Nested)
    (hdotted : node.Everywhere shape.Dotted)
    (hchain : memberChainWithin text shape node.range node.height node [] = some target) :
    target.spot.Inside node.range := by
  obtain ⟨hrange, front, -, hnames, hroom⟩ := exists_front_of_memberChain hnested hdotted hchain
  rw [NameRef.spot, NameRef.dotted, hrange, hnames, List.append_nil]
  exact ⟨le_rfl, hroom⟩

end Walk

namespace Python

open Walk

/-! ### Spots -/

/-- The module that a part of an `import` names. -/
def importedName? (name : Tree) : Option Tree :=
  match name.kind with
  | "dotted_name" => some name
  | "aliased_import" => name.child? "name"
  | _ => none

/-- The mark of a node that names a module. -/
def moduleMark (text : String) (name : Tree) : Mark :=
  .module name.range (name.range.read text)

/-- The spots of a node itself: a name that is used, or modules that are imported. -/
inductive OwnSpot (text : String) (node : Tree) : Mark → Prop
  | name {target : NameRef} (hkind : node.kind ∈ ["identifier", "attribute"])
    (hchain : memberChainWithin text attributeShape node.range node.height node [] = some target) :
    OwnSpot text node (.use target.spot)
  | source {name : Tree} (hkind : node.kind = "import_from_statement")
    (hname : node.child? "module_name" = some name) :
    OwnSpot text node (moduleMark text name)
  | imported {name inner : Tree} (hkind : node.kind = "import_statement")
    (hname : name ∈ node.children) (hinner : importedName? name = some inner) :
    OwnSpot text node (moduleMark text inner)

/-- The kinds of nodes that have spots of their own. -/
def marking : List String :=
  ["identifier", "attribute", "import_statement", "import_from_statement"]

/-- A function or class that has a name, with the parameters or bases that it opens. -/
def Opens (kind field : String) (node child : Tree) : Prop :=
  node.kind = kind ∧ (node.child? "name").isSome ∧ child.field = some field

/-- Where the walk goes on from a node. -/
inductive Onward (text : String) (node : Tree) : Tree → Prop
  | root (hkind : node.kind = "attribute")
    (hchain : memberChainWithin text attributeShape node.range node.height node [] = none)
    (hroot : node.Encloses (node.chainRoot attributeShape.members attributeShape.object)) :
    Onward text node (node.chainRoot attributeShape.members attributeShape.object)
  | parameter {parameters parameter inner : Tree} (hparameters : parameters ∈ node.children)
    (hopens : Opens "function_definition" "parameters" node parameters)
    (hparameter : parameter ∈ parameters.children) (hinner : inner ∈ parameter.children) :
    Onward text node inner
  | base {bases base : Tree} (hbases : bases ∈ node.children)
    (hopens : Opens "class_definition" "superclasses" node bases) (hbase : base ∈ bases.children) :
    Onward text node base
  | child {child : Tree} (hchild : child ∈ node.children) (hkind : node.kind ∉ marking)
    (hparameters : ¬ Opens "function_definition" "parameters" node child)
    (hbases : ¬ Opens "class_definition" "superclasses" node child) : Onward text node child

/-- The spots of a tree. -/
abbrev Spot (text : String) : Tree → Mark → Prop :=
  Spots (OwnSpot text) (Onward text)

/-- What there is to know of a tree: its parts are nested, and attributes are written with a dot. -/
structure Tidy (node : Tree) : Prop where
  nested : node.Nested
  dotted : attributeShape.Dotted node

theorem Onward.encloses {text : String} {node inner : Tree} (honward : Onward text node inner) :
    node.Encloses inner := by
  cases honward with
  | root _ _ hroot => exact hroot
  | parameter hparameters _ hparameter hinner =>
    exact ((Tree.encloses_of_mem hparameters).tail hparameter).tail hinner
  | base hbases _ hbase => exact (Tree.encloses_of_mem hbases).tail hbase
  | child hchild => exact Tree.encloses_of_mem hchild

/-! ### What is marked -/

/-- The kinds at which the walk does not simply go on to the children. -/
def special : List String :=
  marking ++ ["function_definition", "class_definition"]

section Visit

variable {text : String} {node child : Tree}

theorem spot_child (hkind : node.kind ∉ special) (hchild : child ∈ node.children) :
    Spot text child ≤ Spot text node := by
  intro spot hspot
  refine .onward (.child hchild (fun h => hkind (List.mem_append_left _ h)) ?_ ?_) hspot
  · exact fun hopens => hkind (hopens.1 ▸ by decide)
  · exact fun hopens => hkind (hopens.1 ▸ by decide)

theorem spot_of_mem_leavesWithin {fuel : Nat} {leaf : Tree}
    (hleaf : leaf ∈ Tree.leavesWithin targetLists fuel node) : Spot text leaf ≤ Spot text node := by
  induction fuel generalizing node with
  | zero => cases hleaf
  | succ fuel ih =>
    rw [Tree.leavesWithin] at hleaf
    split at hleaf
    · rename_i hkind
      obtain ⟨child, hchild, hleaf⟩ := List.mem_flatMap.1 hleaf
      have hplain : ∀ kind ∈ targetLists, kind ∉ special := by decide
      exact (ih hleaf).trans
        (spot_child (hplain _ hkind) (Tree.mem_children_of_named hchild))
    · rw [List.mem_singleton.1 hleaf]

theorem marks_reference (hkind : node.kind = "identifier") :
    Marks true text (Spot text node) (reference node) := by
  refine marks_textOf_bind (marks_referencePath fun _ hname => ?_)
  rw [ByteRange.read] at hname ⊢
  cases hslice : Text.slice? text node.range.start node.range.stop with
  | none =>
    rw [hslice] at hname
    exact absurd rfl hname
  | some name =>
    refine .own (.name (by simp [hkind]) ?_)
    rw [Tree.height_eq, memberChainWithin, if_neg (by simp [hkind, attributeShape]),
      if_pos (by simp [hkind, attributeShape, identifiers]), hslice]
    rfl

variable {visit : Visit} (hvisit : ∀ node, Marks true text (Spot text node) (visit node))

include hvisit

theorem marks_children (hkind : node.kind ∉ special) :
    Marks true text (Spot text node) (visitChildren visit node) :=
  marks_visitChildren hvisit fun _ hchild => spot_child hkind hchild

theorem marks_field (hkind : node.kind ∉ special) (field : String) :
    Marks true text (Spot text node) (visitField visit node field) :=
  marks_visitField hvisit fun _ hchild => spot_child hkind (Tree.mem_children_of_child? hchild)

theorem marks_attribute (hkind : node.kind = "attribute") :
    Marks true text (Spot text node) (memberUse visit attributeShape node) := by
  refine marks_memberChain?_bind ?_
  cases hchain : memberChainWithin text attributeShape node.range node.height node [] with
  | none =>
    refine marks_visit hvisit ?_
    obtain hroot | hroot := Tree.encloses_or_chainRootWithin attributeShape.members
      attributeShape.object node.height node
    · rw [Tree.chainRoot, hroot]
    · exact fun spot hspot => .onward (.root hkind hchain hroot) hspot
  | some chain =>
    refine (marks_isSelf chain.name).bind fun self => ?_
    split
    · exact marks_selfMember _ _
    · split
      · exact marks_pure ()
      · exact marks_referencePath fun _ _ => .own (.name (by simp [hkind]) hchain)

/-! ### Functions and classes -/

theorem marks_function (hkind : node.kind = "function_definition") :
    Marks true text (Spot text node) (function visit node) := by
  have hmarking : node.kind ∉ marking := hkind ▸ by decide
  have hbases : ∀ child, ¬ Opens "class_definition" "superclasses" node child :=
    fun child hopens => absurd (hkind.symm.trans hopens.1) (by decide)
  rw [function]
  split
  · rename_i hname
    refine marks_visitChildren hvisit fun child hchild spot hspot =>
      .onward (.child hchild hmarking ?_ (hbases child)) hspot
    rintro ⟨-, hnamed, -⟩
    rw [hname] at hnamed
    cases hnamed
  · rename_i name hname
    have hfield : ∀ field, field ≠ "parameters" →
        Marks true text (Spot text node) (visitField visit node field) := by
      intro field hne
      refine marks_visitField hvisit fun child hchild spot hspot => .onward
        (.child (Tree.mem_children_of_child? hchild) hmarking ?_ (hbases child)) hspot
      rintro ⟨-, -, hparameters⟩
      exact hne (Option.some.inj ((Tree.field_of_child? hchild).symm.trans hparameters))
    have hdefaults : ∀ parameters, node.child? "parameters" = some parameters →
        Marks true text (Spot text node) (visitDefaults visit parameters) := by
      intro parameters hparameters
      have hopens : Opens "function_definition" "parameters" node parameters :=
        ⟨hkind, by rw [hname]; rfl, Tree.field_of_child? hparameters⟩
      refine marks_forM fun parameter hparameter => ?_
      have hpass : ∀ field inner, parameter.child? field = some inner →
          Spot text inner ≤ Spot text node := fun field inner hinner spot hspot =>
        .onward (.parameter (Tree.mem_children_of_child? hparameters) hopens
          (Tree.mem_children_of_named hparameter) (Tree.mem_children_of_child? hinner)) hspot
      exact (marks_visitField hvisit (hpass "value")).bind fun _ =>
        marks_visitField hvisit (hpass "type")
    exact (marks_optionForM hdefaults).bind fun _ => (hfield _ (by decide)).bind fun _ =>
      (marks_define _ _ _ _).bind fun _ => marks_inSymbol _ _ node <|
      (marks_optionForM fun parameters _ => marks_bindPattern identifiers parameters).bind fun _ =>
      hfield _ (by decide)

theorem marks_base (symbol : Nat) : Marks true text (Spot text node) (base visit symbol node) := by
  rw [base]
  split
  · rename_i hkind
    refine marks_memberChain?_bind ?_
    cases hchain : memberChainWithin text attributeShape node.range node.height node [] with
    | none => exact marks_pure ()
    | some chain =>
      exact (marks_addBase symbol chain).bind fun _ => marks_referencePath fun _ _ =>
        .own (.name (by simpa using hkind) hchain)
  · exact hvisit node

theorem marks_classDefinition (hkind : node.kind = "class_definition") :
    Marks true text (Spot text node) (classDefinition visit node) := by
  have hmarking : node.kind ∉ marking := hkind ▸ by decide
  have hparameters : ∀ child, ¬ Opens "function_definition" "parameters" node child :=
    fun child hopens => absurd (hkind.symm.trans hopens.1) (by decide)
  rw [classDefinition]
  split
  · rename_i hname
    refine marks_visitChildren hvisit fun child hchild spot hspot =>
      .onward (.child hchild hmarking (hparameters child) ?_) hspot
    rintro ⟨-, hnamed, -⟩
    rw [hname] at hnamed
    cases hnamed
  · rename_i name hname
    refine (marks_define _ _ _ _).bind fun symbol => ?_
    have hbody : Marks true text (Spot text node)
        (inSymbol symbol .classBody node (visitField visit node "body")) := by
      refine marks_inSymbol _ _ node (marks_visitField hvisit fun child hchild spot hspot => .onward
        (.child (Tree.mem_children_of_child? hchild) hmarking (hparameters child) ?_) hspot)
      rintro ⟨-, -, hbases⟩
      exact absurd ((Tree.field_of_child? hchild).symm.trans hbases) (by decide)
    split
    · rename_i bases hbases
      have hopens : Opens "class_definition" "superclasses" node bases :=
        ⟨hkind, by rw [hname]; rfl, Tree.field_of_child? hbases⟩
      refine (marks_withOwner symbol (marks_forM fun argument hargument => ?_)).bind fun _ => hbody
      exact (marks_base hvisit symbol).mono fun spot hspot =>
        .onward (.base (Tree.mem_children_of_child? hbases) hopens
          (Tree.mem_children_of_named hargument)) hspot
    · exact (marks_pure ()).bind fun _ => hbody

/-! ### Imports -/

omit hvisit in
theorem marks_importStatement (hkind : node.kind = "import_statement") :
    Marks true text (Spot text node) (importStatement node) := by
  refine (marks_sourceRange node).bind fun range => marks_forM fun name hname => ?_
  have hspot : ∀ inner, importedName? name = some inner →
      Spot text node (moduleMark text inner) :=
    fun inner hinner => .own (.imported hkind (Tree.mem_children_of_childrenIn hname) hinner)
  rw [importedModule]
  split
  · rename_i hdotted
    exact marks_textOf_bind (marks_importing (hspot name (by simp only [importedName?, hdotted])))
  · rename_i haliased
    split
    · rename_i inner renamed hinner hrenamed
      exact (marks_textOf _).bind fun _ => marks_textOf_bind
        (marks_importing (hspot inner (by simpa only [importedName?, haliased] using hinner)))
    · exact marks_pure ()
  · exact marks_pure ()

omit hvisit in
theorem marks_importedMember {fact : ImportFact} {spots : Mark → Prop}
    (hspot : spots fact.mark) (name : Tree) :
    Marks true text spots (importedMember fact name) := by
  rw [importedMember]
  split
  · exact (marks_textOf name).bind fun _ => marks_importing hspot
  · split
    · exact marks_pure ()
    · exact (marks_optionMapM fun _ => marks_textOf _).bind fun _ =>
        (marks_textOf _).bind fun _ => marks_importing hspot
  · exact marks_pure ()

omit hvisit in
theorem marks_importFrom (hkind : node.kind = "import_from_statement") :
    Marks true text (Spot text node) (importFrom node) := by
  rw [importFrom]
  split
  · exact marks_pure ()
  · rename_i name hname
    have hspot : Spot text node (moduleMark text name) := .own (.source hkind hname)
    refine marks_textOf_bind ((marks_sourceRange node).bind fun _ => ?_)
    split
    · exact marks_importing hspot
    · exact marks_forM fun member _ => marks_importedMember hspot member

/-! ### Assignments and the like -/

omit hvisit in
theorem marks_exportList {spots : Mark → Prop} (list : Tree) :
    Marks true text spots (exportList list) := by
  refine marks_forM fun item _ => ?_
  split
  · exact (marks_textOf item).bind fun _ => marks_markExported _
  · exact marks_pure ()

omit hvisit in
theorem marks_exportsNames {spots : Mark → Prop} (left : Tree) :
    Marks true text spots (exportsNames left) :=
  marks_inFunction.bind fun _ => (marks_textOf left).bind fun _ => marks_pure _

omit hvisit in
theorem marks_assignName {spots : Mark → Prop} (statement target : Tree) :
    Marks true text spots (assignName statement target) := by
  refine (marks_textOf target).bind fun name => marks_inFunction.bind fun inFunction => ?_
  split
  · exact (marks_bindLocal name).bind fun _ => marks_pure none
  · refine (marks_declaredHere name).bind fun declared => ?_
    split
    · exact marks_pure none
    · exact (marks_define _ _ _ _).bind fun _ => marks_pure _

theorem marks_assignTargets {target : Tree} (hpass : Spot text target ≤ Spot text node)
    (statement : Tree) :
    Marks true text (Spot text node) (assignTargets visit statement target) := by
  refine marks_foldlM fun first leaf hleaf => ?_
  split
  · exact (marks_assignName statement leaf).bind fun _ => marks_pure _
  · exact (marks_visit hvisit ((spot_of_mem_leavesWithin hleaf).trans hpass)).bind fun _ =>
      marks_pure first

theorem marks_assignment (hkind : node.kind ∉ special) :
    Marks true text (Spot text node) (assignment visit node) := by
  have hpass : ∀ field child, node.child? field = some child → Spot text child ≤ Spot text node :=
    fun field child hchild => spot_child hkind (Tree.mem_children_of_child? hchild)
  refine (marks_field hvisit hkind "type").bind fun _ => ?_
  extract_lets left right visitValue assign
  have hleft := hpass "left"
  have hright := hpass "right"
  change ∀ child, left = some child → _ at hleft
  change ∀ child, right = some child → _ at hright
  clear_value left right
  have hvalue : ∀ symbol, Marks true text (Spot text node) (visitValue symbol) := by
    intro symbol
    dsimp only [visitValue]
    split
    · exact marks_withOwner _ (marks_visit hvisit (hright _ rfl))
    · exact marks_visit hvisit (hright _ rfl)
    · exact marks_pure ()
  have hassign : ∀ done, Marks true text (Spot text node) (assign done) := by
    intro done
    dsimp only [assign]
    split
    · exact (marks_assignTargets hvisit (hleft _ rfl) node).bind hvalue
    · exact hvalue none
  split
  · refine (marks_exportsNames _).bind fun exporting => ?_
    split
    · exact (marks_exportList _).bind hassign
    · exact hassign ()
  · exact hassign ()

theorem marks_augmentedAssignment (hkind : node.kind ∉ special) :
    Marks true text (Spot text node) (augmentedAssignment visit node) := by
  rw [augmentedAssignment]
  split
  · rename_i left right hleft hright
    have hrest : Marks true text (Spot text node) (do visit left; visit right) :=
      (marks_visit hvisit (spot_child hkind (Tree.mem_children_of_child? hleft))).bind fun _ =>
        marks_visit hvisit (spot_child hkind (Tree.mem_children_of_child? hright))
    refine (marks_exportsNames left).bind fun exporting => ?_
    split
    · exact (marks_exportList right).bind fun _ => hrest
    · exact hrest
  · exact marks_children hvisit hkind

theorem marks_bindTargets {target : Tree} (hpass : Spot text target ≤ Spot text node) :
    Marks true text (Spot text node) (bindTargets visit target) := by
  rw [bindTargets]
  split
  · exact marks_visit hvisit hpass
  · exact marks_bindPattern identifiers target

/-- The targets in a field of the node. -/
theorem marks_fieldTargets (hkind : node.kind ∉ special) (field : String) :
    Marks true text (Spot text node) ((node.child? field).forM (bindTargets visit)) :=
  marks_optionForM fun _ hchild =>
    marks_bindTargets hvisit (spot_child hkind (Tree.mem_children_of_child? hchild))

theorem marks_loop (hkind : node.kind ∉ special) :
    Marks true text (Spot text node) (loop visit node) :=
  (marks_field hvisit hkind _).bind fun _ => (marks_fieldTargets hvisit hkind _).bind fun _ =>
  (marks_field hvisit hkind _).bind fun _ => marks_field hvisit hkind _

theorem marks_asPatternChildren (hkind : node.kind ∉ special) {children : List Tree}
    (hchildren : children ⊆ node.children) (bound : Bool) :
    Marks true text (Spot text node) (asPatternChildren visit bound children) := by
  induction children generalizing bound with
  | nil => exact marks_pure ()
  | cons child rest ih =>
    obtain ⟨hchild, hrest⟩ := List.cons_subset.1 hchildren
    have hpass : Spot text child ≤ Spot text node := spot_child hkind hchild
    rw [asPatternChildren]
    dsimp only
    split
    · split
      · exact (marks_bindTargets hvisit hpass).bind fun _ => ih hrest _
      · exact (marks_visit hvisit hpass).bind fun _ => ih hrest _
    · exact ih hrest _

theorem marks_exceptChildren (hkind : node.kind ∉ special) {children : List Tree}
    (hchildren : children ⊆ node.children) (afterAs : Bool) :
    Marks true text (Spot text node) (exceptChildren visit afterAs children) := by
  induction children generalizing afterAs with
  | nil => exact marks_pure ()
  | cons child rest ih =>
    obtain ⟨hchild, hrest⟩ := List.cons_subset.1 hchildren
    rw [exceptChildren]
    split
    · dsimp only
      split
      · exact (marks_textOf child).bind fun _ => (marks_bindLocal _).bind fun _ => ih hrest _
      · exact (marks_visit hvisit (spot_child hkind hchild)).bind fun _ => ih hrest _
    · exact ih hrest _

theorem marks_call (hkind : node.kind ∉ special) :
    Marks true text (Spot text node) (call visit node) := by
  have hchildren := marks_children hvisit hkind
  rw [call]
  dsimp only
  split
  · have hlookup : ∀ function arguments,
        Marks true text (Spot text node) (lookupLiteral? function arguments) := by
      refine fun function arguments => (marks_textOf function).bind fun _ => ?_
      split
      · exact marks_pure _
      · exact marks_pure _
    refine (hlookup _ _).bind fun literal => ?_
    split
    · exact (marks_textOf _).bind fun _ => (marks_stringLookup _ _).bind fun _ => hchildren
    · exact hchildren
  · exact hchildren

/-- What a node marks if what it goes on to marks its own spots. -/
theorem marks_step (node : Tree) : Marks true text (Spot text node) (step visit node) := by
  rw [step]
  split
  · exact marks_function hvisit ‹_›
  · exact marks_classDefinition hvisit ‹_›
  · exact marks_importStatement ‹_›
  · exact marks_importFrom ‹_›
  · exact marks_pure ()
  · exact marks_pure ()
  · exact marks_pure ()
  · exact marks_pure ()
  · rename_i hkind
    exact marks_assignment hvisit (hkind ▸ by decide)
  · rename_i hkind
    exact marks_augmentedAssignment hvisit (hkind ▸ by decide)
  · rename_i hkind
    exact marks_loop hvisit (hkind ▸ by decide)
  · rename_i hkind
    exact marks_loop hvisit (hkind ▸ by decide)
  · rename_i hkind
    exact marks_asPatternChildren hvisit (hkind ▸ by decide) (fun _ h => h) false
  · rename_i hkind
    exact marks_exceptChildren hvisit (hkind ▸ by decide) (fun _ h => h) false
  · rename_i hkind
    have hplain : node.kind ∉ special := hkind ▸ by decide
    exact (marks_field hvisit hplain _).bind fun _ => marks_fieldTargets hvisit hplain _
  · rename_i hkind
    exact marks_inAnonymous _ node <|
      (marks_optionForM fun parameters _ => marks_bindPattern identifiers parameters).bind fun _ =>
      marks_field hvisit (hkind ▸ by decide) _
  · exact marks_attribute hvisit ‹_›
  · rename_i hkind
    exact marks_call hvisit (hkind ▸ by decide)
  · rename_i hkind
    exact marks_field hvisit (hkind ▸ by decide) _
  · exact marks_reference ‹_›
  · refine marks_children hvisit ?_
    simp only [special, marking]
    simp_all

end Visit

/-! ### The spots lie apart -/

/-- The one spot of a name is its chain. -/
theorem OwnSpot.of_name {text : String} {node : Tree} {spot : Mark}
    (hown : OwnSpot text node spot) (hkind : node.kind ∈ ["identifier", "attribute"]) :
    ∃ target : NameRef, spot = .use target.spot ∧
      memberChainWithin text attributeShape node.range node.height node [] = some target := by
  obtain ⟨-, hchain⟩ | ⟨hother, -⟩ | ⟨hother, -, -⟩ := hown
  · exact ⟨_, rfl, hchain⟩
  · rw [hother] at hkind
    exact absurd hkind (by decide)
  · rw [hother] at hkind
    exact absurd hkind (by decide)

/-- From a name without a chain the walk goes on to the start. -/
theorem Onward.of_name {text : String} {node inner : Tree} (honward : Onward text node inner)
    (hkind : node.kind ∈ ["identifier", "attribute"]) :
    memberChainWithin text attributeShape node.range node.height node [] = none ∧
      inner = node.chainRoot attributeShape.members attributeShape.object := by
  obtain ⟨-, hchain, -⟩ | ⟨-, hopens, -, -⟩ | ⟨-, hopens, -⟩ | ⟨-, hother, -, -⟩ := honward
  · exact ⟨hchain, rfl⟩
  · rw [hopens.1] at hkind
    exact absurd hkind (by decide)
  · rw [hopens.1] at hkind
    exact absurd hkind (by decide)
  · exact absurd (List.mem_append_left ["import_statement", "import_from_statement"] hkind) hother

/-- Nothing is walked below an import. -/
theorem not_onward {text : String} {node : Tree}
    (hkind : node.kind ∈ ["import_statement", "import_from_statement"]) (inner : Tree) :
    ¬ Onward text node inner := by
  rintro (⟨hother, -, -⟩ | ⟨-, hopens, -, -⟩ | ⟨-, hopens, -⟩ | ⟨-, hother, -, -⟩)
  · rw [hother] at hkind
    exact absurd hkind (by decide)
  · rw [hopens.1] at hkind
    exact absurd hkind (by decide)
  · rw [hopens.1] at hkind
    exact absurd hkind (by decide)
  · exact hother (List.mem_append_right ["identifier", "attribute"] hkind)

/-- What a child adds to a node, for given spots of the nodes that the walk goes on to. -/
def ChildSpot (node : Tree) (spots : Tree → Mark → Prop) (child : Tree) (spot : Mark) :
    Prop :=
  Opens "function_definition" "parameters" node child ∧
    (∃ parameter ∈ child.children, ∃ inner ∈ parameter.children, spots inner spot) ∨
  Opens "class_definition" "superclasses" node child ∧ (∃ base ∈ child.children, spots base spot) ∨
  ¬ Opens "function_definition" "parameters" node child ∧
    ¬ Opens "class_definition" "superclasses" node child ∧ spots child spot

section Scattered

variable {text : String} {node : Tree} {spots : Tree → Mark → Prop}
  (htidy : node.Everywhere Tidy)
  (hspots : ∀ inner, Onward text node inner → Scattered inner.range (spots inner))

include htidy hspots

/-- A chain is one spot, or whatever stands at its start. -/
theorem scattered_name (hkind : node.kind ∈ ["identifier", "attribute"]) :
    Scattered node.range fun spot =>
      OwnSpot text node spot ∨ ∃ inner, Onward text node inner ∧ spots inner spot := by
  have hnested : node.Everywhere Tree.Nested := fun inner hinner => (htidy inner hinner).nested
  cases hchain : memberChainWithin text attributeShape node.range node.height node [] with
  | some target =>
    have hinside := spot_inside_of_memberChain hnested
      (fun inner hinner => (htidy inner hinner).dotted) hchain
    refine (scattered_one (.use target.spot) hinside).mono ?_
    rintro spot (hspot | ⟨inner, hinner, -⟩)
    · obtain ⟨found, rfl, hfound⟩ := hspot.of_name hkind
      rw [Option.some.inj (hchain.symm.trans hfound)]
    · exact absurd (hchain.symm.trans (hinner.of_name hkind).1) (by simp)
  | none =>
    have hnone : ∀ spot, ¬ OwnSpot text node spot := by
      intro spot hspot
      obtain ⟨found, -, hfound⟩ := hspot.of_name hkind
      exact absurd (hchain.symm.trans hfound) (by simp)
    by_cases hroot : ∃ inner, Onward text node inner
    · obtain ⟨root, hroot⟩ := hroot
      refine ((hspots root hroot).widen (hnested.inside hroot.encloses)).mono ?_
      rintro spot (hspot | ⟨inner, hinner, hspot⟩)
      · exact absurd hspot (hnone spot)
      · rwa [(hroot.of_name hkind).2, ← (hinner.of_name hkind).2]
    · refine (scattered_none node.range).mono ?_
      rintro spot (hspot | ⟨inner, hinner, -⟩)
      · exact hnone spot hspot
      · exact hroot ⟨inner, hinner⟩

omit hspots in
/-- Each part of an `import` names one module. -/
theorem scattered_imported (text : String) : Scattered node.range fun spot =>
    ∃ name ∈ node.children, ∃ inner, importedName? name = some inner ∧
      spot = moduleMark text inner := by
  refine htidy.here.nested.scattered fun name hname => ?_
  cases hfound : importedName? name with
  | none =>
    refine (scattered_none name.range).mono ?_
    rintro spot ⟨_, ⟨⟩, -⟩
  | some inner =>
    have hinside : inner.range.Inside name.range := by
      rw [importedName?] at hfound
      split at hfound
      · rw [Option.some.inj hfound]
        exact .refl _
      · exact (htidy name (.inr (Tree.encloses_of_mem hname))).nested.inside inner
          (Tree.mem_children_of_child? hfound)
      · cases hfound
    refine (scattered_one (moduleMark text inner) hinside).mono ?_
    rintro spot ⟨found, hinner, rfl⟩
    rw [Option.some.inj hinner]

/-- The parts of any other node are its children, or parts of those it opens. -/
theorem scattered_parts (hkind : node.kind ∉ marking) :
    Scattered node.range fun spot => ∃ inner, Onward text node inner ∧ spots inner spot := by
  have hnested : ∀ {inner}, node.Encloses inner → inner.Nested := fun hinner =>
    (htidy _ (.inr hinner)).nested
  have hopens : ∀ {child}, Opens "function_definition" "parameters" node child →
      ¬ Opens "class_definition" "superclasses" node child := fun hfunction hclass =>
    absurd (hfunction.1.symm.trans hclass.1) (by decide)
  refine (htidy.here.nested.scattered fun child hchild =>
    (?_ : Scattered child.range (ChildSpot node spots child))).mono ?_
  · have hbelow := Tree.encloses_of_mem hchild
    by_cases hparameters : Opens "function_definition" "parameters" node child
    · refine ((hnested hbelow).scattered fun parameter hparameter =>
        (hnested (hbelow.tail hparameter)).scattered fun inner hinner =>
          hspots inner (.parameter hchild hparameters hparameter hinner)).mono ?_
      rintro spot (⟨-, hspot⟩ | ⟨hbases, -⟩ | ⟨hnot, -⟩)
      · exact hspot
      · exact absurd hbases (hopens hparameters)
      · exact absurd hparameters hnot
    · by_cases hbases : Opens "class_definition" "superclasses" node child
      · refine ((hnested hbelow).scattered fun base hbase =>
          hspots base (.base hchild hbases hbase)).mono ?_
        rintro spot (⟨hother, -⟩ | ⟨-, hspot⟩ | ⟨-, hnot, -⟩)
        · exact absurd hother hparameters
        · exact hspot
        · exact absurd hbases hnot
      · refine (hspots child (.child hchild hkind hparameters hbases)).mono ?_
        rintro spot (⟨hother, -⟩ | ⟨hother, -⟩ | ⟨-, -, hspot⟩)
        · exact absurd hother hparameters
        · exact absurd hother hbases
        · exact hspot
  · rintro spot ⟨inner, honward, hspot⟩
    cases honward with
    | root hname => exact absurd (hname ▸ by decide) hkind
    | parameter hchild hparameters hparameter hinner =>
      exact ⟨_, hchild, .inl ⟨hparameters, _, hparameter, _, hinner, hspot⟩⟩
    | base hchild hbases hbase => exact ⟨_, hchild, .inr (.inl ⟨hbases, _, hbase, hspot⟩)⟩
    | child hchild _ hparameters hbases =>
      exact ⟨_, hchild, .inr (.inr ⟨hparameters, hbases, hspot⟩)⟩

/-- The spots of a node and of what the walk goes on to, taken together. -/
theorem scattered_node : Scattered node.range fun spot =>
    OwnSpot text node spot ∨ ∃ inner, Onward text node inner ∧ spots inner spot := by
  by_cases hkind : node.kind ∈ marking
  · obtain hname | himport | hsource : node.kind ∈ ["identifier", "attribute"] ∨
        node.kind = "import_statement" ∨ node.kind = "import_from_statement" := by
      simpa [marking, or_assoc] using hkind
    · exact scattered_name htidy hspots hname
    · refine (scattered_imported htidy text).mono ?_
      rintro spot ((⟨hother, -⟩ | ⟨hother, -⟩ | ⟨-, himported, hinner⟩) | ⟨inner, hinner, -⟩)
      · rw [himport] at hother
        exact absurd hother (by decide)
      · exact absurd (himport.symm.trans hother) (by decide)
      · exact ⟨_, himported, _, hinner, rfl⟩
      · exact absurd hinner (not_onward (by simp [himport]) inner)
    · have honly : ∀ spot, (OwnSpot text node spot ∨
          ∃ inner, Onward text node inner ∧ spots inner spot) →
          ∃ name, node.child? "module_name" = some name ∧
            spot = moduleMark text name := by
        rintro spot ((⟨hother, -⟩ | ⟨-, hname⟩ | ⟨hother, -, -⟩) | ⟨inner, hinner, -⟩)
        · rw [hsource] at hother
          exact absurd hother (by decide)
        · exact ⟨_, hname, rfl⟩
        · exact absurd (hsource.symm.trans hother) (by decide)
        · exact absurd hinner (not_onward (by simp [hsource]) inner)
      cases hname : node.child? "module_name" with
      | none =>
        refine (scattered_none node.range).mono fun spot hspot => ?_
        obtain ⟨name, hfound, -⟩ := honly spot hspot
        exact absurd (hname.symm.trans hfound) (by simp)
      | some name =>
        refine (scattered_one (moduleMark text name) (htidy.here.nested.inside name
          (Tree.mem_children_of_child? hname))).mono fun spot hspot => ?_
        obtain ⟨found, hfound, rfl⟩ := honly spot hspot
        rw [Option.some.inj (hname.symm.trans hfound)]
  · refine (scattered_parts htidy hspots hkind).mono ?_
    rintro spot ((⟨hother, -⟩ | ⟨hother, -⟩ | ⟨hother, -, -⟩) | hspot)
    · exact absurd (List.mem_append_left ["import_statement", "import_from_statement"] hother) hkind
    · exact absurd (by simp [marking, hother]) hkind
    · exact absurd (by simp [marking, hother]) hkind
    · exact hspot

end Scattered

/-- **The spots of a tidy tree lie apart.** -/
theorem scattered_spot (text : String) {tree : Tree} (htidy : tree.Everywhere Tidy) :
    Scattered tree.range (Spot text tree) :=
  Spots.scattered (fun _ _ honward => honward.encloses)
    (fun _ _ hnode hspots => scattered_node hnode hspots) htidy

/-- A specifier is what stands at its place. -/
theorem reads_of_spot {text : String} {tree : Tree} {spot : Mark} (hspot : Spot text tree spot) :
    spot.Reads text fun written => written := by
  refine Spots.forall_own (fun node own hown => ?_) hspot
  cases hown with
  | name => trivial
  | source | imported => rfl

end Python

end CodeGraph
