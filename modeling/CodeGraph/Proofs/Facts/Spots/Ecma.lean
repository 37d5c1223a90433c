import CodeGraph.Facts.TypeScript
import CodeGraph.Proofs.Facts.Spots

/-!
# Marks in JavaScript and TypeScript files

Modules are named in `import` and `export … from` statements and in calls of `require`. Only these
names are followed when a file moves; names that are used stay as they are.
-/

namespace CodeGraph

open Walk

namespace Ecma

/-! ### Calls of `require` -/

/-- The specifier of a `require` call in the text. -/
def required? (text : String) (node : Tree) : Option (String × ByteRange) :=
  if node.kind ≠ "call_expression" then none
  else match node.child? "function", node.child? "arguments" with
    | some function, some arguments =>
      if function.kind ≠ "identifier" ∨ function.range.read text ≠ "require" then none
      else match arguments.namedChildren.head? with
        | some first =>
          if first.kind = "string" then some (Text.unquote (first.range.read text), first.range)
          else none
        | none => none
    | _, _ => none

theorem requireSpecifier?_eq (node : Tree) (place : Place) (facts : FileFacts) :
    requireSpecifier? node place facts = (required? place.text node, facts) := by
  rw [requireSpecifier?, required?]
  by_cases hkind : node.kind ≠ "call_expression"
  · rw [if_pos hkind, if_pos hkind]
    rfl
  · rw [if_neg hkind, if_neg hkind]
    cases node.child? "function" with
    | none => rfl
    | some function =>
      cases node.child? "arguments" with
      | none => rfl
      | some arguments =>
        generalize hname : function.range.read place.text = name
        by_cases hother : function.kind ≠ "identifier" ∨ name ≠ "require"
        · subst hname
          simp only [if_pos hother]
          exact congrArg (fun walk : Walk (Option (String × ByteRange)) => walk place facts)
            (if_pos hother)
        · subst hname
          simp only [if_neg hother]
          refine (congrArg (fun walk : Walk (Option (String × ByteRange)) => walk place facts)
            (if_neg hother)).trans ?_
          cases arguments.namedChildren.head? with
          | none => rfl
          | some first =>
            by_cases hstring : first.kind = "string"
            · simp only [if_pos hstring]
              rfl
            · simp only [if_neg hstring]
              rfl

theorem marks_requireSpecifier?_bind {α : Type} {names : Bool} {text : String}
    {spots : Mark → Prop} {node : Tree} {next : Option (String × ByteRange) → Walk α}
    (hnext : Marks names text spots (next (required? text node))) :
    Marks names text spots (requireSpecifier? node >>= next) := by
  rintro place facts rfl
  change Marks names place.text spots _ at hnext
  intro spot hspot
  refine hnext place facts rfl spot ?_
  change (next (requireSpecifier? node place facts).1 place
    (requireSpecifier? node place facts).2).2.Marked names spot at hspot
  rwa [requireSpecifier?_eq] at hspot

/-- The mark of a node that names a module. -/
def moduleMark (text : String) (source : Tree) : Mark :=
  .module source.range (Text.unquote (source.range.read text))

/-- The specifier of a call stands in the call. -/
theorem encloses_of_required {text : String} {node : Tree} {specifier : String} {range : ByteRange}
    (hrequired : required? text node = some (specifier, range)) :
    node.kind = "call_expression" ∧
      ∃ first, node.Encloses first ∧ .module range specifier = moduleMark text first := by
  rw [required?] at hrequired
  split at hrequired
  · cases hrequired
  · rename_i hkind
    split at hrequired
    · rename_i function arguments _ harguments
      split at hrequired
      · cases hrequired
      · split at hrequired
        · rename_i first hfirst
          split at hrequired
          · have hmem := Tree.mem_children_of_named (List.mem_of_mem_head? hfirst)
            obtain ⟨rfl, rfl⟩ := Prod.mk.inj (Option.some.inj hrequired)
            refine ⟨not_not.1 hkind, first, ?_, rfl⟩
            exact (Tree.encloses_of_mem (Tree.mem_children_of_child? harguments)).tail hmem
          · cases hrequired
        · cases hrequired
    · cases hrequired

/-! ### Spots -/

def methods : List String :=
  ["method_definition", "method_signature", "abstract_method_signature"]

/-- Everything with parameters and a body. -/
def functions : List String :=
  ["function_declaration", "generator_function_declaration", "function_signature"] ++
    functionValues ++ methods

def classes : List String :=
  ["class_declaration", "abstract_class_declaration", "class"]

/-- The module that a statement imports or exports from. -/
def Sources (node source : Tree) : Prop :=
  node.kind ∈ ["import_statement", "export_statement"] ∧ node.child? "source" = some source

/-- The spots of a node itself. -/
inductive OwnSpot (text : String) (node : Tree) : Mark → Prop
  | source {source : Tree} (hsource : Sources node source) : OwnSpot text node (moduleMark text source)
  | required {specifier : String} {range : ByteRange}
    (hrequired : required? text node = some (specifier, range)) :
    OwnSpot text node (.module range specifier)

/-- The parameters of a function; a method without a name has none. -/
def OpensParameters (node child : Tree) : Prop :=
  node.kind ∈ functions ∧ (node.kind ∈ methods → (node.child? "name").isSome) ∧
    child.field ∈ [some "parameters", some "parameter"]

def OpensBody (node child : Tree) : Prop :=
  node.kind ∈ classes ∧ child.field = some "body"

/-- Where the walk goes on from a node: below the parameters of a function and the body of a class, and
at the children otherwise. -/
inductive Onward (text : String) (node : Tree) : Tree → Prop
  | parameter {parameters parameter inner : Tree} (hparameters : parameters ∈ node.children)
    (hopens : OpensParameters node parameters) (hparameter : parameter ∈ parameters.children)
    (hinner : inner ∈ parameter.children) (hfield : inner.field ≠ some "pattern") :
    Onward text node inner
  | pattern {parameters parameter pattern inner : Tree} (hparameters : parameters ∈ node.children)
    (hopens : OpensParameters node parameters) (hparameter : parameter ∈ parameters.children)
    (hpattern : pattern ∈ parameter.children) (hfield : pattern.field = some "pattern")
    (hinner : inner ∈ pattern.children) : Onward text node inner
  | member {body member : Tree} (hbody : body ∈ node.children) (hopens : OpensBody node body)
    (hmember : member ∈ body.children) : Onward text node member
  | child {child : Tree} (hchild : child ∈ node.children)
    (hown : ∀ spot, ¬ OwnSpot text node spot) (hparameters : ¬ OpensParameters node child)
    (hbody : ¬ OpensBody node child) : Onward text node child

abbrev Spot (text : String) : Tree → Mark → Prop :=
  Spots (OwnSpot text) (Onward text)

theorem Onward.encloses {text : String} {node inner : Tree} (honward : Onward text node inner) :
    node.Encloses inner := by
  cases honward with
  | parameter hparameters _ hparameter hinner =>
    exact ((Tree.encloses_of_mem hparameters).tail hparameter).tail hinner
  | pattern hparameters _ hparameter hpattern _ hinner =>
    exact (((Tree.encloses_of_mem hparameters).tail hparameter).tail hpattern).tail hinner
  | member hbody _ hmember => exact (Tree.encloses_of_mem hbody).tail hmember
  | child hchild => exact Tree.encloses_of_mem hchild

theorem OwnSpot.kind {text : String} {node : Tree} {spot : Mark}
    (hown : OwnSpot text node spot) :
    node.kind ∈ ["import_statement", "export_statement", "call_expression"] := by
  cases hown with
  | source hsource => exact List.mem_append_left ["call_expression"] hsource.1
  | required hrequired => simp [(encloses_of_required hrequired).1]

/-! ### What is marked -/

/-- The kinds at which the walk does not simply go on to the children. -/
def special : List String :=
  ["import_statement", "export_statement", "call_expression"] ++ functions ++ classes

section Visit

variable {text : String} {node child : Tree}

theorem spot_child (hkind : node.kind ∉ special) (hchild : child ∈ node.children) :
    Spot text child ≤ Spot text node := by
  intro spot hspot
  simp only [special, List.mem_append, not_or] at hkind
  exact .onward (.child hchild (fun _ hown => hkind.1.1 hown.kind) (fun hopens => hkind.1.2 hopens.1)
    fun hopens => hkind.2 hopens.1) hspot

theorem spot_child? {field : String} (hkind : node.kind ∉ special)
    (hchild : node.child? field = some child) : Spot text child ≤ Spot text node :=
  spot_child hkind (Tree.mem_children_of_child? hchild)

/-- The start of a chain of members. -/
theorem spot_chainRootWithin (fuel : Nat) : Spot text (Tree.chainRootWithin memberShape.members
    memberShape.object fuel node) ≤ Spot text node := by
  induction fuel generalizing node with
  | zero => exact le_rfl
  | succ fuel ih =>
    rw [Tree.chainRootWithin]
    split
    · rename_i hkind
      have hplain : ∀ kind ∈ memberShape.members, kind ∉ special := by decide
      split
      · rename_i inner hinner
        exact ih.trans (spot_child? (hplain _ hkind) hinner)
      · exact le_rfl
    · exact le_rfl

theorem spot_required {specifier : String} {range : ByteRange}
    (hrequired : required? text node = some (specifier, range)) :
    Spot text node (.module range specifier) :=
  .own (.required hrequired)

/-! ### Walks without marks but those of imports -/

section Specifier

variable {spots : Mark → Prop} {fact : ImportFact} (hspot : spots fact.mark)

theorem marks_reference : Marks false text spots (reference node) :=
  (marks_textOf node).bind fun _ => marks_referencePath nofun

theorem marks_specifierNames? : Marks false text spots (specifierNames? node) := by
  rw [specifierNames?]
  split
  · exact marks_pure none
  · exact (marks_optionMapM fun _ => marks_textOf _).bind fun _ =>
      (marks_textOf _).bind fun _ => marks_pure _

theorem marks_exportSpecifier : Marks false text spots (exportSpecifier node) := by
  rw [exportSpecifier]
  split
  · exact marks_pure ()
  · refine (marks_textOf _).bind fun _ => marks_reference.bind fun _ =>
      (marks_optionMapM fun _ => marks_textOf _).bind fun renamed => ?_
    split
    · exact marks_setDefaultExport _
    · exact marks_markExported _

include hspot

theorem marks_requireProperty : Marks false text spots (requireProperty fact node) := by
  rw [requireProperty]
  dsimp only
  split
  · exact (marks_textOf node).bind fun _ => marks_importing hspot
  · split
    · split
      · exact (marks_textOf _).bind fun _ => (marks_textOf _).bind fun _ => marks_importing hspot
      · exact marks_pure ()
    · exact marks_pure ()
  · exact marks_pure ()

theorem marks_requireBindings : Marks false text spots (requireBindings fact node) := by
  rw [requireBindings]
  split
  · exact (marks_textOf node).bind fun _ => marks_importing hspot
  · exact marks_forM fun property _ => marks_requireProperty hspot
  · exact marks_importing hspot

theorem marks_importPart : Marks false text spots (importPart fact node) := by
  rw [importPart]
  split
  · exact (marks_textOf node).bind fun _ => marks_importing hspot
  · split
    · exact (marks_textOf _).bind fun _ => marks_importing hspot
    · exact marks_pure ()
  · refine marks_forM fun specifier _ => marks_specifierNames?.bind fun names => ?_
    split
    · exact marks_importing hspot
    · exact marks_pure ()
  · exact marks_pure ()

theorem marks_reexportPart : Marks false text spots (reexportPart fact node) := by
  rw [reexportPart]
  split
  · exact marks_importing hspot
  · split
    · exact marks_pure ()
    · exact (marks_textOf _).bind fun _ => (marks_markExported _).bind fun _ =>
        marks_importing hspot
  · refine marks_forM fun specifier _ => marks_specifierNames?.bind fun names => ?_
    split
    · exact marks_pure ()
    · exact (marks_markExported _).bind fun _ => marks_importing hspot
  · exact marks_pure ()

end Specifier

theorem marks_importStatement (hkind : node.kind = "import_statement") :
    Marks false text (Spot text node) (importStatement node) := by
  rw [importStatement]
  split
  · exact marks_pure ()
  · rename_i source hsource
    have hspot : Spot text node (moduleMark text source) := .own (.source ⟨by simp [hkind], hsource⟩)
    refine marks_textOf_bind ((marks_sourceRange node).bind fun _ => ?_)
    split
    · exact marks_importing hspot
    · exact marks_forM fun part _ => marks_importPart hspot

theorem marks_reexport (hkind : node.kind = "export_statement") {source : Tree}
    (hsource : node.child? "source" = some source) :
    Marks false text (Spot text node) (reexport node source) := by
  have hspot : Spot text node (moduleMark text source) := .own (.source ⟨by simp [hkind], hsource⟩)
  exact marks_textOf_bind ((marks_sourceRange node).bind fun _ =>
    marks_forM fun child _ => marks_reexportPart hspot)

/-- Only names of types lead to a type name. -/
theorem typeName?_of_special (hkind : node.kind ∈ special) :
    typeName? node = (pure none : Walk (Option NameRef)) := by
  rw [typeName?, Tree.height_eq, typeNameWithin]
  split
  · rename_i hname
    exact absurd (hname ▸ hkind) (by decide)
  · rename_i hname
    exact absurd (hname ▸ hkind) (by decide)
  · rename_i hname
    exact absurd (hname ▸ hkind) (by decide)
  · rename_i hname
    exact absurd (hname ▸ hkind) (by decide)
  · rename_i hname
    exact absurd (hname ▸ hkind) (by decide)
  · rfl

theorem marks_typeNameWithin {spots : Mark → Prop} (fuel : Nat) :
    Marks false text spots (typeNameWithin fuel node) := by
  induction fuel generalizing node with
  | zero => exact marks_pure none
  | succ fuel ih =>
    rw [typeNameWithin]
    split
    · exact marks_memberChain? _ node
    · exact marks_memberChain? _ node
    · exact marks_memberChain? _ node
    · split
      · refine ih.bind fun base => ?_
        split
        · exact marks_pure none
        · exact (marks_textOf _).bind fun _ => marks_pure _
      · exact marks_pure none
    · split
      · exact ih
      · exact marks_pure none
    · exact marks_pure none

variable {visit : Visit} (hvisit : ∀ node, Marks false text (Spot text node) (visit node))

include hvisit

theorem marks_children (hkind : node.kind ∉ special) :
    Marks false text (Spot text node) (visitChildren visit node) :=
  marks_visitChildren hvisit fun _ hchild => spot_child hkind hchild

theorem marks_field (hkind : node.kind ∉ special) (field : String) :
    Marks false text (Spot text node) (visitField visit node field) :=
  marks_visitField hvisit fun _ hchild => spot_child? hkind hchild

/-! ### Functions -/

/-- The default values of a pattern are parts of what it consists of. -/
theorem marks_defaultValuesWithin (fuel : Nat) (pattern : Tree) :
    Marks false text (fun spot => ∃ part ∈ pattern.children, Spot text part spot)
      (defaultValuesWithin visit fuel pattern) := by
  induction fuel generalizing pattern with
  | zero => exact marks_pure ()
  | succ fuel ih =>
    rw [defaultValuesWithin]
    refine marks_forM fun part hpart => ?_
    have hmem := Tree.mem_children_of_named hpart
    have hbelow : ∀ done : Unit,
        Marks false text (fun spot => ∃ part ∈ pattern.children, Spot text part spot)
          (if Text.endsWith "pattern" part.kind then defaultValuesWithin visit fuel part
            else pure ()) := by
      intro done
      split
      · rename_i hends
        have hplain : ∀ kind ∈ special, ¬ Text.endsWith "pattern" kind := by decide
        refine (ih part).mono ?_
        rintro spot ⟨inner, hinner, hspot⟩
        exact ⟨part, hmem, spot_child (fun h => hplain _ h hends) hinner spot hspot⟩
      · exact marks_pure ()
    dsimp only
    split
    · rename_i hassignment
      have hkind : part.kind ∉ special := by
        rcases hassignment with h | h
        · rw [h]
          decide
        · rw [h]
          decide
      exact ((marks_field hvisit hkind "right").mono fun spot hspot => ⟨part, hmem, hspot⟩).bind
        hbelow
    · exact hbelow ()

theorem marks_parameters {parameters : Tree} (hmem : parameters ∈ node.children)
    (hopens : OpensParameters node parameters) :
    Marks false text (Spot text node) (Ecma.parameters visit parameters) := by
  rw [Ecma.parameters]
  split
  · exact (marks_textOf parameters).bind fun _ => marks_bindLocal _
  · refine marks_forM fun parameter hparameter => ?_
    have hpart := Tree.mem_children_of_named hparameter
    have hfield : ∀ field, field ≠ "pattern" →
        Marks false text (Spot text node) (visitField visit parameter field) := by
      refine fun field hne => marks_visitField hvisit fun inner hinner spot hspot =>
        .onward (.parameter hmem hopens hpart (Tree.mem_children_of_child? hinner) ?_) hspot
      rw [Tree.field_of_child? hinner]
      exact fun h => hne (Option.some.inj h)
    have hdefaults : Marks false text (Spot text node)
        (defaultValues visit ((parameter.child? "pattern").getD parameter)) := by
      refine (marks_defaultValuesWithin hvisit _ _).mono ?_
      rintro spot ⟨inner, hinner, hspot⟩
      cases hpattern : parameter.child? "pattern" with
      | some pattern =>
        rw [hpattern] at hinner
        exact .onward (.pattern hmem hopens hpart (Tree.mem_children_of_child? hpattern)
          (Tree.field_of_child? hpattern) hinner) hspot
      | none =>
        rw [hpattern] at hinner
        have hnone := List.find?_eq_none.1 hpattern inner hinner
        exact .onward (.parameter hmem hopens hpart hinner (by simpa using hnone)) hspot
    exact (marks_bindPattern bindings _).bind fun _ => (hfield _ (by decide)).bind fun _ =>
      (hfield _ (by decide)).bind fun _ => (hfield _ (by decide)).bind fun _ => hdefaults

theorem marks_functionBody (hkind : node.kind ∈ functions)
    (hnamed : node.kind ∈ methods → (node.child? "name").isSome) :
    Marks false text (Spot text node) (functionBody visit node) := by
  have hparameters : ∀ field ∈ ["parameters", "parameter"],
      Marks false text (Spot text node)
        ((node.child? field).forM (Ecma.parameters visit)) := by
    refine fun field hfield => marks_optionForM fun found hfound =>
      marks_parameters hvisit (Tree.mem_children_of_child? hfound) ⟨hkind, hnamed, ?_⟩
    rw [Tree.field_of_child? hfound]
    simpa using hfield
  have hother : ∀ field, field ∉ ["parameters", "parameter"] →
      Marks false text (Spot text node) (visitField visit node field) := by
    refine fun field hfield => marks_visitField hvisit fun child hchild spot hspot =>
      .onward (.child (Tree.mem_children_of_child? hchild) ?_ ?_ ?_) hspot
    · have hplain : ∀ kind ∈ functions,
          kind ∉ ["import_statement", "export_statement", "call_expression"] := by decide
      exact fun _ hown => hplain _ hkind hown.kind
    · rintro ⟨-, -, hparameter⟩
      rw [Tree.field_of_child? hchild] at hparameter
      exact hfield (by simpa using hparameter)
    · have hplain : ∀ kind ∈ functions, kind ∉ classes := by decide
      exact fun hopens => hplain _ hkind hopens.1
  exact (hparameters _ (by decide)).bind fun _ => (hparameters _ (by decide)).bind fun _ =>
    (hother _ (by decide)).bind fun _ => hother _ (by decide)

/-- A function without a name of its own. -/
theorem marks_functionValue (hkind : node.kind ∈ functionValues) :
    Marks false text (Spot text node) (functionBody visit node) := by
  have hvalues : ∀ kind ∈ functionValues, kind ∈ functions ∧ kind ∉ methods := by decide
  exact marks_functionBody hvisit (hvalues _ hkind).1 fun h => absurd h (hvalues _ hkind).2

theorem marks_functionDeclaration (hkind : node.kind ∈ functions)
    (hplain : node.kind ∉ methods) :
    Marks false text (Spot text node) (functionDeclaration visit node) := by
  have hbody := marks_functionBody hvisit hkind fun h => absurd h hplain
  rw [functionDeclaration]
  split
  · exact marks_inAnonymous _ node hbody
  · exact (marks_define _ _ _ _).bind fun _ => marks_inSymbol _ _ node hbody

theorem marks_method (hkind : node.kind ∈ methods) :
    Marks false text (Spot text node) (method visit node) := by
  have hmethods : ∀ kind ∈ methods, kind ∈ functions ∧ kind ∉ classes ∧
      kind ∉ ["import_statement", "export_statement", "call_expression"] := by decide
  obtain ⟨hfunction, hclass, howned⟩ := hmethods _ hkind
  have hpass : ∀ child ∈ node.children, ¬ OpensParameters node child →
      Spot text child ≤ Spot text node := fun child hchild hopens spot hspot =>
    .onward (.child hchild (fun _ hown => howned hown.kind) hopens fun h => hclass h.1) hspot
  rw [method]
  split
  · rename_i hname
    refine marks_visitChildren hvisit fun child hchild => hpass child hchild ?_
    rintro ⟨-, hnamed, -⟩
    rw [hname] at hnamed
    exact absurd (hnamed hkind) (by decide)
  · rename_i name hname
    have hbody := marks_functionBody hvisit hfunction fun _ => by rw [hname]; rfl
    split
    · refine (marks_visit hvisit (hpass name (Tree.mem_children_of_child? hname) ?_)).bind fun _ =>
        marks_inAnonymous _ node hbody
      rintro ⟨-, -, hparameter⟩
      rw [Tree.field_of_child? hname] at hparameter
      exact absurd hparameter (by decide)
    · exact (marks_define _ _ _ _).bind fun _ => marks_inSymbol _ _ node hbody

/-! ### Classes -/

theorem marks_classBody (hkind : node.kind ∈ classes) :
    Marks false text (Spot text node) (classBody visit node) := by
  rw [classBody]
  split
  · rename_i body hbody
    exact marks_visitChildren hvisit fun member hmember spot hspot =>
      .onward (.member (Tree.mem_children_of_child? hbody) ⟨hkind, Tree.field_of_child? hbody⟩
        hmember) hspot
  · exact marks_pure ()

/-- The parts of a clause; types lead to nothing but their arguments. -/
theorem marks_heritageWithin (symbol fuel : Nat) (clause : Tree) :
    Marks false text (fun spot => ∃ part ∈ clause.children, Spot text part spot)
      (heritageWithin visit symbol fuel clause) := by
  induction fuel generalizing clause with
  | zero => exact marks_pure ()
  | succ fuel ih =>
    rw [heritageWithin]
    refine marks_forM fun part hpart => ?_
    have hmem := Tree.mem_children_of_named hpart
    refine Marks.mono (?_ : Marks false text (Spot text part) _) fun spot hspot =>
      ⟨part, hmem, hspot⟩
    by_cases hkind : part.kind ∈ special
    · have hclauses : ∀ kind ∈ special,
          kind ∉ ["extends_clause", "implements_clause", "extends_type_clause"] := by decide
      rw [typeName?_of_special hkind, pure_bind]
      dsimp only
      rw [if_neg (hclauses _ hkind)]
      exact hvisit part
    · refine (marks_typeNameWithin part.height).bind fun base => ?_
      split
      · exact (marks_addBase symbol _).bind fun _ => (marks_referencePath nofun).bind fun _ =>
          marks_field hvisit hkind _
      · split
        · refine (ih part).mono ?_
          rintro spot ⟨inner, hinner, hspot⟩
          exact spot_child hkind hinner spot hspot
        · exact hvisit part

theorem marks_classDeclaration (hkind : node.kind ∈ classes) :
    Marks false text (Spot text node) (classDeclaration visit node) := by
  have hbody := marks_classBody hvisit hkind
  rw [classDeclaration]
  split
  · exact hbody
  · refine (marks_define _ _ _ _).bind fun symbol => ?_
    refine (marks_withOwner symbol (marks_forM fun clause hclause => ?_)).bind fun _ =>
      marks_inSymbol symbol _ node hbody
    obtain ⟨hnamed, hclauseKind⟩ := List.mem_filter.1 hclause
    have hmem := Tree.mem_children_of_named hnamed
    have hplain : clause.kind ∉ special := by
      rw [of_decide_eq_true hclauseKind]
      decide
    refine (marks_heritageWithin hvisit symbol _ clause).mono ?_
    rintro spot ⟨part, hpart, hspot⟩
    by_cases hopens : OpensBody node clause
    · exact .onward (.member hmem hopens hpart) hspot
    · have hclasses : ∀ kind ∈ classes, kind ∉ functions ∧
          kind ∉ ["import_statement", "export_statement", "call_expression"] := by decide
      obtain ⟨hfunction, howned⟩ := hclasses _ hkind
      exact .onward (.child hmem (fun _ hown => howned hown.kind) (fun h => hfunction h.1) hopens)
        (spot_child hplain hpart spot hspot)

/-! ### Fields and declarations -/

/-- A function that is a value of the node. -/
theorem marks_defineFunction {value : Tree} (hpass : Spot text value ≤ Spot text node)
    (hkind : value.kind ∈ functionValues) (name : Tree) :
    Marks false text (Spot text node) (do
      let symbol ← define .functionDef name node false
      inSymbol symbol .functionBody value (functionBody visit value)) :=
  (marks_define _ _ _ _).bind fun _ =>
    marks_inSymbol _ _ value ((marks_functionValue hvisit hkind).mono hpass)

theorem marks_defineVariable {value : Tree} (hpass : Spot text value ≤ Spot text node)
    (name : Tree) : Marks false text (Spot text node) (do
      let symbol ← define .variableDef name node false
      withOwner symbol (visit value)) :=
  (marks_define _ _ _ _).bind fun _ => marks_withOwner _ (marks_visit hvisit hpass)

theorem marks_fieldDefinition (hkind : node.kind ∉ special) :
    Marks false text (Spot text node) (Ecma.field visit node) := by
  rw [Ecma.field]
  split
  · exact marks_children hvisit hkind
  · refine (marks_field hvisit hkind _).bind fun _ => ?_
    split
    · exact (marks_define _ _ _ _).bind fun _ => marks_pure ()
    · rename_i value hvalue
      have hpass : Spot text value ≤ Spot text node := spot_child? hkind hvalue
      split
      · exact marks_defineFunction hvisit hpass ‹_› _
      · exact marks_defineVariable hvisit hpass _

theorem marks_moduleDeclarator (hkind : node.kind ∉ special) (name : Tree) :
    Marks false text (Spot text node) (moduleDeclarator visit node name) := by
  have hpass : ∀ value, node.child? "value" = some value → Spot text value ≤ Spot text node :=
    fun value hvalue => spot_child? hkind hvalue
  rw [moduleDeclarator]
  split
  · refine (marks_mapM fun part _ => marks_define _ _ _ _).bind fun symbols => ?_
    split
    · exact marks_withOwner _ (marks_visit hvisit (hpass _ ‹_›))
    · exact marks_visit hvisit (hpass _ ‹_›)
    · exact marks_pure ()
  · split
    · exact (marks_define _ _ _ _).bind fun _ => marks_pure ()
    · rename_i value hvalue
      split
      · exact marks_defineFunction hvisit (hpass value hvalue) ‹_› name
      · split
        · rename_i hclass
          have hbody : Marks false text (Spot text value) (classBody visit value) :=
            marks_classBody hvisit (hclass ▸ by decide)
          exact (marks_define _ _ _ _).bind fun _ =>
            marks_inSymbol _ _ value (hbody.mono (hpass value hvalue))
        · exact marks_defineVariable hvisit (hpass value hvalue) name

theorem marks_declarator (hkind : node.kind ∉ special) :
    Marks false text (Spot text node) (declarator visit node) := by
  rw [declarator]
  split
  · exact marks_children hvisit hkind
  · rename_i name hname
    refine (marks_field hvisit hkind _).bind fun _ => ?_
    extract_lets bindRequired
    have hbind : ∀ required : Option (String × ByteRange),
        (∀ specifier range, required = some (specifier, range) →
          Spot text node (.module range specifier)) →
        Marks false text (Spot text node) (bindRequired required) := by
      intro required hspot
      dsimp only [bindRequired]
      split
      · exact (marks_sourceRange node).bind fun _ => marks_requireBindings (hspot _ _ rfl)
      · refine marks_inFunction.bind fun inFunction => ?_
        split
        · exact (marks_field hvisit hkind _).bind fun _ => marks_bindPattern bindings name
        · exact marks_moduleDeclarator hvisit hkind name
    split
    · rename_i value hvalue
      exact marks_requireSpecifier?_bind (hbind _ fun specifier range hrequired =>
        spot_child? hkind hvalue _ (spot_required hrequired))
    · exact hbind none nofun

theorem marks_declaration (hkind : node.kind ∉ special) :
    Marks false text (Spot text node) (declaration visit node) := by
  refine marks_forM fun child hchild => ?_
  have hpass : Spot text child ≤ Spot text node :=
    spot_child hkind (Tree.mem_children_of_named hchild)
  split
  · rename_i hdeclarator
    exact (marks_declarator hvisit (hdeclarator ▸ by decide)).mono hpass
  · exact marks_visit hvisit hpass

/-! ### Exports -/

theorem marks_visitDeclared (hpass : Spot text child ≤ Spot text node) :
    Marks false text (Spot text node) (visitDeclared visit child) :=
  marks_get.bind fun _ => (marks_visit hvisit hpass).bind fun _ => marks_get.bind fun _ =>
    marks_pure _

theorem marks_exportDeclaration (hpass : Spot text child ≤ Spot text node) :
    Marks false text (Spot text node) (exportDeclaration visit node child) := by
  refine (marks_visitDeclared hvisit hpass).bind fun declared =>
    (marks_forM fun name _ => marks_markExported name).bind fun _ => ?_
  split
  · exact marks_optionForM fun name _ => marks_setDefaultExport name
  · exact marks_pure ()

theorem marks_exportValue (hpass : Spot text child ≤ Spot text node) :
    Marks false text (Spot text node) (exportValue visit child) := by
  rw [exportValue]
  split
  · exact (marks_textOf child).bind fun _ => (marks_setDefaultExport _).bind fun _ =>
      marks_reference
  · split
    · rename_i hfunction
      have hvalues : ∀ kind ∈ functionValues, kind ∈ functions ∧ kind ∉ methods := by decide
      obtain ⟨hkind, hplain⟩ := hvalues _ hfunction.1
      exact marks_get.bind fun _ =>
        ((marks_functionDeclaration hvisit hkind hplain).mono hpass).bind fun _ =>
        marks_get.bind fun _ => marks_optionForM fun name _ => marks_setDefaultExport name
    · exact (marks_visitDeclared hvisit hpass).bind fun _ =>
        marks_optionForM fun name _ => marks_setDefaultExport name

theorem marks_exportStatement (hkind : node.kind = "export_statement") :
    Marks false text (Spot text node) (exportStatement visit node) := by
  have hpass : node.child? "source" = none → ∀ child ∈ node.children,
      Spot text child ≤ Spot text node := by
    refine fun hsource child hchild spot hspot =>
      .onward (.child hchild ?_ (fun h => ?_) fun h => ?_) hspot
    · rintro spot (⟨-, hfound⟩ | hrequired)
      · exact absurd (hsource.symm.trans hfound) (by simp)
      · exact absurd (hkind.symm.trans (encloses_of_required hrequired).1) (by decide)
    · exact absurd (hkind ▸ h.1) (by decide)
    · exact absurd (hkind ▸ h.1) (by decide)
  rw [exportStatement]
  split
  · exact marks_reexport hkind ‹_›
  · exact marks_exportDeclaration hvisit (hpass ‹_› _ (Tree.mem_children_of_child? ‹_›))
  · exact marks_exportValue hvisit (hpass ‹_› _ (Tree.mem_children_of_child? ‹_›))
  · exact marks_forM fun clause _ => marks_forM fun specifier _ => marks_exportSpecifier

/-! ### Other statements and expressions -/

theorem marks_forIn (hkind : node.kind ∉ special) :
    Marks false text (Spot text node) (forIn visit node) := by
  have hbody : ∀ done : Unit, Marks false text (Spot text node) (visitField visit node "body") :=
    fun _ => marks_field hvisit hkind _
  refine (marks_field hvisit hkind _).bind fun _ => ?_
  dsimp only
  split
  · exact hbody ()
  · refine marks_inFunction.bind fun inFunction => ?_
    split
    · exact (marks_bindPattern bindings _).bind hbody
    · exact (marks_visit hvisit (spot_child? hkind ‹_›)).bind hbody

theorem marks_memberUse : Marks false text (Spot text node) (memberUse visit memberShape node) := by
  refine marks_memberChain?_bind ?_
  split
  · exact marks_visit hvisit (spot_chainRootWithin node.height)
  · refine (marks_isSelf _).bind fun self => ?_
    split
    · exact marks_selfMember _ _
    · split
      · exact marks_pure ()
      · exact marks_referencePath nofun

theorem marks_call (hkind : node.kind = "call_expression") :
    Marks false text (Spot text node) (call visit node) := by
  refine marks_requireSpecifier?_bind ?_
  split
  · rename_i specifier range hrequired
    exact (marks_sourceRange node).bind fun _ => marks_importing (spot_required hrequired)
  · rename_i hrequired
    refine marks_visitChildren hvisit fun child hchild spot hspot =>
      .onward (.child hchild ?_ (fun h => ?_) fun h => ?_) hspot
    · rintro other (hsource | hfound)
      · exact absurd (hkind ▸ hsource.1) (by decide)
      · exact absurd (hrequired.symm.trans hfound) (by simp)
    · exact absurd (hkind ▸ h.1) (by decide)
    · exact absurd (hkind ▸ h.1) (by decide)

theorem marks_anonymousFunction (hkind : node.kind ∈ functionValues) :
    Marks false text (Spot text node) (anonymousFunction visit node) :=
  marks_inAnonymous _ node (marks_functionValue hvisit hkind)

theorem marks_step (node : Tree) : Marks false text (Spot text node) (step visit node) := by
  rw [step]
  split
  · rename_i hkind
    exact marks_functionDeclaration hvisit (hkind ▸ by decide) (hkind ▸ by decide)
  · rename_i hkind
    exact marks_functionDeclaration hvisit (hkind ▸ by decide) (hkind ▸ by decide)
  · rename_i hkind
    exact marks_functionDeclaration hvisit (hkind ▸ by decide) (hkind ▸ by decide)
  · rename_i hkind
    exact marks_classDeclaration hvisit (hkind ▸ by decide)
  · rename_i hkind
    exact marks_classDeclaration hvisit (hkind ▸ by decide)
  · rename_i hkind
    exact marks_classDeclaration hvisit (hkind ▸ by decide)
  · rename_i hkind
    exact marks_anonymousFunction hvisit (hkind ▸ by decide)
  · rename_i hkind
    exact marks_anonymousFunction hvisit (hkind ▸ by decide)
  · rename_i hkind
    exact marks_anonymousFunction hvisit (hkind ▸ by decide)
  · rename_i hkind
    exact marks_anonymousFunction hvisit (hkind ▸ by decide)
  · rename_i hkind
    exact marks_method hvisit (hkind ▸ by decide)
  · rename_i hkind
    exact marks_method hvisit (hkind ▸ by decide)
  · rename_i hkind
    exact marks_method hvisit (hkind ▸ by decide)
  · rename_i hkind
    exact marks_fieldDefinition hvisit (hkind ▸ by decide)
  · rename_i hkind
    exact marks_fieldDefinition hvisit (hkind ▸ by decide)
  · rename_i hkind
    exact marks_declaration hvisit (hkind ▸ by decide)
  · rename_i hkind
    exact marks_declaration hvisit (hkind ▸ by decide)
  · exact marks_importStatement ‹_›
  · exact marks_exportStatement hvisit ‹_›
  · rename_i hkind
    exact marks_forIn hvisit (hkind ▸ by decide)
  · rename_i hkind
    exact marks_inAnonymous _ node <|
      (marks_optionForM fun parameter _ => marks_bindPattern bindings parameter).bind fun _ =>
      marks_field hvisit (hkind ▸ by decide) _
  · exact marks_memberUse hvisit
  · exact marks_call hvisit ‹_›
  · rename_i hkind
    exact marks_field hvisit (hkind ▸ by decide) _
  · exact marks_reference
  · exact marks_reference
  · exact marks_pure ()
  · exact marks_pure ()
  · exact marks_pure ()
  · exact marks_pure ()
  · exact marks_pure ()
  · exact marks_pure ()
  · exact marks_pure ()
  · refine marks_children hvisit ?_
    simp only [special, functions, functionValues, methods, classes]
    simp_all

end Visit

/-! ### The spots lie apart -/

/-- What lies below the parameters of a function, for given spots of the parts of patterns and of what
stands beside them. -/
def ParameterSpot (spots : Tree → Mark → Prop) (parameters : Tree) (spot : Mark) : Prop :=
  ∃ parameter ∈ parameters.children, ∃ part ∈ parameter.children,
    part.field ≠ some "pattern" ∧ spots part spot ∨
    part.field = some "pattern" ∧ ∃ inner ∈ part.children, spots inner spot

/-- What a child adds to a node, for given spots of the nodes that the walk goes on to. -/
def ChildSpot (text : String) (node : Tree) (spots : Tree → Mark → Prop) (child : Tree)
    (spot : Mark) : Prop :=
  OpensParameters node child ∧ ParameterSpot spots child spot ∨
  OpensBody node child ∧ (∃ member ∈ child.children, spots member spot) ∨
  ¬ OpensParameters node child ∧ ¬ OpensBody node child ∧
    (∀ own, ¬ OwnSpot text node own) ∧ spots child spot

section Scattered

variable {text : String} {node : Tree} {spots : Tree → Mark → Prop}
  (hnested : node.Everywhere Tree.Nested)
  (hspots : ∀ inner, Onward text node inner → Scattered inner.range (spots inner))

include hnested

/-- A node has one spot of its own at most. -/
theorem scattered_own : Scattered node.range (OwnSpot text node) := by
  by_cases hcall : node.kind = "call_expression"
  · have hsource : ∀ source, ¬ Sources node source := fun source h =>
      absurd (hcall ▸ h.1) (by decide)
    cases hrequired : required? text node with
    | none =>
      refine (scattered_none node.range).mono ?_
      rintro spot (hfound | hfound)
      · exact hsource _ hfound
      · exact absurd (hrequired.symm.trans hfound) (by simp)
    | some found =>
      obtain ⟨specifier, range⟩ := found
      obtain ⟨-, first, hencloses, hmark⟩ := encloses_of_required hrequired
      refine (scattered_one (moduleMark text first) (hnested.inside hencloses)).mono ?_
      rintro other (hfound | hfound)
      · exact absurd hfound (hsource _)
      · obtain ⟨rfl, rfl⟩ := Prod.mk.inj (Option.some.inj (hfound.symm.trans hrequired))
        exact hmark
  · have hrequired : ∀ specifier range, required? text node ≠ some (specifier, range) :=
      fun specifier range h => hcall (encloses_of_required h).1
    cases hfound : node.child? "source" with
    | none =>
      refine (scattered_none node.range).mono ?_
      rintro spot (⟨-, hsource⟩ | hother)
      · exact absurd (hfound.symm.trans hsource) (by simp)
      · exact hrequired _ _ hother
    | some source =>
      refine (scattered_one (moduleMark text source)
        (hnested.here.inside source (Tree.mem_children_of_child? hfound))).mono ?_
      rintro spot (⟨-, hsource⟩ | hother)
      · rw [Option.some.inj (hfound.symm.trans hsource)]
      · exact absurd hother (hrequired _ _)

include hspots

/-- The parts below the parameters of a function. -/
theorem scattered_parameters {parameters : Tree} (hmem : parameters ∈ node.children)
    (hopens : OpensParameters node parameters) :
    Scattered parameters.range (ParameterSpot spots parameters) := by
  have hbelow := Tree.encloses_of_mem hmem
  refine (hnested _ (.inr hbelow)).scattered fun parameter hparameter => ?_
  have hbelow' := hbelow.tail hparameter
  refine (hnested _ (.inr hbelow')).scattered fun part hpart => ?_
  by_cases hfield : part.field = some "pattern"
  · refine ((hnested _ (.inr (hbelow'.tail hpart))).scattered fun inner hinner =>
      hspots inner (.pattern hmem hopens hparameter hpart hfield hinner)).mono ?_
    rintro spot (⟨hne, -⟩ | ⟨-, hspot⟩)
    · exact absurd hfield hne
    · exact hspot
  · refine (hspots part (.parameter hmem hopens hparameter hpart hfield)).mono ?_
    rintro spot (⟨-, hspot⟩ | ⟨heq, -⟩)
    · exact hspot
    · exact absurd heq hfield

/-- The parts of a node are its children, or parts of those it opens. -/
theorem scattered_parts :
    Scattered node.range fun spot => ∃ inner, Onward text node inner ∧ spots inner spot := by
  have hopens : ∀ {child}, OpensParameters node child → ¬ OpensBody node child := by
    have hkinds : ∀ kind ∈ functions, kind ∉ classes := by decide
    intro child hfunction hclass
    exact hkinds _ hfunction.1 hclass.1
  refine (hnested.here.scattered fun child hchild =>
    (?_ : Scattered child.range (ChildSpot text node spots child))).mono ?_
  · by_cases hparameters : OpensParameters node child
    · refine (scattered_parameters hnested hspots hchild hparameters).mono ?_
      rintro spot (⟨-, hspot⟩ | ⟨hbody, -⟩ | ⟨hnot, -⟩)
      · exact hspot
      · exact absurd hbody (hopens hparameters)
      · exact absurd hparameters hnot
    · by_cases hbody : OpensBody node child
      · refine ((hnested _ (.inr (Tree.encloses_of_mem hchild))).scattered fun member hmember =>
          hspots member (.member hchild hbody hmember)).mono ?_
        rintro spot (⟨hother, -⟩ | ⟨-, hspot⟩ | ⟨-, hnot, -⟩)
        · exact absurd hother hparameters
        · exact hspot
        · exact absurd hbody hnot
      · by_cases hown : ∀ own, ¬ OwnSpot text node own
        · refine (hspots child (.child hchild hown hparameters hbody)).mono ?_
          rintro spot (⟨hother, -⟩ | ⟨hother, -⟩ | ⟨-, -, -, hspot⟩)
          · exact absurd hother hparameters
          · exact absurd hother hbody
          · exact hspot
        · refine (scattered_none child.range).mono ?_
          rintro spot (⟨hother, -⟩ | ⟨hother, -⟩ | ⟨-, -, hnone, -⟩)
          · exact hparameters hother
          · exact hbody hother
          · exact hown hnone
  · rintro spot ⟨inner, honward, hspot⟩
    cases honward with
    | parameter hchild hparameters hparameter hinner hfield =>
      exact ⟨_, hchild, .inl ⟨hparameters, _, hparameter, _, hinner, .inl ⟨hfield, hspot⟩⟩⟩
    | pattern hchild hparameters hparameter hpattern hfield hinner =>
      exact ⟨_, hchild, .inl ⟨hparameters, _, hparameter, _, hpattern,
        .inr ⟨hfield, _, hinner, hspot⟩⟩⟩
    | member hchild hbody hmember => exact ⟨_, hchild, .inr (.inl ⟨hbody, _, hmember, hspot⟩)⟩
    | child hchild hown hparameters hbody =>
      exact ⟨_, hchild, .inr (.inr ⟨hparameters, hbody, hown, hspot⟩)⟩

/-- A node has a spot of its own, or what the walk goes on to has some. -/
theorem scattered_node : Scattered node.range fun spot =>
    OwnSpot text node spot ∨ ∃ inner, Onward text node inner ∧ spots inner spot := by
  by_cases hown : ∃ spot, OwnSpot text node spot
  · obtain ⟨own, hown⟩ := hown
    have hplain : ∀ kind ∈ ["import_statement", "export_statement", "call_expression"],
        kind ∉ functions ∧ kind ∉ classes := by decide
    obtain ⟨hfunction, hclass⟩ := hplain _ hown.kind
    have hscattered : Scattered node.range (OwnSpot text node) := scattered_own hnested
    refine hscattered.mono ?_
    rintro spot (hspot | ⟨inner, honward, -⟩)
    · exact hspot
    · cases honward with
      | parameter _ hopens => exact absurd hopens.1 hfunction
      | pattern _ hopens => exact absurd hopens.1 hfunction
      | member _ hopens => exact absurd hopens.1 hclass
      | child _ hnone => exact absurd hown (hnone own)
  · refine (scattered_parts hnested hspots).mono ?_
    rintro spot (hspot | hspot)
    · exact absurd ⟨spot, hspot⟩ hown
    · exact hspot

end Scattered

/-- **The spots of a well-nested tree lie apart.** -/
theorem scattered_spot (text : String) {tree : Tree} (hnested : tree.Everywhere Tree.Nested) :
    Scattered tree.range (Spot text tree) :=
  Spots.scattered (fun _ _ honward => honward.encloses)
    (fun _ _ hnode hspots => scattered_node hnode hspots) hnested

/-- A specifier is what stands between the quotes at its place. -/
theorem reads_of_spot {text : String} {tree : Tree} {spot : Mark} (hspot : Spot text tree spot) :
    spot.Reads text Text.unquote := by
  refine Spots.forall_own (fun node own hown => ?_) hspot
  cases hown with
  | source => rfl
  | required hrequired =>
    obtain ⟨-, first, -, hmark⟩ := encloses_of_required hrequired
    rw [hmark]
    rfl

end Ecma

namespace TypeScript

open Ecma (Spot special spot_child)

section Visit

variable {text : String} {node : Tree} {visit : Visit}
  (hvisit : ∀ node, Marks false text (Spot text node) (visit node))

include hvisit

theorem marks_interface (hkind : node.kind ∉ special) :
    Marks false text (Spot text node) (interface visit node) := by
  rw [interface]
  split
  · exact Ecma.marks_children hvisit hkind
  · refine (marks_define _ _ _ _).bind fun symbol =>
      (Ecma.marks_field hvisit hkind _).bind fun _ => ?_
    refine (marks_withOwner symbol (marks_forM fun clause hclause => ?_)).bind fun _ =>
      marks_inSymbol symbol _ node (Ecma.marks_field hvisit hkind _)
    obtain ⟨hnamed, hclauseKind⟩ := List.mem_filter.1 hclause
    have hplain : clause.kind ∉ special := by
      rw [of_decide_eq_true hclauseKind]
      decide
    refine (Ecma.marks_heritageWithin hvisit symbol _ clause).mono ?_
    rintro spot ⟨part, hpart, hspot⟩
    exact spot_child hkind (Tree.mem_children_of_named hnamed) spot
      (spot_child hplain hpart spot hspot)

theorem marks_typeDeclaration (hkind : node.kind ∉ special) :
    Marks false text (Spot text node) (typeDeclaration visit node) := by
  rw [typeDeclaration]
  split
  · exact Ecma.marks_children hvisit hkind
  · exact (marks_define _ _ _ _).bind fun symbol => marks_inSymbol _ _ node <|
      (Ecma.marks_field hvisit hkind _).bind fun _ =>
      (Ecma.marks_field hvisit hkind _).bind fun _ => Ecma.marks_field hvisit hkind _

theorem marks_nestedType (hkind : node.kind ∉ special) :
    Marks false text (Spot text node) (nestedType visit node) := by
  refine (Ecma.marks_typeNameWithin node.height).bind fun name => ?_
  split
  · exact marks_referencePath nofun
  · exact Ecma.marks_children hvisit hkind

theorem marks_step (node : Tree) : Marks false text (Spot text node) (step visit node) := by
  rw [step]
  split
  · rename_i hkind
    exact marks_interface hvisit (hkind ▸ by decide)
  · rename_i hkind
    exact marks_typeDeclaration hvisit (hkind ▸ by decide)
  · rename_i hkind
    exact marks_typeDeclaration hvisit (hkind ▸ by decide)
  · exact Ecma.marks_reference
  · rename_i hkind
    exact marks_nestedType hvisit (hkind ▸ by decide)
  · exact marks_pure ()
  · exact marks_pure ()
  · exact marks_pure ()
  · rename_i hkind
    exact Ecma.marks_field hvisit (hkind ▸ by decide) _
  · rename_i hkind
    exact Ecma.marks_field hvisit (hkind ▸ by decide) _
  · rename_i hkind
    exact Ecma.marks_field hvisit (hkind ▸ by decide) _
  · rename_i hkind
    exact Ecma.marks_children hvisit (hkind ▸ by decide)
  · exact Ecma.marks_step hvisit node

end Visit

end TypeScript

end CodeGraph
