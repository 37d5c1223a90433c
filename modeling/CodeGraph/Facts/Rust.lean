import CodeGraph.Facts.Walk

/-!
# Facts of Rust files
-/

namespace CodeGraph.Rust

open Walk

def bindings : List String := ["identifier", "shorthand_field_identifier"]

def fieldShape : MemberShape :=
  { members := ["field_expression"], object := "value", property := "field"
    identifiers := ["identifier", "self"], receivers := ["self"] }

def pathRoots : List String := ["crate", "self", "super"]

def isPublic (node : Tree) : Bool :=
  node.namedChildren.any fun child => child.kind = "visibility_modifier"

def segmentsWithin : Nat → Tree → Walk (Option (List String))
  | 0, _ => pure none
  | fuel + 1, node => do
    match node.kind with
    | "identifier" | "type_identifier" | "crate" | "self" | "super" | "metavariable" =>
      return some [← textOf node]
    | "scoped_identifier" | "scoped_type_identifier" =>
      let outer ← match node.child? "path" with
        | some path => segmentsWithin fuel path
        | none => pure (some [])
      match outer, node.child? "name" with
      | some outer, some name => return some (outer ++ [← textOf name])
      | _, _ => return none
    | _ => return none

/-- The segments of a path such as `a::b::c`; none for paths with anything else in them. -/
def segments? (node : Tree) : Walk (Option (List String)) :=
  segmentsWithin node.height node

/-- A path as a dotted name, without its generic arguments. -/
def pathRef? (node : Tree) : Walk (Option NameRef) := do
  let inner := if node.kind = "generic_type" then node.child? "type" else some node
  match inner with
  | none => return none
  | some inner =>
    match ← segments? inner with
    | some (name :: path) => return some ⟨name, path, inner.range⟩
    | _ => return none

def parameter (visit : Visit) (node : Tree) : Walk Unit := do
  match node.kind with
  | "parameter" =>
    visitField visit node "type"
    (node.child? "pattern").forM (bindPattern bindings)
  | "self_parameter" | "variadic_parameter" => pure ()
  | _ => bindPattern bindings node

def parameters (visit : Visit) (node : Tree) : Walk Unit :=
  node.namedChildren.forM (parameter visit)

def function (visit : Visit) (node : Tree) : Walk Unit := do
  match node.child? "name" with
  | none => visitChildren visit node
  | some name =>
    let symbol ← define .functionDef name node (isPublic node)
    inSymbol symbol .functionBody node do
      visitField visit node "type_parameters"
      (node.child? "parameters").forM (parameters visit)
      visitField visit node "return_type"
      visitField visit node "body"

def typeItem (visit : Visit) (node : Tree) : Walk Unit := do
  match node.child? "name" with
  | none => visitChildren visit node
  | some name =>
    let symbol ← define .classDef name node (isPublic node)
    inSymbol symbol .classBody node do
      visitField visit node "type_parameters"
      visitField visit node "bounds"
      visitField visit node "type"
      visitField visit node "body"

def valueItem (visit : Visit) (node : Tree) : Walk Unit := do
  match node.child? "name" with
  | none => visitChildren visit node
  | some name =>
    visitField visit node "type"
    let symbol ← define .variableDef name node (isPublic node)
    withOwner symbol (visitField visit node "value")

/-- `mod x;` takes in another file, `mod x { … }` is a name space of its own. -/
def moduleItem (visit : Visit) (node : Tree) : Walk Unit := do
  match node.child? "name" with
  | none => pure ()
  | some name =>
    match node.child? "body" with
    | none =>
      let text ← textOf name
      let fact := ImportFact.ofSpecifier ("self::" ++ text) (← sourceRange node) name.range
      importing { fact with localName := some text, reexport := isPublic node }
    | some body =>
      let symbol ← define .classDef name node (isPublic node)
      inSymbol symbol .moduleBody node (visitChildren visit body)

def implTypeWithin : Nat → Tree → Option Tree
  | 0, _ => none
  | fuel + 1, node =>
    match node.kind with
    | "type_identifier" => some node
    | "generic_type" => (node.child? "type").bind (implTypeWithin fuel)
    | _ => none

/-- The class that an `impl` block extends, when it is declared earlier in the file. -/
def implOwner? (node : Tree) : Walk (Option Nat) := do
  let target := (node.child? "type").bind fun type => implTypeWithin type.height type
  match ← target.mapM textOf with
  | none => return none
  | some name =>
    let facts ← get
    return (facts.topLevelSymbol? name).filter fun index =>
      facts.symbols[index]?.map SymbolFact.kind = some .classDef

/-- The trait of an `impl` block is a base of the type it is for. -/
def implBlock (visit : Visit) (node : Tree) : Walk Unit := do
  let owner ← implOwner? node
  let base ← match node.child? "trait" with
    | some base => pathRef? base
    | none => pure none
  match owner, base with
  | some owner, some base => addBase owner base
  | _, _ => pure ()
  visitField visit node "type_parameters"
  visitField visit node "trait"
  visitField visit node "type"
  match node.child? "body", owner with
  | some body, some owner => inSymbol owner .classBody node (visitChildren visit body)
  | some body, none => inAnonymous .classBody node (visitChildren visit body)
  | none, _ => pure ()

/-- One path out of a `use` tree. -/
structure UsePath where
  segments : List String
  renamed : Option String := none
  wildcard : Bool := false
  range : ByteRange

def usePathsWithin : Nat → List String → Tree → Walk (List UsePath)
  | 0, _, _ => pure []
  | fuel + 1, outer, node => do
    match node.kind with
    | "identifier" | "crate" | "self" | "super" | "scoped_identifier" | "metavariable" =>
      match ← segments? node with
      | some segments => return [{ segments := outer ++ segments, range := node.range }]
      | none => return []
    | "use_as_clause" =>
      match node.child? "path", node.child? "alias" with
      | some path, some renamed =>
        match ← segments? path with
        | some segments =>
          let renamed ← textOf renamed
          return [{ segments := outer ++ segments, renamed, range := path.range }]
        | none => return []
      | _, _ => return []
    | "use_wildcard" =>
      match node.namedChildren.head? with
      | some path =>
        let segments := outer ++ (← segments? path).getD []
        return [{ segments, wildcard := true, range := path.range }]
      | none => return [{ segments := outer, wildcard := true, range := node.range }]
    | "scoped_use_list" =>
      let segments ← match node.child? "path" with
        | some path => segments? path
        | none => pure none
      match node.child? "list" with
      | some list => usePathsWithin fuel (outer ++ segments.getD []) list
      | none => return []
    | "use_list" =>
      return (← node.namedChildren.mapM (usePathsWithin fuel outer)).flatten
    | _ => return []

/-- A `use` tree such as `a::{b, c::d as e, f::*}`, one path for each import. -/
def usePaths (node : Tree) : Walk (List UsePath) :=
  usePathsWithin node.height [] node

/-- Inside an inline module `super` is the module of the file. -/
def UsePath.fromInline (path : UsePath) : UsePath :=
  match path.segments with
  | "super" :: rest => { path with segments := "self" :: rest }
  | _ => path

/-- `use a::b::{self}` imports `a::b` itself. -/
def dropSelf (segments : List String) : List String :=
  if 1 < segments.length ∧ segments.getLast? = some "self" then segments.dropLast else segments

def importPath (range : SourceRange) (isReexport : Bool) (path : UsePath) : Walk Unit := do
  let fact (specifier : String) : ImportFact :=
    { ImportFact.ofSpecifier specifier range path.range with reexport := isReexport }
  if path.wildcard then importing (fact (Text.join "::" path.segments)).asWildcard
  else
    let segments := dropSelf path.segments
    match segments.getLast? with
    | none => pure ()
    | some last =>
      let renamed := path.renamed
      let localName := some (renamed.getD last)
      match segments.dropLast with
      | [] => importing { fact last with renamed, localName }
      | outer =>
        importing { fact (Text.join "::" outer) with member := some last, renamed, localName }

def inInlineModule : Walk Bool := do
  return !(← atModuleRoot) && (← scope?).map Scope.kind = some .moduleBody

def useDeclaration (node : Tree) : Walk Unit := do
  match node.child? "argument" with
  | none => pure ()
  | some argument =>
    let range ← sourceRange node
    let paths ← usePaths argument
    let paths := if ← inInlineModule then paths.map UsePath.fromInline else paths
    paths.forM (importPath range (isPublic node))

def externCrate (node : Tree) : Walk Unit := do
  match node.child? "name" with
  | none => pure ()
  | some name =>
    let specifier ← textOf name
    let renamed ← (node.child? "alias").mapM textOf
    let fact := ImportFact.ofSpecifier specifier (← sourceRange node) name.range
    importing { fact with localName := some (renamed.getD specifier) }

/-- Paths that start at `Self` use the class, paths that start at a module root use nothing here. -/
def scopedUse (visit : Visit) (node : Tree) : Walk Unit := do
  match ← pathRef? node with
  | none => visitChildren visit node
  | some target =>
    if target.name = "Self" then
      match target.path.head?, ← enclosingClass? with
      | some member, some _ => selfMember member target.range
      | _, _ => pure ()
    else if target.name ∈ pathRoots then pure ()
    else referencePath target

def bindField (node : Tree) : Walk Unit :=
  (node.child? "pattern").forM (bindPattern bindings)

def letDeclaration (visit : Visit) (node : Tree) : Walk Unit := do
  visitField visit node "type"
  visitField visit node "value"
  visitField visit node "alternative"
  bindField node

def closure (visit : Visit) (node : Tree) : Walk Unit :=
  inAnonymous .functionBody node do
    (node.child? "parameters").forM (parameters visit)
    visitField visit node "return_type"
    visitField visit node "body"

def step (visit : Visit) (node : Tree) : Walk Unit :=
  match node.kind with
  | "function_item" | "function_signature_item" => function visit node
  | "struct_item" | "enum_item" | "union_item" | "type_item" | "trait_item" => typeItem visit node
  | "const_item" | "static_item" => valueItem visit node
  | "mod_item" => moduleItem visit node
  | "impl_item" => implBlock visit node
  | "use_declaration" => useDeclaration node
  | "extern_crate_declaration" => externCrate node
  | "let_declaration" => letDeclaration visit node
  | "let_condition" => do
    visitField visit node "value"
    bindField node
  | "for_expression" => do
    visitField visit node "value"
    inAnonymous .functionBody node do
      bindField node
      visitField visit node "body"
  | "match_arm" => inAnonymous .functionBody node do
    bindField node
    visitField visit node "value"
  | "closure_expression" => closure visit node
  | "field_expression" => memberUse visit fieldShape node
  | "scoped_identifier" | "scoped_type_identifier" => scopedUse visit node
  | "macro_invocation" => visitField visit node "token_tree"
  | "struct_expression" => do
    visitField visit node "name"
    visitField visit node "body"
  | "field_initializer" => visitField visit node "value"
  | "enum_variant" => do
    visitField visit node "body"
    visitField visit node "value"
  | "shorthand_field_initializer" | "identifier" | "type_identifier" => reference node
  | "attribute_item" | "inner_attribute_item" | "line_comment" | "block_comment"
  | "field_identifier" | "primitive_type" | "string_literal" | "lifetime" => pure ()
  | _ => visitChildren visit node

end CodeGraph.Rust
