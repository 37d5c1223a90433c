import CodeGraph.Facts.Walk

/-!
# Facts of Java files
-/

namespace CodeGraph.Java

open Walk

def accessShape : MemberShape :=
  { members := ["field_access"], object := "object", property := "field"
    identifiers := ["identifier", "this"], receivers := ["this"] }

def objectShape : MemberShape :=
  { accessShape with identifiers := ["identifier"] }

def isName (node : Tree) : Bool :=
  node.kind = "scoped_identifier" || node.kind = "identifier"

def isPublic (node : Tree) : Walk Bool := do
  let modifiers := node.namedChildren.filter fun child => child.kind = "modifiers"
  return (← modifiers.mapM textOf).any fun text => (Text.words text).contains "public"

def packageDeclaration (node : Tree) : Walk Unit := do
  match node.namedChildren.find? isName with
  | some name => setPackage (← textOf name)
  | none => pure ()

/-- A plain import takes the last name of its path out of what comes before. -/
def importDeclaration (node : Tree) : Walk Unit := do
  match node.namedChildren.find? isName with
  | none => pure ()
  | some path =>
    let text ← textOf path
    let range ← sourceRange node
    if node.children.any fun child => child.kind = "asterisk" then
      importing (ImportFact.ofSpecifier text range path.range).asWildcard
    else match Text.splitLast? '.' text with
      | some (specifier, member) =>
        importing { ImportFact.ofSpecifier specifier range path.range with
          member := some member, localName := some member }
      | none =>
        importing { ImportFact.ofSpecifier text range path.range with localName := some text }

def typeRefsWithin : Nat → Tree → Walk (List NameRef)
  | 0, _ => pure []
  | fuel + 1, node => do
    match node.kind with
    | "type_identifier" => return [⟨← textOf node, [], node.range⟩]
    | "generic_type" =>
      let raw := node.namedChildren.find? fun child =>
        child.kind = "type_identifier" || child.kind = "scoped_type_identifier"
      match raw with
      | some raw => typeRefsWithin fuel raw
      | none => return []
    | "scoped_type_identifier" =>
      match (Text.split '.' (← textOf node)).map Text.trim with
      | name :: path => return [⟨name, path, node.range⟩]
      | [] => return []
    | _ => return (← node.namedChildren.mapM (typeRefsWithin fuel)).flatten

/-- The types named in an `extends` or `implements` clause, without their arguments. -/
def typeRefs (clause : Tree) : Walk (List NameRef) :=
  typeRefsWithin clause.height clause

def bindName (node : Tree) : Walk Unit := do
  match node.child? "name" with
  | some name => bindLocal (← textOf name)
  | none => pure ()

def spreadPart (visit : Visit) (part : Tree) : Walk Unit :=
  if part.kind = "variable_declarator" then bindName part else visit part

def parameter (visit : Visit) (node : Tree) : Walk Unit := do
  match node.kind with
  | "identifier" => bindLocal (← textOf node)
  | "formal_parameter" =>
    visitField visit node "type"
    bindName node
  | "spread_parameter" => node.namedChildren.forM (spreadPart visit)
  | _ => pure ()

def parameters (visit : Visit) (node : Tree) : Walk Unit := do
  if node.kind = "identifier" then bindLocal (← textOf node)
  else node.namedChildren.forM (parameter visit)

def heritageKinds : List String := ["superclass", "super_interfaces", "extends_interfaces"]

def heritage (symbol : Nat) (clause : Tree) : Walk Unit := do
  (← typeRefs clause).forM fun base => do
    addBase symbol base
    referencePath base

def typeDeclaration (visit : Visit) (node : Tree) : Walk Unit := do
  match node.child? "name" with
  | none => visitChildren visit node
  | some name =>
    let symbol ← define .classDef name node (← isPublic node)
    let clauses := node.namedChildren.filter fun child => child.kind ∈ heritageKinds
    withOwner symbol (clauses.forM (heritage symbol))
    inSymbol symbol .classBody node do
      (node.child? "parameters").forM (parameters visit)
      visitField visit node "body"

def method (visit : Visit) (node : Tree) : Walk Unit := do
  match node.child? "name" with
  | none => visitChildren visit node
  | some name =>
    visitField visit node "type"
    let symbol ← define .functionDef name node (← isPublic node)
    inSymbol symbol .functionBody node do
      (node.child? "parameters").forM (parameters visit)
      visitField visit node "body"

def field (visit : Visit) (node : Tree) : Walk Unit := do
  visitField visit node "type"
  let exported ← isPublic node
  (node.childrenIn "declarator").forM fun declarator => do
    match declarator.child? "name" with
    | none => pure ()
    | some name =>
      let symbol ← define .variableDef name node exported
      withOwner symbol (visitField visit declarator "value")

def localVariables (visit : Visit) (node : Tree) : Walk Unit := do
  visitField visit node "type"
  (node.childrenIn "declarator").forM fun declarator => do
    visitField visit declarator "value"
    bindName declarator

/-- Parameters of `catch`, resources and the variables of loops. -/
def boundStatement (visit : Visit) (node : Tree) : Walk Unit := do
  visitField visit node "type"
  visitField visit node "value"
  bindName node
  (node.namedChildren.filter fun child => child.kind = "catch_type").forM visit
  visitField visit node "body"

/-- A call on an object uses the object; its method is only looked for through a chain of names. -/
def callOn (visit : Visit) (node object : Tree) (name : Option Tree) : Walk Unit := do
  if object.kind = "this" then
    match name, ← isSelf "this" with
    | some name, true => selfMember (← textOf name) node.range
    | _, _ => pure ()
  else match ← memberChain? objectShape object with
    | some chain =>
      let called ← name.mapM textOf
      referencePath { chain with path := chain.path ++ called.toList }
    | none => visit object

def invocation (visit : Visit) (node : Tree) : Walk Unit := do
  let name := node.child? "name"
  match node.child? "object" with
  | none => name.forM reference
  | some object => callOn visit node object name
  visitField visit node "type_arguments"
  visitField visit node "arguments"

def step (visit : Visit) (node : Tree) : Walk Unit :=
  match node.kind with
  | "package_declaration" => packageDeclaration node
  | "import_declaration" => importDeclaration node
  | "class_declaration" | "interface_declaration" | "enum_declaration" | "record_declaration"
  | "annotation_type_declaration" => typeDeclaration visit node
  | "method_declaration" | "constructor_declaration" | "compact_constructor_declaration" =>
    method visit node
  | "field_declaration" | "constant_declaration" => field visit node
  | "enum_constant" => do
    visitField visit node "arguments"
    visitField visit node "body"
  | "local_variable_declaration" => localVariables visit node
  | "lambda_expression" => inAnonymous .functionBody node do
    (node.child? "parameters").forM (parameters visit)
    visitField visit node "body"
  | "catch_clause" => inAnonymous .functionBody node (visitChildren visit node)
  | "catch_formal_parameter" | "resource" | "enhanced_for_statement" => boundStatement visit node
  | "method_invocation" => invocation visit node
  | "field_access" => memberUse visit accessShape node
  | "identifier" | "type_identifier" => reference node
  | "line_comment" | "block_comment" | "modifiers" | "string_literal" => pure ()
  | _ => visitChildren visit node

end CodeGraph.Java
