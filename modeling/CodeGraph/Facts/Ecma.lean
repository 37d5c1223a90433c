import CodeGraph.Facts.Walk

/-!
# Facts of JavaScript files

Everything the grammars of JavaScript and TypeScript share.
-/

namespace CodeGraph.Ecma

open Walk

def memberShape : MemberShape :=
  { members := ["member_expression"], object := "object", property := "property"
    identifiers := ["identifier", "this"], receivers := ["this"] }

def typeShape : MemberShape :=
  { members := ["member_expression"], object := "object", property := "property"
    identifiers := ["identifier", "type_identifier"] }

/-- The nodes that bind a name inside a pattern. -/
def bindings : List String := ["identifier", "shorthand_property_identifier_pattern"]

def functionValues : List String :=
  ["arrow_function", "function_expression", "function", "generator_function"]

def defaultValuesWithin (visit : Visit) : Nat → Tree → Walk Unit
  | 0, _ => pure ()
  | fuel + 1, pattern =>
    pattern.namedChildren.forM fun child => do
      if child.kind = "assignment_pattern" ∨ child.kind = "object_assignment_pattern" then
        visitField visit child "right"
      if Text.endsWith "pattern" child.kind then defaultValuesWithin visit fuel child

/-- The default values inside a destructuring pattern. -/
def defaultValues (visit : Visit) (pattern : Tree) : Walk Unit :=
  defaultValuesWithin visit pattern.height pattern

def parameter (visit : Visit) (node : Tree) : Walk Unit := do
  let pattern := (node.child? "pattern").getD node
  bindPattern bindings pattern
  visitField visit node "right"
  visitField visit node "value"
  visitField visit node "type"
  defaultValues visit pattern

def parameters (visit : Visit) (node : Tree) : Walk Unit := do
  if node.kind = "identifier" then bindLocal (← textOf node)
  else node.namedChildren.forM (parameter visit)

/-- Parameters and body of anything like a function, inside its scope. -/
def functionBody (visit : Visit) (node : Tree) : Walk Unit := do
  (node.child? "parameters").forM (parameters visit)
  (node.child? "parameter").forM (parameters visit)
  visitField visit node "return_type"
  visitField visit node "body"

def anonymousFunction (visit : Visit) (node : Tree) : Walk Unit :=
  inAnonymous .functionBody node (functionBody visit node)

def functionDeclaration (visit : Visit) (node : Tree) : Walk Unit := do
  match node.child? "name" with
  | none => anonymousFunction visit node
  | some name =>
    let symbol ← define .functionDef name node false
    inSymbol symbol .functionBody node (functionBody visit node)

def classBody (visit : Visit) (node : Tree) : Walk Unit :=
  match node.child? "body" with
  | some body => visitChildren visit body
  | none => pure ()

def typeNameWithin : Nat → Tree → Walk (Option NameRef)
  | 0, _ => pure none
  | fuel + 1, node => do
    match node.kind with
    | "identifier" | "type_identifier" | "member_expression" => memberChain? typeShape node
    | "nested_type_identifier" =>
      match node.child? "module", node.child? "name" with
      | some outer, some name =>
        match ← typeNameWithin fuel outer with
        | none => return none
        | some base =>
          return some { base with path := base.path ++ [← textOf name], range := node.range }
      | _, _ => return none
    | "generic_type" =>
      match node.child? "name" with
      | some name => typeNameWithin fuel name
      | none => return none
    | _ => return none

/-- A class or type expression as a dotted name. -/
def typeName? (node : Tree) : Walk (Option NameRef) :=
  typeNameWithin node.height node

def heritageWithin (visit : Visit) (symbol : Nat) : Nat → Tree → Walk Unit
  | 0, _ => pure ()
  | fuel + 1, clause =>
    clause.namedChildren.forM fun part => do
      match ← typeName? part with
      | some base =>
        addBase symbol base
        referencePath base
        visitField visit part "type_arguments"
      | none =>
        if part.kind ∈ ["extends_clause", "implements_clause", "extends_type_clause"] then
          heritageWithin visit symbol fuel part
        else visit part

/-- Every type named in a clause is a base of the class, and a use from it. -/
def heritage (visit : Visit) (symbol : Nat) (clause : Tree) : Walk Unit :=
  heritageWithin visit symbol clause.height clause

def classDeclaration (visit : Visit) (node : Tree) : Walk Unit := do
  match node.child? "name" with
  | none => classBody visit node
  | some name =>
    let symbol ← define .classDef name node false
    let clauses := node.namedChildren.filter fun child => child.kind = "class_heritage"
    withOwner symbol (clauses.forM (heritage visit symbol))
    inSymbol symbol .classBody node (classBody visit node)

def method (visit : Visit) (node : Tree) : Walk Unit := do
  match node.child? "name" with
  | none => visitChildren visit node
  | some name =>
    if name.kind = "computed_property_name" then
      visit name
      anonymousFunction visit node
    else
      let symbol ← define .functionDef name node false
      inSymbol symbol .functionBody node (functionBody visit node)

def field (visit : Visit) (node : Tree) : Walk Unit := do
  let name := ((node.child? "property").or (node.child? "name")).filter fun name =>
    name.kind ≠ "computed_property_name"
  match name with
  | none => visitChildren visit node
  | some name =>
    visitField visit node "type"
    match node.child? "value" with
    | none => discard (define .variableDef name node false)
    | some value =>
      if value.kind ∈ functionValues then
        let symbol ← define .functionDef name node false
        inSymbol symbol .functionBody value (functionBody visit value)
      else
        let symbol ← define .variableDef name node false
        withOwner symbol (visit value)

/-- The specifier of a `require` call. -/
def requireSpecifier? (node : Tree) : Walk (Option (String × ByteRange)) := do
  if node.kind ≠ "call_expression" then return none
  match node.child? "function", node.child? "arguments" with
  | some function, some arguments =>
    if function.kind ≠ "identifier" ∨ (← textOf function) ≠ "require" then return none
    match arguments.namedChildren.head? with
    | some first =>
      if first.kind = "string" then return some (Text.unquote (← textOf first), first.range)
      else return none
    | none => return none
  | _, _ => return none

def importMember (fact : ImportFact) (member : String) (renamed : Option String)
    (localName : String) : Walk Unit :=
  importing { fact with member := some member, renamed, localName := some localName }

def requireProperty (fact : ImportFact) (property : Tree) : Walk Unit := do
  let bind (member localName : String) : Walk Unit :=
    importMember fact member (if member = localName then none else some localName) localName
  match property.kind with
  | "shorthand_property_identifier_pattern" =>
    let name ← textOf property
    bind name name
  | "pair_pattern" =>
    match property.child? "key", property.child? "value" with
    | some key, some value =>
      if value.kind = "identifier" then bind (← textOf key) (← textOf value)
    | _, _ => pure ()
  | _ => pure ()

/-- What a pattern takes from a required module. -/
def requireBindings (fact : ImportFact) (pattern : Tree) : Walk Unit := do
  match pattern.kind with
  | "identifier" => importing { fact with localName := some (← textOf pattern) }
  | "object_pattern" => pattern.namedChildren.forM (requireProperty fact)
  | _ => importing fact

/-- Outside functions a declarator defines: one variable for each name of a pattern, or what its
value makes of a plain name. -/
def moduleDeclarator (visit : Visit) (node name : Tree) : Walk Unit := do
  let value := node.child? "value"
  if name.kind ≠ "identifier" then
    let symbols ← (name.patternNames bindings).mapM fun part => define .variableDef part node false
    match value, symbols.head? with
    | some value, some symbol => withOwner symbol (visit value)
    | some value, none => visit value
    | none, _ => pure ()
  else match value with
    | none => discard (define .variableDef name node false)
    | some value =>
      if value.kind ∈ functionValues then
        let symbol ← define .functionDef name node false
        inSymbol symbol .functionBody value (functionBody visit value)
      else if value.kind = "class" then
        let symbol ← define .classDef name node false
        inSymbol symbol .classBody value (classBody visit value)
      else
        let symbol ← define .variableDef name node false
        withOwner symbol (visit value)

def declarator (visit : Visit) (node : Tree) : Walk Unit := do
  match node.child? "name" with
  | none => visitChildren visit node
  | some name =>
    visitField visit node "type"
    let required ← match node.child? "value" with
      | some value => requireSpecifier? value
      | none => pure none
    match required with
    | some (specifier, range) =>
      requireBindings (ImportFact.ofSpecifier specifier (← sourceRange node) range) name
    | none =>
      if ← inFunction then
        visitField visit node "value"
        bindPattern bindings name
      else moduleDeclarator visit node name

def declaration (visit : Visit) (node : Tree) : Walk Unit :=
  node.namedChildren.forM fun child =>
    if child.kind = "variable_declarator" then declarator visit child else visit child

/-- The member a specifier names and the name it gets; `x as y` renames. -/
def specifierNames? (specifier : Tree) : Walk (Option (String × Option String)) := do
  match specifier.child? "name" with
  | none => return none
  | some name =>
    let renamed ← (specifier.child? "alias").mapM textOf
    return some (Text.unquote (← textOf name), renamed)

def importPart (fact : ImportFact) (part : Tree) : Walk Unit := do
  match part.kind with
  | "identifier" =>
    importing { fact with member := some "default", localName := some (← textOf part) }
  | "namespace_import" =>
    match part.namedChildren.find? fun child => child.kind = "identifier" with
    | some name => importing { fact with localName := some (← textOf name) }
    | none => pure ()
  | "named_imports" =>
    let specifiers := part.namedChildren.filter fun child => child.kind = "import_specifier"
    specifiers.forM fun specifier => do
      match ← specifierNames? specifier with
      | some (member, renamed) => importMember fact member renamed (renamed.getD member)
      | none => pure ()
  | _ => pure ()

def importStatement (node : Tree) : Walk Unit := do
  match node.child? "source" with
  | none => pure ()
  | some source =>
    let fact := ImportFact.ofSpecifier (Text.unquote (← textOf source)) (← sourceRange node)
      source.range
    match node.namedChildren.find? fun child => child.kind = "import_clause" with
    | none => importing fact
    | some clause => clause.namedChildren.forM (importPart fact)

/-- Visits a node and lists the module-level names it declared. -/
def visitDeclared (visit : Visit) (node : Tree) : Walk (List String) := do
  let before := (← get).symbols.length
  visit node
  return ((← get).symbols.drop before).filter (fun symbol =>
    symbol.parent.isNone && symbol.scope = ScopeTree.root) |>.map SymbolFact.name

/-- One part of an `export … from`: an import that also extends what this file exports. -/
def reexportPart (fact : ImportFact) (child : Tree) : Walk Unit := do
  match child.kind with
  | "*" => importing fact.asWildcard
  | "namespace_export" =>
    match child.namedChildren.head? with
    | none => pure ()
    | some name =>
      let localName := Text.unquote (← textOf name)
      markExported localName
      importing { fact with localName := some localName }
  | "export_clause" =>
    child.namedChildren.forM fun specifier => do
      match ← specifierNames? specifier with
      | none => pure ()
      | some (member, renamed) =>
        markExported (renamed.getD member)
        importMember fact member renamed (renamed.getD member)
  | _ => pure ()

def reexport (node source : Tree) : Walk Unit := do
  let specifier := Text.unquote (← textOf source)
  let fact := ImportFact.ofSpecifier specifier (← sourceRange node) source.range
  node.children.forM (reexportPart { fact with reexport := true })

def exportDeclaration (visit : Visit) (node declaration : Tree) : Walk Unit := do
  let declared ← visitDeclared visit declaration
  declared.forM markExported
  if node.children.any fun child => child.kind = "default" then
    declared.head?.forM setDefaultExport

/-- The value of `export default`: a name, a named function, or any expression. -/
def exportValue (visit : Visit) (value : Tree) : Walk Unit := do
  if value.kind = "identifier" then
    setDefaultExport (← textOf value)
    reference value
  else if value.kind ∈ functionValues ∧ (value.child? "name").isSome then
    let before := (← get).symbols.length
    functionDeclaration visit value
    ((← get).symbols[before]?.map SymbolFact.name).forM setDefaultExport
  else
    (← visitDeclared visit value).head?.forM setDefaultExport

def exportSpecifier (specifier : Tree) : Walk Unit := do
  match specifier.child? "name" with
  | none => pure ()
  | some name =>
    let localName ← textOf name
    reference name
    if (← (specifier.child? "alias").mapM textOf) = some "default" then setDefaultExport localName
    else markExported localName

def exportStatement (visit : Visit) (node : Tree) : Walk Unit := do
  match node.child? "source", node.child? "declaration", node.child? "value" with
  | some source, _, _ => reexport node source
  | none, some declaration, _ => exportDeclaration visit node declaration
  | none, none, some value => exportValue visit value
  | none, none, none =>
    (node.children.filter fun child => child.kind = "export_clause").forM fun clause =>
      clause.namedChildren.forM exportSpecifier

def forIn (visit : Visit) (node : Tree) : Walk Unit := do
  visitField visit node "right"
  match node.child? "left" with
  | none => pure ()
  | some left =>
    if (← inFunction) || (node.child? "kind").isSome then bindPattern bindings left else visit left
  visitField visit node "body"

def catchClause (visit : Visit) (node : Tree) : Walk Unit :=
  inAnonymous .functionBody node do
    (node.child? "parameter").forM (bindPattern bindings)
    visitField visit node "body"

def call (visit : Visit) (node : Tree) : Walk Unit := do
  match ← requireSpecifier? node with
  | some (specifier, range) =>
    importing (ImportFact.ofSpecifier specifier (← sourceRange node) range)
  | none => visitChildren visit node

def step (visit : Visit) (node : Tree) : Walk Unit :=
  match node.kind with
  | "function_declaration" | "generator_function_declaration" | "function_signature" =>
    functionDeclaration visit node
  | "class_declaration" | "abstract_class_declaration" | "class" => classDeclaration visit node
  | "arrow_function" | "function_expression" | "function" | "generator_function" =>
    anonymousFunction visit node
  | "method_definition" | "method_signature" | "abstract_method_signature" => method visit node
  | "field_definition" | "public_field_definition" => field visit node
  | "lexical_declaration" | "variable_declaration" => declaration visit node
  | "import_statement" => importStatement node
  | "export_statement" => exportStatement visit node
  | "for_in_statement" => forIn visit node
  | "catch_clause" => catchClause visit node
  | "member_expression" => memberUse visit memberShape node
  | "call_expression" => call visit node
  | "pair" => visitField visit node "value"
  | "identifier" | "shorthand_property_identifier" => reference node
  | "comment" | "property_identifier" | "private_property_identifier" | "statement_identifier"
  | "string" | "regex" | "number" => pure ()
  | _ => visitChildren visit node

end CodeGraph.Ecma
