import CodeGraph.Facts.Walk

/-!
# Facts of Python files
-/

namespace CodeGraph.Python

open Walk

def identifiers : List String := ["identifier"]

def attributeShape : MemberShape :=
  { members := ["attribute"], object := "object", property := "attribute", identifiers }

/-- Functions that take the name of an attribute as a text. -/
def stringLookups : List String := ["getattr", "setattr", "hasattr", "delattr"]

def visitDefaults (visit : Visit) (parameters : Tree) : Walk Unit :=
  parameters.namedChildren.forM fun parameter => do
    visitField visit parameter "value"
    visitField visit parameter "type"

/-- Defaults and annotations belong to the scope around the function. -/
def function (visit : Visit) (node : Tree) : Walk Unit := do
  match node.child? "name" with
  | none => visitChildren visit node
  | some name =>
    let parameters := node.child? "parameters"
    parameters.forM (visitDefaults visit)
    visitField visit node "return_type"
    let symbol ← define .functionDef name node false
    inSymbol symbol .functionBody node do
      parameters.forM (bindPattern identifiers)
      visitField visit node "body"

def base (visit : Visit) (symbol : Nat) (argument : Tree) : Walk Unit := do
  if argument.kind = "identifier" ∨ argument.kind = "attribute" then
    match ← memberChain? attributeShape argument with
    | some chain =>
      addBase symbol chain
      referencePath chain
    | none => pure ()
  else visit argument

def classDefinition (visit : Visit) (node : Tree) : Walk Unit := do
  match node.child? "name" with
  | none => visitChildren visit node
  | some name =>
    let symbol ← define .classDef name node false
    match node.child? "superclasses" with
    | some superclasses => withOwner symbol (superclasses.namedChildren.forM (base visit symbol))
    | none => pure ()
    inSymbol symbol .classBody node (visitField visit node "body")

def importedModule (range : SourceRange) (name : Tree) : Walk Unit := do
  match name.kind with
  | "dotted_name" =>
    let specifier ← textOf name
    importing { ImportFact.ofSpecifier specifier range name.range with localName := some specifier }
  | "aliased_import" =>
    match name.child? "name", name.child? "alias" with
    | some inner, some renamed =>
      let renamed ← textOf renamed
      importing { ImportFact.ofSpecifier (← textOf inner) range inner.range with
        renamed := some renamed, localName := some renamed }
    | _, _ => pure ()
  | _ => pure ()

def importStatement (node : Tree) : Walk Unit := do
  let range ← sourceRange node
  (node.childrenIn "name").forM (importedModule range)

def importMember (fact : ImportFact) (member : String) (renamed : Option String) : Walk Unit :=
  importing { fact with
    member := some member, renamed, localName := some (renamed.getD member) }

def importedMember (fact : ImportFact) (name : Tree) : Walk Unit := do
  match name.kind with
  | "dotted_name" => importMember fact (← textOf name) none
  | "aliased_import" =>
    match name.child? "name" with
    | none => pure ()
    | some member =>
      let renamed ← (name.child? "alias").mapM textOf
      importMember fact (← textOf member) renamed
  | _ => pure ()

def importFrom (node : Tree) : Walk Unit := do
  match node.child? "module_name" with
  | none => pure ()
  | some name =>
    let fact := ImportFact.ofSpecifier (← textOf name) (← sourceRange node) name.range
    if node.namedChildren.any fun child => child.kind = "wildcard_import" then
      importing fact.asWildcard
    else (node.childrenIn "name").forM (importedMember fact)

/-- The texts listed in `__all__`. -/
def exportList (list : Tree) : Walk Unit :=
  list.namedChildren.forM fun item => do
    if item.kind = "string" then markExported (Text.unquote (← textOf item))

def exportsNames (left : Tree) : Walk Bool := do
  return !(← inFunction) && (← textOf left) = "__all__"

/-- One name that is assigned to. Inside functions it is a local; elsewhere the first assignment
defines a variable. -/
def assignName (statement target : Tree) : Walk (Option Nat) := do
  let name ← textOf target
  if ← inFunction then
    bindLocal name
    return none
  else if ← declaredHere name then return none
  else return some (← define .variableDef target statement false)

def targetLists : List String :=
  ["pattern_list", "tuple_pattern", "list_pattern", "tuple", "list", "list_splat_pattern",
    "parenthesized_expression"]

/-- Assigns to every part of a target and answers the first symbol this defines. -/
def assignTargets (visit : Visit) (statement target : Tree) : Walk (Option Nat) :=
  (target.leaves targetLists).foldlM (fun (first : Option Nat) leaf => do
    if leaf.kind = "identifier" then return first.or (← assignName statement leaf)
    else
      visit leaf
      return first) none

def assignment (visit : Visit) (node : Tree) : Walk Unit := do
  visitField visit node "type"
  let left := node.child? "left"
  let right := node.child? "right"
  match left, right with
  | some left, some right => if ← exportsNames left then exportList right
  | _, _ => pure ()
  let symbol ← match left with
    | some left => assignTargets visit node left
    | none => pure none
  match right, symbol with
  | some right, some symbol => withOwner symbol (visit right)
  | some right, none => visit right
  | none, _ => pure ()

def augmentedAssignment (visit : Visit) (node : Tree) : Walk Unit := do
  match node.child? "left", node.child? "right" with
  | some left, some right =>
    if ← exportsNames left then exportList right
    visit left
    visit right
  | _, _ => visitChildren visit node

/-- Targets of loops, `with` and `except` are locals at any level. -/
def bindTargets (visit : Visit) (target : Tree) : Walk Unit :=
  if target.kind = "attribute" ∨ target.kind = "subscript" then visit target
  else bindPattern identifiers target

def loop (visit : Visit) (node : Tree) : Walk Unit := do
  visitField visit node "right"
  (node.child? "left").forM (bindTargets visit)
  visitField visit node "body"
  visitField visit node "alternative"

/-- The first child in the `alias` role is bound, every other named child visited. -/
def asPatternChildren (visit : Visit) : Bool → List Tree → Walk Unit
  | _, [] => pure ()
  | bound, child :: rest => do
    let binds := !bound && child.field = some "alias"
    if child.named then
      if binds then bindTargets visit child else visit child
    asPatternChildren visit (bound || binds) rest

/-- A name right after `as` is bound. -/
def exceptChildren (visit : Visit) : Bool → List Tree → Walk Unit
  | _, [] => pure ()
  | afterAs, child :: rest => do
    if child.named then
      if afterAs && child.kind = "identifier" then bindLocal (← textOf child) else visit child
      exceptChildren visit false rest
    else exceptChildren visit (child.kind = "as") rest

def lookupLiteral? (function arguments : Tree) : Walk (Option Tree) := do
  if function.kind = "identifier" ∧ (← textOf function) ∈ stringLookups then
    return arguments.namedChildren[1]?.filter fun argument => argument.kind = "string"
  else return none

def call (visit : Visit) (node : Tree) : Walk Unit := do
  match node.child? "function", node.child? "arguments" with
  | some function, some arguments =>
    match ← lookupLiteral? function arguments with
    | some literal => stringLookup (Text.unquote (← textOf literal)) literal.range
    | none => pure ()
  | _, _ => pure ()
  visitChildren visit node

def step (visit : Visit) (node : Tree) : Walk Unit :=
  match node.kind with
  | "function_definition" => function visit node
  | "class_definition" => classDefinition visit node
  | "import_statement" => importStatement node
  | "import_from_statement" => importFrom node
  | "future_import_statement" | "global_statement" | "nonlocal_statement" | "comment" => pure ()
  | "assignment" => assignment visit node
  | "augmented_assignment" => augmentedAssignment visit node
  | "for_statement" | "for_in_clause" => loop visit node
  | "as_pattern" => asPatternChildren visit false node.children
  | "except_clause" => exceptChildren visit false node.children
  | "named_expression" => do
    visitField visit node "value"
    (node.child? "name").forM (bindTargets visit)
  | "lambda" => inAnonymous .functionBody node do
    (node.child? "parameters").forM (bindPattern identifiers)
    visitField visit node "body"
  | "attribute" => memberUse visit attributeShape node
  | "call" => call visit node
  | "keyword_argument" => visitField visit node "value"
  | "identifier" => reference node
  | _ => visitChildren visit node

end CodeGraph.Python
