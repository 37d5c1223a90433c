import CodeGraph.Facts.Walk
import CodeGraph.Text.Uppercase

/-!
# Facts of Go files
-/

namespace CodeGraph.Go

open Walk

def selectorShape : MemberShape :=
  { members := ["selector_expression"], object := "operand", property := "field"
    identifiers := ["identifier", "package_identifier", "type_identifier"] }

/-- Names that begin with a capital are exported. -/
def isExported (name : String) : Bool :=
  match name.toList with
  | [] => false
  | first :: _ => Text.isUppercase first

def defineByCase (kind : NodeKind) (name node : Tree) : Walk Nat := do
  define kind name node (isExported (← textOf name))

def packageClause (node : Tree) : Walk Unit := do
  match node.namedChildren.find? fun child => child.kind = "package_identifier" with
  | some name => setPackage (← textOf name)
  | none => pure ()

/-- An import binds its own name, the name given to it, every name, or none. -/
def importSpec (node : Tree) : Walk Unit := do
  match node.child? "path" with
  | none => pure ()
  | some path =>
    let specifier := Text.unquote (← textOf path)
    let fact := ImportFact.ofSpecifier specifier (← sourceRange node) path.range
    match node.child? "name" with
    | none => importing { fact with localName := (Text.split '/' specifier).getLast? }
    | some name =>
      if name.kind = "dot" then importing fact.asWildcard
      else if name.kind = "blank_identifier" then importing fact
      else
        let renamed ← textOf name
        importing { fact with renamed := some renamed, localName := some renamed }

def parameters (visit : Visit) (node : Tree) : Walk Unit :=
  node.namedChildren.forM fun declaration => do
    visitField visit declaration "type"
    (declaration.childrenIn "name").forM fun name => do bindLocal (← textOf name)

def signatureAndBody (visit : Visit) (node : Tree) : Walk Unit := do
  visitField visit node "type_parameters"
  (node.child? "parameters").forM (parameters visit)
  visitField visit node "result"
  visitField visit node "body"

def function (visit : Visit) (node : Tree) : Walk Unit := do
  match node.child? "name" with
  | none => visitChildren visit node
  | some name =>
    let symbol ← defineByCase .functionDef name node
    inSymbol symbol .functionBody node (signatureAndBody visit node)

def methodBody (visit : Visit) (node name : Tree) : Walk Unit := do
  let symbol ← defineByCase .functionDef name node
  inSymbol symbol .functionBody node do
    (node.child? "receiver").forM (parameters visit)
    signatureAndBody visit node

/-- A method belongs to its receiver's type when that is declared earlier in the file, and the
receiver's name then stands for the instance. Its own name is no name of the package. -/
def method (visit : Visit) (node : Tree) : Walk Unit := do
  match node.child? "name" with
  | none => visitChildren visit node
  | some name =>
    let receiver := node.child? "receiver"
    let receiverType := receiver.bind (Tree.findKind? "type_identifier")
    let receiverName ← (((receiver.bind (Tree.findKind? "parameter_declaration")).bind
      fun declaration => declaration.child? "name")).mapM textOf
    let owner := (← receiverType.mapM textOf).bind (← get).topLevelSymbol?
    inAnonymous .classBody node do
      match owner, receiverName with
      | some owner, some receiverName =>
        withOwner owner (withSelfName receiverName (methodBody visit node name))
      | some owner, none => withOwner owner (methodBody visit node name)
      | none, _ =>
        receiverType.forM reference
        methodBody visit node name

def typeSpec (visit : Visit) (node : Tree) : Walk Unit := do
  match node.child? "name" with
  | none => visitChildren visit node
  | some name =>
    let symbol ← defineByCase .classDef name node
    inSymbol symbol .classBody node do
      visitField visit node "type_parameters"
      visitField visit node "type"

/-- Defines a variable for every name but `_` and answers the first. -/
def defineValues (node : Tree) (names : List Tree) : Walk (Option Nat) :=
  names.foldlM (fun (first : Option Nat) name => do
    if (← textOf name) = "_" then return first
    else return first.or (some (← defineByCase .variableDef name node))) none

def valueSpec (visit : Visit) (node : Tree) : Walk Unit := do
  visitField visit node "type"
  let names := node.childrenIn "name"
  if ← inFunction then
    visitField visit node "value"
    names.forM fun name => do bindLocal (← textOf name)
  else
    match ← defineValues node names with
    | some owner => withOwner owner (visitField visit node "value")
    | none => visitField visit node "value"

def bindLeft (visit : Visit) (node : Tree) : Walk Unit := do
  visitField visit node "right"
  (node.child? "left").forM (bindPattern ["identifier"])

def qualifiedType (node : Tree) : Walk Unit := do
  match node.child? "package", node.child? "name" with
  | some package, some name =>
    referencePath ⟨← textOf package, [← textOf name], node.range⟩
  | _, _ => pure ()

def step (visit : Visit) (node : Tree) : Walk Unit :=
  match node.kind with
  | "package_clause" => packageClause node
  | "import_spec" => importSpec node
  | "function_declaration" => function visit node
  | "method_declaration" => method visit node
  | "type_spec" | "type_alias" => typeSpec visit node
  | "const_spec" | "var_spec" => valueSpec visit node
  | "short_var_declaration" | "range_clause" => bindLeft visit node
  | "func_literal" => inAnonymous .functionBody node (signatureAndBody visit node)
  | "selector_expression" => memberUse visit selectorShape node
  | "qualified_type" => qualifiedType node
  | "keyed_element" => node.namedChildren.getLast?.forM visit
  | "identifier" | "type_identifier" => reference node
  | "comment" | "field_identifier" | "label_name" | "interpreted_string_literal"
  | "raw_string_literal" => pure ()
  | _ => visitChildren visit node

end CodeGraph.Go
