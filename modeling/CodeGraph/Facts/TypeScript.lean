import CodeGraph.Facts.Ecma

/-!
# Facts of TypeScript files

Declarations of types, on top of what TypeScript shares with JavaScript.
-/

namespace CodeGraph.TypeScript

open Walk

def interface (visit : Visit) (node : Tree) : Walk Unit := do
  match node.child? "name" with
  | none => visitChildren visit node
  | some name =>
    let symbol ← define .classDef name node false
    visitField visit node "type_parameters"
    let clauses := node.namedChildren.filter fun child => child.kind = "extends_type_clause"
    withOwner symbol (clauses.forM (Ecma.heritage visit symbol))
    inSymbol symbol .classBody node (visitField visit node "body")

/-- Type aliases and enumerations are symbols like classes. -/
def typeDeclaration (visit : Visit) (node : Tree) : Walk Unit := do
  match node.child? "name" with
  | none => visitChildren visit node
  | some name =>
    let symbol ← define .classDef name node false
    inSymbol symbol .classBody node do
      visitField visit node "type_parameters"
      visitField visit node "value"
      visitField visit node "body"

def nestedType (visit : Visit) (node : Tree) : Walk Unit := do
  match ← Ecma.typeName? node with
  | some name => referencePath name
  | none => visitChildren visit node

def step (visit : Visit) (node : Tree) : Walk Unit :=
  match node.kind with
  | "interface_declaration" => interface visit node
  | "type_alias_declaration" | "enum_declaration" => typeDeclaration visit node
  | "type_identifier" => reference node
  | "nested_type_identifier" => nestedType visit node
  | "predefined_type" | "literal_type" | "property_signature_name" => pure ()
  | "property_signature" => visitField visit node "type"
  | "internal_module" | "module" => visitField visit node "body"
  | "ambient_declaration" => visitChildren visit node
  | _ => Ecma.step visit node

end CodeGraph.TypeScript
