import CodeGraph.Document.Basic
import CodeGraph.Import.Plan
import CodeGraph.Parsed

/-!
# Documents of facts

Scopes, the facts of a file, parsed files, and the places an import may point to.
-/

namespace CodeGraph

open Document

def ScopeKind.all : List ScopeKind := [moduleBody, classBody, functionBody]

def ScopeKind.title : ScopeKind → String
  | moduleBody => "Module"
  | classBody => "Class"
  | functionBody => "Function"

def Decl.document : Decl → Document
  | symbol index => record [("Symbol", nat index)]
  | plain => string "Local"

def Scope.document (scope : Scope) : Document :=
  record [("kind", string scope.kind.title), ("parent", optionalNat scope.parent),
    ("range", scope.range.document), ("owner", optionalNat scope.owner),
    ("definitions", record (scope.definitions.entries.map fun (name, decl) =>
      (name, decl.document))),
    ("imports", record (scope.imports.entries.map fun (name, index) => (name, nat index))),
    ("wildcards", nats scope.wildcards)]

def ScopeTree.document (tree : ScopeTree) : Document :=
  record [("scopes", each Scope.document tree.scopes)]

def NameRef.document (target : NameRef) : Document :=
  record [("name", string target.name), ("path", strings target.path),
    ("range", target.range.document)]

/-- A symbol with what its file says of it; symbols of equal text or shape are told by the first of
them. -/
def SymbolFact.document (facts : FileFacts) (index : Nat) (symbol : SymbolFact) : Document :=
  record [("kind", symbol.kind.document), ("name", string symbol.name),
    ("qualified_name", string symbol.qualifiedName), ("range", symbol.range.document),
    ("name_range", symbol.nameRange.document), ("parent", optionalNat symbol.parent),
    ("scope", nat symbol.scope), ("exported", truth symbol.exported),
    ("bases", each NameRef.document symbol.bases),
    ("body_class", optionalNat (facts.symbols.findIdx? symbol.sameBody)),
    ("shape_class", optionalNat (facts.symbols.findIdx? symbol.sameShape)),
    ("enclosing_class", optionalNat (facts.enclosingClass? index)),
    ("member", optionalNat (symbol.parent.bind fun parent => facts.member? parent symbol.name)),
    ("top_level_symbol", optionalNat (facts.topLevelSymbol? symbol.name))]

def ImportFact.document (fact : ImportFact) : Document :=
  record [("module", string fact.specifier), ("member", optionalString fact.member),
    ("alias", optionalString fact.renamed), ("local", optionalString fact.localName),
    ("wildcard", truth fact.wildcard), ("reexport", truth fact.reexport),
    ("range", fact.range.document), ("module_range", fact.specifierRange.document),
    ("scope", nat fact.scope), ("display_name", string fact.displayName)]

def RefKind.all : List RefKind := [name, selfMember, stringLookup]

def RefKind.title : RefKind → String
  | name => "Name"
  | selfMember => "SelfMember"
  | stringLookup => "StringLookup"

def ReferenceFact.document (fact : ReferenceFact) : Document :=
  record [("target", fact.target.document), ("kind", string fact.kind.title),
    ("scope", nat fact.scope), ("owner", optionalNat fact.owner)]

def FileFacts.document (facts : FileFacts) : Document :=
  record [("language", facts.language.document),
    ("symbols", list (facts.symbols.mapIdx (SymbolFact.document facts))),
    ("imports", each ImportFact.document facts.imports),
    ("references", each ReferenceFact.document facts.references),
    ("scopes", facts.scopes.document), ("exports", strings facts.exports),
    ("default_export", optionalString facts.defaultExport),
    ("package", optionalString facts.package),
    ("error_ranges", each ByteRange.document facts.errorRanges),
    ("surface", strings facts.surface), ("top_level", nats (facts.topLevel.map Prod.snd))]

/-- A parsed file with the kinds of the nodes at some offsets. -/
def Parsed.view (parsed : Parsed) (offsets : List Nat) : Document :=
  record [("language", parsed.language.document), ("root", string parsed.rootKind),
    ("has_errors", truth parsed.hasErrors),
    ("errors", each ByteRange.document parsed.errorRanges),
    ("kinds", each (fun offset => optionalString (parsed.kindAt offset)) offsets),
    ("debug", string parsed.summary)]

def ParseError.document (error : ParseError) : Document :=
  failure "UnsupportedLanguage" (some error.message)

def Candidate.document : Candidate → Document
  | file path => list [string "file", string path.display]
  | package directory => list [string "package", string directory.display]

def Fallback.document : Fallback → Document
  | unresolved reason => list [string "unresolved", string reason]
  | external name => list [string "external", string name]

/-- For a path, the candidates that would do, by their place in the plan. -/
def ModulePlan.matching (plan : ModulePlan) (path : Path) : List Nat :=
  (plan.all.zipIdx.filter fun (candidate, _) => candidate.accepts path).map Prod.snd

def ModulePlan.view (plan : ModulePlan) (fact : ImportFact) (probes : List Path) : Document :=
  record [("module", each Candidate.document plan.candidates),
    ("member", each Candidate.document plan.memberCandidates),
    ("fallback", plan.fallback.document),
    ("matches", each (fun path => nats (plan.matching path)) probes),
    ("display_name", string fact.displayName)]

end CodeGraph
