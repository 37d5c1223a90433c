import CodeGraph.Facts.Extract

/-!
# Parsed files

A text with the tree a parser made of it. Trees are replaced when the text changes, never edited.
-/

namespace CodeGraph

structure Parsed where
  language : Language
  text : String
  tree : Tree

inductive ParseError where
  | unsupported (language : Language)
  deriving DecidableEq, Repr

def ParseError.message : ParseError → String
  | unsupported language => "no grammar for " ++ language.name ++ " files"

namespace Parsed

def parse (parser : Parser) (path : Path) (language : Language) (text : String) :
    Except ParseError Parsed :=
  match language.grammar? path with
  | some grammar => .ok { language, text, tree := parser grammar text }
  | none => .error (.unsupported language)

def rootKind (parsed : Parsed) : String :=
  parsed.tree.kind

def hasErrors (parsed : Parsed) : Bool :=
  parsed.tree.hasError

def errorRanges (parsed : Parsed) : List ByteRange :=
  parsed.tree.errorRanges

def kindAt (parsed : Parsed) (offset : Nat) : Option String :=
  parsed.tree.kindAt parsed.text offset

def facts (parsed : Parsed) : FileFacts :=
  FileFacts.extract parsed.language parsed.text parsed.tree

def summary (parsed : Parsed) : String :=
  "Cst \x7b language: " ++ parsed.language.title ++ ", root: " ++ Text.quote parsed.rootKind ++
    ", bytes: " ++ toString (Text.size parsed.text) ++ " \x7d"

end Parsed

/-- Parsers that work side by side; there is always one. -/
structure ParserPool where
  workers : Nat

namespace ParserPool

def ofSize (requested : Nat) : ParserPool :=
  ⟨max requested 1⟩

def summary (pool : ParserPool) : String :=
  "ParserPool \x7b workers: " ++ toString pool.workers ++ " \x7d"

end ParserPool

end CodeGraph
