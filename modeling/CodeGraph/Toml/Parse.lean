import CodeGraph.Toml.Numbers
import CodeGraph.Toml.Tables

/-!
# Reading TOML

A document is a list of lines: keys with values, and headers that say in which table the keys after
them stand.
-/

namespace CodeGraph.Toml

open Reader

def booleanValue : Reader Toml :=
  (do literal "true"; return .boolean true) <|> (do literal "false"; return .boolean false)

def plainValue : Reader Toml := do
  match ← peek? with
  | some '"' | some '\'' => return .string (← anyString)
  | some 't' | some 'f' => booleanValue
  | _ => numberValue

/-- A key and its value on one line. -/
def keyValue (value : Reader Toml) : Reader (List String × Toml) := do
  let path ← key
  char '='
  blanks
  let found ← value
  blanks
  return (path, found)

def arrayOf (value : Reader Toml) : Reader Toml := do
  char '['
  let item : Reader Toml := do
    spacing
    let found ← value
    spacing
    return found
  let items ← (do
    let items ← separated item (char ',')
    optionally (char ',')
    return items) <|> return []
  spacing
  char ']'
  return .array items

def inlineTableOf (value : Reader Toml) : Reader Toml := do
  char '\x7b'
  let pairs ← separated (keyValue value) (char ',') <|> (do blanks; return [])
  char '\x7d'
  match tableOf? pairs with
  | some found => return found
  | none => failure

/-- A value in which arrays and tables are nested no deeper than `depth`. -/
def valueWithin : Nat → Reader Toml
  | 0 => plainValue
  | depth + 1 => do
    match ← peek? with
    | some '[' => arrayOf (valueWithin depth)
    | some '\x7b' => inlineTableOf (valueWithin depth)
    | _ => plainValue

inductive Line where
  | pair (path : List String) (value : Toml)
  | table (path : List String)
  | row (path : List String)
  | empty
  deriving Repr

def rowHeader : Reader Line := do
  literal "[["
  let path ← key
  literal "]]"
  return .row path

def tableHeader : Reader Line := do
  char '['
  let path ← key
  char ']'
  return .table path

def pairLine : Reader Line := do
  let (path, value) ← keyValue (valueWithin deepest)
  return .pair path value

def line : Reader Line := do
  blanks
  let found ← match ← peek? with
    | some '[' => rowHeader <|> tableHeader
    | some '#' | some '\n' | some '\r' => pure .empty
    | none => failure
    | some _ => pairLine
  lineEnd
  return found

/-- The table being filled, and everything so far. -/
structure Progress where
  header : List String := []
  entries : Entries := []

def addLine (progress : Progress) : Line → Option Progress
  | .empty => some progress
  | .pair path value => do
    let entries ← Entries.updateAt false (Entries.setKey path value) progress.header false
      progress.entries
    return { progress with entries }
  | .table path => do return ⟨path, ← Entries.addTable path progress.entries⟩
  | .row path => do return ⟨path, ← Entries.addRow path progress.entries⟩

def document : Reader (List Line) := do
  optionally (char '\ufeff')
  let lines ← many line
  blanks
  atEnd
  return lines

/-- The table that a text describes, unless it is no TOML. -/
def parse? (text : String) : Option Toml := do
  let lines ← document.run' text.toList
  let progress ← lines.foldlM addLine {}
  return .table (finishEntries progress.entries)

end CodeGraph.Toml
