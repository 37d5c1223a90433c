import CodeGraph.Toml.Basic
import CodeGraph.Toml.Reader

/-!
# TOML strings

Strings on one line or several, with escapes or without. A line break right after three opening
quotes is not part of the string, and up to two quotes may stand right before the three closing
ones.
-/

namespace CodeGraph.Toml

open Reader

def hexDigit? (char : Char) : Option Nat :=
  if '0' ≤ char ∧ char ≤ '9' then some (char.toNat - 48)
  else if 'a' ≤ char ∧ char ≤ 'f' then some (char.toNat - 87)
  else if 'A' ≤ char ∧ char ≤ 'F' then some (char.toNat - 55)
  else none

def hexNumber : Nat → Nat → Reader Nat
  | 0, value => return value
  | digits + 1, value => do
    let char ← satisfy fun char => (hexDigit? char).isSome
    hexNumber digits (16 * value + (hexDigit? char).getD 0)

/-- The character of a number, which has to be one. -/
def unicode (digits : Nat) : Reader Char := do
  let value ← hexNumber digits 0
  if value.isValidChar then return Char.ofNat value else failure

/-- What follows a backslash. -/
def escaped : Reader Char := do
  match ← satisfy fun _ => true with
  | 'b' => return '\x08'
  | 't' => return '\t'
  | 'n' => return '\n'
  | 'f' => return '\x0c'
  | 'r' => return '\r'
  | '"' => return '"'
  | '\\' => return '\\'
  | 'u' => unicode 4
  | 'U' => unicode 8
  | _ => failure

def escape : Reader Char := do
  char '\\'
  escaped

/-- A backslash at the end of a line takes the blanks and line breaks after it away. -/
def lineJoin : Reader Unit := do
  char '\\'
  blanks
  newline
  let _ ← many (someBlanks <|> newline)

def plainExcept (stops : List Char) : Reader Char :=
  satisfy fun char => isPlain char && char ∉ stops

def basicString : Reader String := do
  char '"'
  let chars ← many (escape <|> plainExcept ['"', '\\'])
  char '"'
  return String.ofList chars

def literalString : Reader String := do
  char '\''
  let chars ← many (plainExcept ['\''])
  char '\''
  return String.ofList chars

/-- One or two quotes, as long as they do not belong to the closing ones. -/
def innerQuotes (quote : Char) : Reader (List Char) := do
  let run ← takeWhile (· = quote)
  if 1 ≤ run.length ∧ run.length ≤ 2 then return run else failure

/-- The three closing quotes, with the quotes before them that are part of the string. -/
def closingQuotes (quote : Char) : Reader (List Char) := do
  let run := ((← get).takeWhile (· = quote)).take 5
  if run.length < 3 then failure
  modify (List.drop run.length)
  return run.drop 3

def lineBreak : Reader (List Char) := do
  newline
  return ['\n']

def multilineBasic : Reader String := do
  literal "\"\"\""
  optionally newline
  let join : Reader (List Char) := do
    lineJoin
    return []
  let single : Reader (List Char) := do
    return [← escape <|> plainExcept ['"', '\\']]
  let parts ← many (join <|> single <|> lineBreak <|> innerQuotes '"')
  return String.ofList (parts.flatten ++ (← closingQuotes '"'))

def multilineLiteral : Reader String := do
  literal "'''"
  optionally newline
  let single : Reader (List Char) := do
    return [← plainExcept ['\'']]
  let parts ← many (single <|> lineBreak <|> innerQuotes '\'')
  return String.ofList (parts.flatten ++ (← closingQuotes '\''))

def anyString : Reader String :=
  multilineBasic <|> multilineLiteral <|> basicString <|> literalString

/-! ### Keys -/

def isBareKeyChar (char : Char) : Bool :=
  char.isAlphanum || char = '_' || char = '-'

def bareKey : Reader String := do
  let chars ← takeWhile isBareKeyChar
  if chars.isEmpty then failure else return String.ofList chars

def simpleKey : Reader String := do
  blanks
  let key ← basicString <|> literalString <|> bareKey
  blanks
  return key

/-- A key, with the tables that lead to it when it is dotted. -/
def key : Reader (List String) := do
  let path ← separated simpleKey (char '.')
  if path.length ≤ deepest then return path else failure

end CodeGraph.Toml
