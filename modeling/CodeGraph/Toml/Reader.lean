/-!
# Reading characters

A reader takes what it wants from the front of a list of characters, or fails. What a reader that
failed had taken is there again for the next one.
-/

namespace CodeGraph.Toml

abbrev Reader := StateT (List Char) Option

namespace Reader

variable {α : Type}

def peek? : Reader (Option Char) := do
  return (← get).head?

def satisfy (wanted : Char → Bool) : Reader Char := do
  match ← get with
  | head :: rest => if wanted head then set rest; return head else failure
  | [] => failure

def char (wanted : Char) : Reader Unit := do
  let _ ← satisfy (· = wanted)

def takeWhile (wanted : Char → Bool) : Reader (List Char) :=
  modifyGet fun chars => (chars.takeWhile wanted, chars.dropWhile wanted)

/-- Takes exactly the given characters. -/
def literal (wanted : String) : Reader Unit := do
  let chars ← get
  if wanted.toList.isPrefixOf chars then set (chars.drop wanted.length) else failure

def manyWithin (reader : Reader α) : Nat → Reader (List α)
  | 0 => return []
  | steps + 1 => (do return (← reader) :: (← manyWithin reader steps)) <|> return []

/-- As often as the reader succeeds; each time it has to take something. -/
def many (reader : Reader α) : Reader (List α) := do
  manyWithin reader (← get).length

/-- One or more, with something between each two. -/
def separated (reader : Reader α) (between : Reader Unit) : Reader (List α) := do
  return (← reader) :: (← many (do between; reader))

def optionally (reader : Reader Unit) : Reader Unit :=
  reader <|> return ()

/-- Succeeds at the end only. -/
def atEnd : Reader Unit := do
  if (← get).isEmpty then return () else failure

end Reader

open Reader

/-! ### Blanks -/

def isBlankChar (char : Char) : Bool :=
  char = ' ' || char = '\t'

/-- Characters that may stand in comments and strings as they are: no control character but the
tab. -/
def isPlain (char : Char) : Bool :=
  char = '\t' || (' ' ≤ char && char ≤ '~') || '\x7f' < char

def blanks : Reader Unit := do
  let _ ← takeWhile isBlankChar

def newline : Reader Unit :=
  char '\n' <|> literal "\r\n"

def comment : Reader Unit := do
  char '#'
  let _ ← takeWhile isPlain

def lineEnd : Reader Unit := do
  blanks
  optionally comment
  newline <|> atEnd

def someBlanks : Reader Unit := do
  let _ ← satisfy isBlankChar
  blanks

/-- Blanks, comments and line breaks, where lines do not count. -/
def spacing : Reader Unit := do
  let _ ← many (someBlanks <|> newline <|> comment)

end CodeGraph.Toml
