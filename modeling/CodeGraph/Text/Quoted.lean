import CodeGraph.Text.Bytes
import CodeGraph.Text.Combining
import CodeGraph.Text.Unprintable

/-!
# Quoted text

Reading the inside of a string literal, and writing a text between double quotes.
-/

namespace CodeGraph.Text

def trimChars (chars : List Char) : List Char :=
  ((chars.dropWhile isBlank).reverse.dropWhile isBlank).reverse

def trim (text : String) : String :=
  String.ofList (trimChars text.toList)

def trimEnd (text : String) : String :=
  String.ofList (text.toList.reverse.dropWhile isBlank).reverse

/-- The characters between two of the same quote. -/
def inner? (quote : Char) (chars : List Char) : Option (List Char) :=
  match chars with
  | [] => none
  | first :: rest =>
    if first = quote ∧ rest.getLast? = some quote then some rest.dropLast else none

/-- The inside of a literal in double, single or back quotes; other text is only trimmed. -/
def unquote (text : String) : String :=
  let chars := trimChars text.toList
  String.ofList (((inner? '"' chars).or (inner? '\'' chars)).or (inner? '\x60' chars) |>.getD chars)

def hexDigits (number : Nat) : List Char :=
  Nat.toDigits 16 number

def escapeChar (char : Char) : List Char :=
  match char with
  | '"' => ['\\', '"']
  | '\\' => ['\\', '\\']
  | '\n' => ['\\', 'n']
  | '\r' => ['\\', 'r']
  | '\t' => ['\\', 't']
  | '\x00' => ['\\', '0']
  | char =>
    if isCombining char || isUnprintable char then
      ['\\', 'u', '\x7b'] ++ hexDigits char.toNat ++ ['\x7d']
    else [char]

/-- The text between double quotes, with quotes, backslashes and every character that would not
show by itself escaped. -/
def quote (text : String) : String :=
  String.ofList (['"'] ++ text.toList.flatMap escapeChar ++ ['"'])

def words (text : String) : List String :=
  (text.toList.splitBy fun left right => isBlank left == isBlank right)
    |>.filter (fun run => run.any (!isBlank ·))
    |>.map String.ofList

end CodeGraph.Text
