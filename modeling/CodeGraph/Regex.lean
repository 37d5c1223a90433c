/-!
# Regular expressions over bytes

An expression is read from left to right along a text. A match is followed as the set of places it
can have come to, so the work is bounded by the size of the expression times the length of the text,
whatever the choices in it. The written form is the usual one, and so is the way in which levels are
counted: a class, a repetition and a group are one each, and so is every row or choice of two or
more.
-/

namespace CodeGraph

/-- A test of one byte. -/
inductive ByteTest where
  | one (byte : UInt8)
  | any
  | oneOf (negated : Bool) (ranges : List (UInt8 × UInt8))
  deriving DecidableEq, Repr

/-- An expression, or part of a row of them. -/
inductive Regex where
  | once (test : ByteTest)
  | option (test : ByteTest)
  | many (test : ByteTest)
  | either (branches : List (List Regex))
  deriving Repr, Inhabited

/-- One level more for two or more. -/
def Regex.levels (count depth : Nat) : Nat :=
  if 1 < count then depth + 1 else depth

namespace ByteTest

def accepts : ByteTest → UInt8 → Bool
  | one wanted, byte => byte = wanted
  | any, _ => true
  | oneOf negated ranges, byte =>
    ranges.any (fun (low, high) => low ≤ byte && byte ≤ high) != negated

/-- Characters with a meaning in an expression. -/
def special : List Char :=
  ['\\', '.', '+', '*', '?', '(', ')', '|', '[', ']', '\x7b', '\x7d', '^', '$', '#', '&', '-', '~']

def byteText (byte : UInt8) : String :=
  let char := Char.ofNat byte.toNat
  if byte < 128 then (if char ∈ special then "\\" ++ char.toString else char.toString)
  else "\\x" ++ String.ofList (Nat.toDigits 16 byte.toNat)

def rangeText : UInt8 × UInt8 → String
  | (low, high) => if low = high then byteText low else byteText low ++ "-" ++ byteText high

def text : ByteTest → String
  | one byte => byteText byte
  | any => "."
  | oneOf negated ranges =>
    "[" ++ (if negated then "^" else "") ++ String.join (ranges.map rangeText) ++ "]"

def depth : ByteTest → Nat
  | one _ | any => 0
  | oneOf _ ranges => Regex.levels ranges.length 1

end ByteTest

namespace Regex

/-! ### Matching -/

/-- The places after one byte that passes a test. -/
def step (test : ByteTest) (bytes : List UInt8) (marks : List Bool) : List Bool :=
  false :: List.zipWith (fun mark byte => mark && test.accepts byte) marks bytes

/-- The places after any number of bytes that pass a test; `carried` is whether such bytes lead from
an earlier place to the first. -/
def spread (test : ByteTest) : Bool → List UInt8 → List Bool → List Bool
  | _, _, [] => []
  | carried, [], mark :: _ => [carried || mark]
  | carried, byte :: bytes, mark :: marks =>
    let here := carried || mark
    here :: spread test (here && test.accepts byte) bytes marks

def union (left right : List Bool) : List Bool :=
  List.zipWith (· || ·) left right

mutual

/-- The places in a text that an expression leads to from those that are marked. There is a mark
before every byte and one after the last. -/
def reach (bytes : List UInt8) : Regex → List Bool → List Bool
  | .once test, marks => step test bytes marks
  | .option test, marks => union marks (step test bytes marks)
  | .many test, marks => spread test false bytes marks
  | .either branches, marks => reachByEither bytes branches marks

def reachByEither (bytes : List UInt8) : List (List Regex) → List Bool → List Bool
  | [], marks => marks.map fun _ => false
  | branch :: rest, marks =>
    union (reachByAll bytes branch marks) (reachByEither bytes rest marks)

def reachByAll (bytes : List UInt8) : List Regex → List Bool → List Bool
  | [], marks => marks
  | regex :: rest, marks => reachByAll bytes rest (reach bytes regex marks)

end

/-- Whether a row of expressions matches a whole text. -/
def isMatch (row : List Regex) (bytes : List UInt8) : Bool :=
  (reachByAll bytes row (true :: bytes.map fun _ => false)).getLastD false

/-! ### Text -/

mutual

def text : Regex → String
  | .once test => test.text
  | .option test => test.text ++ "?"
  | .many test => test.text ++ "*"
  | .either branches => "(?:" ++ "|".intercalate (branchTexts branches) ++ ")"

def branchTexts : List (List Regex) → List String
  | [] => []
  | branch :: rest => rowText branch :: branchTexts rest

def rowText : List Regex → String
  | [] => ""
  | regex :: rest => text regex ++ rowText rest

end

/-- An expression for the whole of a text of bytes. -/
def wholeText (row : List Regex) : String :=
  "(?-u)^" ++ rowText row ++ "$"

/-! ### Levels -/

mutual

def depth : Regex → Nat
  | .once test => test.depth
  | .option test | .many test => test.depth + 1
  | .either branches => levels branches.length (branchDepth branches) + 1

def branchDepth : List (List Regex) → Nat
  | [] => 0
  | branch :: rest => max (levels branch.length (rowDepth branch)) (branchDepth rest)

/-- The depth of the deepest in a row. -/
def rowDepth : List Regex → Nat
  | [] => 0
  | regex :: rest => max (depth regex) (rowDepth rest)

end

/-- The most levels that an expression may have. -/
def deepest : Nat := 250

/-- Whether an expression for the whole of a text has too many levels; with its two ends it always
is a row. -/
def isTooDeep (row : List Regex) : Bool :=
  deepest < rowDepth row + 1

end Regex

end CodeGraph
