/-!
# Byte offsets into text

Positions in a file are offsets into its UTF-8 form. A text can be cut at an offset exactly when the
offset falls between two characters, so slices and splices are partial.
-/

namespace CodeGraph.Text

def byteLength : List Char → Nat
  | [] => 0
  | char :: chars => char.utf8Size + byteLength chars

/-- The text before and after a byte offset, when the offset falls between two characters. -/
def cut? : List Char → Nat → Option (List Char × List Char)
  | chars, 0 => some ([], chars)
  | [], _ + 1 => none
  | char :: chars, offset + 1 =>
    if char.utf8Size ≤ offset + 1 then
      (cut? chars (offset + 1 - char.utf8Size)).map fun (head, tail) => (char :: head, tail)
    else none

theorem cut?_zero (chars : List Char) : cut? chars 0 = some ([], chars) := by
  cases chars <;> rfl

/-- Nothing is lost by a cut, and the first part has the asked length. -/
theorem append_eq_of_cut? {chars head tail : List Char} {offset : Nat}
    (hcut : cut? chars offset = some (head, tail)) :
    head ++ tail = chars ∧ byteLength head = offset := by
  induction chars generalizing offset head tail with
  | nil =>
    cases offset with
    | zero => simp_all [cut?, byteLength]
    | succ offset => simp [cut?] at hcut
  | cons char chars ih =>
    cases offset with
    | zero =>
      simp only [cut?, Option.some.injEq, Prod.mk.injEq] at hcut
      obtain ⟨rfl, rfl⟩ := hcut
      simp [byteLength]
    | succ offset =>
      simp only [cut?] at hcut
      split at hcut
      · rename_i hfits
        obtain ⟨⟨innerHead, innerTail⟩, hinner, heq⟩ := Option.map_eq_some_iff.1 hcut
        simp only [Prod.mk.injEq] at heq
        obtain ⟨rfl, rfl⟩ := heq
        obtain ⟨happend, hlength⟩ := ih hinner
        refine ⟨by simp [happend], ?_⟩
        simp only [byteLength]
        omega
      · simp at hcut

/-- A text can be cut after any of its leading parts. -/
theorem cut?_append (head tail : List Char) :
    cut? (head ++ tail) (byteLength head) = some (head, tail) := by
  induction head with
  | nil => simpa [byteLength] using cut?_zero tail
  | cons char head ih =>
    have hpos := char.utf8Size_pos
    obtain ⟨rest, hrest⟩ : ∃ rest, byteLength (char :: head) = rest + 1 :=
      ⟨byteLength (char :: head) - 1, by simp [byteLength]; omega⟩
    have hsum : rest + 1 = char.utf8Size + byteLength head := by
      rw [← hrest]; simp [byteLength]
    rw [hrest, List.cons_append, cut?, if_pos (by omega)]
    rw [show rest + 1 - char.utf8Size = byteLength head by omega, ih]
    rfl

def size (text : String) : Nat :=
  byteLength text.toList

def bytes (text : String) : List UInt8 :=
  text.toList.flatMap String.utf8EncodeChar

def isBoundary (text : String) (offset : Nat) : Bool :=
  (cut? text.toList offset).isSome

/-- The bytes from `start` up to `stop`; none when they are not a run of whole characters. -/
def slice? (text : String) (start stop : Nat) : Option String :=
  if start ≤ stop then do
    let (_, rest) ← cut? text.toList start
    let (middle, _) ← cut? rest (stop - start)
    return String.ofList middle
  else none

/-- The text with the bytes from `start` up to `stop` replaced. -/
def splice? (text : String) (start stop : Nat) (replacement : String) : Option String :=
  if start ≤ stop then do
    let (before, rest) ← cut? text.toList start
    let (_, after) ← cut? rest (stop - start)
    return String.ofList (before ++ replacement.toList ++ after)
  else none

/-- The parts between separators; one more than there are separators. -/
def splitChars (separator : Char) : List Char → List (List Char)
  | [] => [[]]
  | char :: chars =>
    if char = separator then [] :: splitChars separator chars
    else match splitChars separator chars with
      | [] => [[char]]
      | part :: parts => (char :: part) :: parts

def split (separator : Char) (text : String) : List String :=
  (splitChars separator text.toList).map String.ofList

def join (separator : String) : List String → String
  | [] => ""
  | [part] => part
  | part :: parts => part ++ separator ++ join separator parts

/-- What follows `head`, when the text begins with it. -/
def dropHead? (head text : String) : Option String :=
  if head.toList.isPrefixOf text.toList then
    some (String.ofList (text.toList.drop head.toList.length))
  else none

/-- What precedes `tail`, when the text ends with it. -/
def dropTail? (tail text : String) : Option String :=
  if tail.toList.isSuffixOf text.toList then
    some (String.ofList (text.toList.take (text.toList.length - tail.toList.length)))
  else none

def startsWith (head text : String) : Bool :=
  head.toList.isPrefixOf text.toList

def endsWith (tail text : String) : Bool :=
  tail.toList.isSuffixOf text.toList

/-- The parts before and after the first occurrence of the separator. -/
def splitOnce? (separator : Char) (text : String) : Option (String × String) :=
  if separator ∈ text.toList then
    some (String.ofList (text.toList.takeWhile (· ≠ separator)),
      String.ofList ((text.toList.dropWhile (· ≠ separator)).drop 1))
  else none

/-- The parts before and after the last occurrence of the separator. -/
def splitLast? (separator : Char) (text : String) : Option (String × String) :=
  if separator ∈ text.toList then
    some (String.ofList ((text.toList.reverse.dropWhile (· ≠ separator)).drop 1).reverse,
      String.ofList (text.toList.reverse.takeWhile (· ≠ separator)).reverse)
  else none

/-- Order of the UTF-8 bytes, which is the order of the code points. -/
def compare (left right : String) : Ordering :=
  compareOfLessAndEq left right

end CodeGraph.Text
