/-!
# Reading bytes as text

Bytes that are meant to be UTF-8, with a replacement character for every longest run that begins a
character and does not finish it.
-/

namespace CodeGraph.Text

/-- How many bytes follow a leading byte, and between which bounds the first of them lies. -/
def followers? (lead : Nat) : Option (Nat × Nat × Nat) :=
  if lead < 0x80 then some (0, 0, 0)
  else if lead < 0xC2 then none
  else if lead < 0xE0 then some (1, 0x80, 0xBF)
  else if lead = 0xE0 then some (2, 0xA0, 0xBF)
  else if lead = 0xED then some (2, 0x80, 0x9F)
  else if lead < 0xF0 then some (2, 0x80, 0xBF)
  else if lead = 0xF0 then some (3, 0x90, 0xBF)
  else if lead < 0xF4 then some (3, 0x80, 0xBF)
  else if lead = 0xF4 then some (3, 0x80, 0x8F)
  else none

def isContinuation (byte : Nat) : Bool :=
  0x80 ≤ byte && byte ≤ 0xBF

/-- The bytes after a leading byte that belong to its character. -/
def sequenceTail (count low high : Nat) : List Nat → List Nat
  | [] => []
  | byte :: rest =>
    if 0 < count && low ≤ byte && byte ≤ high then
      byte :: (rest.takeWhile isContinuation).take (count - 1)
    else []

/-- The bits of a leading byte that count. -/
def leadBits (count lead : Nat) : Nat :=
  match count with
  | 0 => lead
  | 1 => lead % 0x20
  | 2 => lead % 0x10
  | _ => lead % 0x08

def sequenceChar (count lead : Nat) (tail : List Nat) : Char :=
  Char.ofNat (tail.foldl (fun value byte => value * 0x40 + byte % 0x40) (leadBits count lead))

/-- Every step takes at least one byte. -/
def lossyChars : Nat → List Nat → List Char
  | 0, _ => []
  | _, [] => []
  | steps + 1, lead :: rest =>
    match followers? lead with
    | none => '\ufffd' :: lossyChars steps rest
    | some (count, low, high) =>
      let tail := sequenceTail count low high rest
      let char := if tail.length = count then sequenceChar count lead tail else '\ufffd'
      char :: lossyChars steps (rest.drop tail.length)

def lossy (bytes : ByteArray) : String :=
  let values := bytes.toList.map UInt8.toNat
  String.ofList (lossyChars values.length values)

end CodeGraph.Text
