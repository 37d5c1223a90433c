import CodeGraph.Number.Nearest
import CodeGraph.Number.Shortest

/-!
# Confidence

How sure an edge is, as a binary number of single precision. Every such number is a whole number of
times the smallest of them, and that many times is what is kept.
-/

namespace CodeGraph

/-- `units` times `2 ^ -149`, with a sign that zero has as well. -/
structure Confidence where
  negative : Bool
  units : Nat
  deriving DecidableEq, Repr

namespace Confidence

/-- The binary digits of single precision. -/
def precision : Nat := 24

/-- The places of the smallest unit, in binary and in decimal. -/
def places : Nat := 149

/-- The first number that is too large; everything above it is the same. -/
def beyond : Nat := Nat.pow 2 (places + 128)

def certain : Confidence := ⟨false, Nat.pow 2 places⟩

def ofTenths (tenths : Nat) : Confidence :=
  ⟨false, nearest precision (tenths * Nat.pow 2 places) 10⟩

/-- A decimal number with some places, which is read in double precision first. -/
def ofDecimal (negative : Bool) (digits decimals : Nat) : Confidence :=
  let double := nearest 53 (digits * Nat.pow 2 1074) (Nat.pow 10 decimals)
  ⟨negative, min (nearest precision double (Nat.pow 2 (1074 - places))) beyond⟩

/-- The number of units with the sign; both zeros are zero. -/
def value (confidence : Confidence) : Int :=
  if confidence.negative then -confidence.units else confidence.units

/-! ### Decimal form -/

/-- Four times `10 ^ 149` to a unit, so that every bound and every decimal place is a whole
number. Right above a power of two the numbers lie twice as far apart as right below it. -/
def vicinity (units : Nat) : Vicinity :=
  let exponent := units.log2 + 1 - precision
  let step := Nat.pow 2 exponent
  let significand := units / step
  let below := if exponent ≠ 0 ∧ significand = Nat.pow 2 (precision - 1) then step else 2 * step
  let scale := Nat.pow 10 places
  ⟨(4 * units - below) * scale, 4 * units * scale, (4 * units + 2 * step) * scale,
    significand % 2 = 0⟩

def dropZeros (digits : List Char) : List Char :=
  (digits.reverse.dropWhile (· = '0')).reverse

/-- The number that is `count` times `10 ^ -149`, with no zeros to spare. -/
def positional (count : Nat) : String :=
  let one := Nat.pow 10 places
  let whole := toString (count / one)
  match dropZeros ((toString (one + count % one)).toList.drop 1) with
  | [] => whole
  | decimals => whole ++ "." ++ String.ofList decimals

/-- The text without the sign, in the fewest digits that read back. No number reaches
`10 ^ 39`. -/
def magnitudeText (units : Nat) : String :=
  if units = 0 then "0"
  else if beyond ≤ units then "inf"
  else
    let unit := 4 * Nat.pow 2 places
    positional ((vicinity units).shortest unit (places + 39) / unit)

def text (confidence : Confidence) : String :=
  if confidence.negative then "-" ++ magnitudeText confidence.units
  else magnitudeText confidence.units

end Confidence

end CodeGraph
