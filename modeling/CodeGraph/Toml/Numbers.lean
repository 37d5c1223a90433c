import CodeGraph.Toml.Strings

/-!
# TOML numbers and dates
-/

namespace CodeGraph.Toml

open Reader

/-! ### Whole numbers -/

def isDigit (char : Char) : Bool :=
  '0' ≤ char && char ≤ '9'

/-- One digit, or an underscore and a digit. -/
def nextDigit (wanted : Char → Bool) : Reader Char :=
  satisfy wanted <|> do
    char '_'
    satisfy wanted

def digits (wanted : Char → Bool) : Reader (List Char) := do
  return (← satisfy wanted) :: (← many (nextDigit wanted))

def valueOf (base : Nat) (digits : List Char) : Nat :=
  digits.foldl (fun value char => base * value + (hexDigit? char).getD 0) 0

def sign : Reader Bool :=
  (do char '-'; return true) <|> (do char '+'; return false) <|> return false

/-- The digits of a decimal number, which do not begin with a spare zero. -/
def decimalDigits : Reader (List Char) := do
  if (← peek?) = some '0' then
    char '0'
    return ['0']
  else digits isDigit

def limit : Int := 9223372036854775808

/-- Numbers are those of 64 bits. -/
def bounded (value : Int) : Reader Toml :=
  if -limit ≤ value ∧ value < limit then return .integer value else failure

def decimal : Reader Toml := do
  let negative ← sign
  let value : Int := valueOf 10 (← decimalDigits)
  bounded (if negative then -value else value)

def basedInteger (mark : String) (base : Nat) : Reader Toml := do
  literal mark
  let found ← digits fun char => (hexDigit? char).any (· < base)
  bounded (valueOf base found)

def integerValue : Reader Toml :=
  basedInteger "0x" 16 <|> basedInteger "0o" 8 <|> basedInteger "0b" 2 <|> decimal

/-! ### Numbers with a fraction -/

def fractionDigits : Reader (List Char) := do
  char '.'
  digits isDigit

def exponent : Reader Int := do
  let _ ← satisfy fun char => char = 'e' || char = 'E'
  let negative ← sign
  let value : Int := valueOf 10 (← digits isDigit)
  return if negative then -value else value

/-- Whether a decimal number is too large for a float of 64 bits: halfway from the largest float to
the next power of two, or beyond. -/
def overflows (mantissa : Nat) (exponent : Int) : Bool :=
  let magnitude := (toString mantissa).length + exponent
  let bound := Nat.pow 2 1024 - Nat.pow 2 970
  if mantissa = 0 ∨ magnitude < 300 then false
  else if 320 < magnitude then true
  else match exponent with
    | .ofNat power => bound ≤ mantissa * Nat.pow 10 power
    | .negSucc power => bound * Nat.pow 10 (power + 1) ≤ mantissa

def plainFloat : Reader Toml := do
  let negative ← sign
  let whole ← decimalDigits
  let fraction ← fractionDigits <|> return []
  let power ← if fraction.isEmpty then exponent else exponent <|> return 0
  if !negative && overflows (valueOf 10 (whole ++ fraction)) (power - fraction.length) then failure
  else return .float

def specialFloat : Reader Toml := do
  let _ ← sign
  literal "inf" <|> literal "nan"
  return .float

def floatValue : Reader Toml :=
  plainFloat <|> specialFloat

/-! ### Dates and times -/

/-- A number of exactly so many digits. -/
def fixedDigits (count : Nat) : Reader Nat := do
  let run := (← get).take count
  if run.length = count ∧ run.all isDigit then
    modify (List.drop count)
    return valueOf 10 run
  else failure

def between (low high : Nat) (value : Nat) : Reader Unit :=
  if low ≤ value ∧ value ≤ high then return () else failure

def isLeapYear (year : Nat) : Bool :=
  year % 4 = 0 && (year % 100 ≠ 0 || year % 400 = 0)

def daysIn (year month : Nat) : Nat :=
  if month = 2 then if isLeapYear year then 29 else 28
  else if month ∈ [4, 6, 9, 11] then 30 else 31

def calendarDate : Reader Unit := do
  let year ← fixedDigits 4
  char '-'
  let month ← fixedDigits 2
  between 1 12 month
  char '-'
  between 1 (daysIn year month) (← fixedDigits 2)

def hourAndMinute : Reader Unit := do
  between 0 23 (← fixedDigits 2)
  char ':'
  between 0 59 (← fixedDigits 2)

def secondFraction : Reader Unit := do
  char '.'
  let _ ← satisfy isDigit
  let _ ← takeWhile isDigit

def clockTime : Reader Unit := do
  hourAndMinute
  char ':'
  between 0 60 (← fixedDigits 2)
  optionally secondFraction

def timeOffset : Reader Unit := do
  let mark ← satisfy fun char => char ∈ ['Z', 'z', '+', '-']
  if mark = '+' ∨ mark = '-' then hourAndMinute

def timeOfDay : Reader Unit := do
  let _ ← satisfy fun char => char ∈ ['T', 't', ' ']
  clockTime
  optionally timeOffset

def datedTime : Reader Unit := do
  calendarDate
  optionally timeOfDay

def dateValue : Reader Toml := do
  datedTime <|> clockTime
  return .date

def numberValue : Reader Toml :=
  dateValue <|> floatValue <|> integerValue

end CodeGraph.Toml
