import JavaSema.Number.Binary
import JavaSema.Toml.Text
import JavaSema.Toml.Value

/-!
# Numbers, dates and times in a configuration file

Digits may be grouped by underscores.  Whole numbers have 64 bits with a sign, and floating-point
numbers 64 bits.
-/

namespace JavaSema.Toml

/-- Digits, between which single underscores may stand. -/
def digits (isDigit : Char → Bool) : Scan (List Char) := do
  let first ← Scan.satisfy isDigit
  let rest ← Scan.many (do
    discard (Scan.optional (Scan.char '_'))
    Scan.satisfy isDigit)
  if ← Scan.sees (Scan.char '_') then Scan.refuse
  return first :: rest

/-- Decimal digits without a leading zero. -/
def wholeDigits : Scan (List Char) := do
  if ← Scan.sees (Scan.char '0') then Scan.exactly (· == '0') 1
  else digits Char.isDigit

/-- A sign, and whether it is a minus. -/
def sign : Scan Bool := do
  let s ← Scan.optional (Scan.satisfy fun c => c == '+' || c == '-')
  return s == some '-'

/-- A number of 64 bits with a sign. -/
def word64 (n : Int) : Scan Value :=
  if -Int.pow 2 63 ≤ n && n < Int.pow 2 63 then pure (.integer n) else Scan.refuse

/-- A whole number after a mark for its base. -/
def based (mark : Char) (base : Nat) : Scan Value := do
  Scan.word ['0', mark]
  let isDigit := fun c => isHexDigit c && hexDigit c < base
  word64 (number base (← digits isDigit))

/-- A whole number in decimal digits. -/
def wholeNumber : Scan Value := do
  let isNegative ← sign
  let n : Int := number 10 (← wholeDigits)
  word64 (if isNegative then -n else n)

/-- An exponent of ten. -/
def exponentPart : Scan Int := do
  discard (Scan.satisfy fun c => c == 'e' || c == 'E')
  let isNegative ← sign
  let n : Int := number 10 (← digits Char.isDigit)
  return if isNegative then -n else n

/-- A floating-point number.  A positive one may not be too large. -/
def floatNumber : Scan Value := do
  let isNegative ← sign
  let minus := if isNegative then "-" else ""
  (do Scan.word ['i', 'n', 'f']; return .float (minus ++ "inf"))
    <|> (do Scan.word ['n', 'a', 'n']; return .float "NaN")
    <|> do
      let whole ← wholeDigits
      let fraction ← Scan.optional (do Scan.char '.'; digits Char.isDigit)
      let exponent ← Scan.optional exponentPart
      if fraction.isNone && exponent.isNone then Scan.refuse
      let decimals := fraction.getD []
      let mantissa := number 10 (whole ++ decimals)
      match Number.nearestDouble? mantissa (exponent.getD 0 - decimals.length) with
      | some d => return .float (minus ++ d.positional)
      | none => if isNegative then return .float "-inf" else Scan.refuse

/-! ### Dates and times -/

/-- A number of so many digits between two bounds. -/
def clockPart (width low high : Nat) : Scan Nat := do
  let n := number 10 (← Scan.exactly Char.isDigit width)
  if low ≤ n && n ≤ high then return n else Scan.refuse

/-- The number of days of a month. -/
def daysOfMonth (year month : Nat) : Nat :=
  if month = 2 then
    if year % 4 = 0 && (year % 100 ≠ 0 || year % 400 = 0) then 29 else 28
  else if month = 4 || month = 6 || month = 9 || month = 11 then 30
  else 31

/-- A day of a year. -/
def day : Scan Unit := do
  let year ← clockPart 4 0 9999
  Scan.char '-'
  let month ← clockPart 2 1 12
  Scan.char '-'
  discard (clockPart 2 1 (daysOfMonth year month))

/-- A time of day. -/
def timeOfDay : Scan Unit := do
  discard (clockPart 2 0 23)
  Scan.char ':'
  discard (clockPart 2 0 59)
  Scan.char ':'
  discard (clockPart 2 0 60)
  discard (Scan.optional (do Scan.char '.'; Scan.span1 Char.isDigit))

/-- The distance from the time of the prime meridian. -/
def zone : Scan Unit :=
  discard (Scan.satisfy fun c => c == 'Z' || c == 'z') <|> do
    discard (Scan.satisfy fun c => c == '+' || c == '-')
    discard (clockPart 2 0 23)
    Scan.char ':'
    discard (clockPart 2 0 59)

/-- A date, a time, or both. -/
def dateOrTime : Scan Value := do
  (do
      day
      discard (Scan.optional (do
        discard (Scan.satisfy fun c => c == 'T' || c == 't' || c == ' ')
        timeOfDay
        Scan.optional zone)))
    <|> timeOfDay
  return .date

end JavaSema.Toml
