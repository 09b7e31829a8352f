/-!
# Binary floating-point numbers

Rounding of a quotient to a binary format, and the shortest decimal that reads back.  All arithmetic
is exact.
-/

namespace JavaSema.Number

/-- A binary format: the number of bits of the significand, and the exponents of the last place of
the smallest and the largest numbers. -/
structure Format where
  /-- The number of bits of the significand. -/
  precision : Nat
  /-- The exponent of the last place of the smallest numbers. -/
  minExponent : Int
  /-- The exponent of the last place of the largest numbers. -/
  maxExponent : Int
deriving DecidableEq, Inhabited

/-- The format of 64 bits. -/
def Format.double : Format := ⟨53, -1074, 971⟩

/-- The format of 32 bits. -/
def Format.single : Format := ⟨24, -149, 104⟩

/-- The number `significand * 2 ^ exponent`. -/
structure Binary where
  /-- The significand. -/
  significand : Nat
  /-- The exponent of two. -/
  exponent : Int
deriving DecidableEq, Inhabited

/-- The number `digits * 10 ^ exponent`. -/
structure Decimal where
  /-- The digits as a number. -/
  digits : Nat
  /-- The exponent of ten. -/
  exponent : Int
deriving DecidableEq, Inhabited

/-- A quotient times a power of the base, as a quotient. -/
def scale (base : Nat) (q : Nat × Nat) (e : Int) : Nat × Nat :=
  match e with
  | .ofNat n => (q.1 * Nat.pow base n, q.2)
  | .negSucc n => (q.1, q.2 * Nat.pow base (n + 1))

/-- The number as a quotient. -/
def Binary.quotient (b : Binary) : Nat × Nat := scale 2 (b.significand, 1) b.exponent

/-- The number as a quotient. -/
def Decimal.quotient (d : Decimal) : Nat × Nat := scale 10 (d.digits, 1) d.exponent

/-- Whether the first quotient is less than the second. -/
def less (p q : Nat × Nat) : Bool := p.1 * q.2 < q.1 * p.2

/-- The whole number nearest to the quotient; of two the even one. -/
def roundHalfEven (q : Nat × Nat) : Nat :=
  let n := q.1 / q.2
  let twice := 2 * (q.1 % q.2)
  if twice < q.2 then n else if q.2 < twice then n + 1 else if n % 2 = 0 then n else n + 1

/-- The number of the format nearest to the quotient, or `none` if it is too large. -/
def Format.round (f : Format) (q : Nat × Nat) : Option Binary :=
  if q.1 = 0 then some ⟨0, f.minExponent⟩
  else
    let rough : Int := (q.1.log2 : Int) - (q.2.log2 : Int) - (f.precision : Int)
    let full : Nat × Nat → Bool := fun r => !less r (Nat.pow 2 f.precision, 1)
    let e := max f.minExponent (if full (scale 2 q (-rough)) then rough + 1 else rough)
    let n := roundHalfEven (scale 2 q (-e))
    let b : Binary := if n = Nat.pow 2 f.precision then ⟨n / 2, e + 1⟩ else ⟨n, e⟩
    if f.maxExponent < b.exponent then none else some b

/-- The ends of the interval of numbers that round to `b`, each four times as large as it is. -/
def Format.interval (f : Format) (b : Binary) : (Nat × Nat) × (Nat × Nat) :=
  let isPower := b.significand = Nat.pow 2 (f.precision - 1) ∧ f.minExponent < b.exponent
  let lower := 4 * b.significand - (if isPower then 1 else 2)
  (scale 2 (lower, 4) b.exponent, scale 2 (4 * b.significand + 2, 4) b.exponent)

/-- Whether the decimal rounds to `b`. -/
def Format.readsAs (f : Format) (b : Binary) (d : Decimal) : Bool :=
  let (low, high) := f.interval b
  let q := d.quotient
  if b.significand % 2 = 0 then !less q low && !less high q else less low q && less q high

/-- The larger quotient less the smaller one. -/
def distance (p q : Nat × Nat) : Nat × Nat :=
  let a := p.1 * q.2
  let b := q.1 * p.2
  (if a < b then b - a else a - b, p.2 * q.2)

/-- The greatest power of ten that is not above the quotient, searched from `e` downwards. -/
def leadingExponent (q : Nat × Nat) : Nat → Int → Int
  | 0, e => e
  | fuel + 1, e => if less q (scale 10 (1, 1) e) then leadingExponent q fuel (e - 1) else e

/-- The nearer of the two decimals next to `b` on the grid `10 ^ k` that reads back. -/
def Format.onGrid (f : Format) (b : Binary) (k : Int) : Option Decimal :=
  let q := b.quotient
  let (num, den) := scale 10 q (-k)
  let below : Decimal := ⟨num / den, k⟩
  let above : Decimal := ⟨num / den + 1, k⟩
  match f.readsAs b below, f.readsAs b above with
  | true, true =>
    if less (distance q above.quotient) (distance q below.quotient) then some above else some below
  | true, false => some below
  | false, true => some above
  | false, false => none

/-- The first grid, from coarse to fine, that holds a decimal which reads back. -/
def Format.search (f : Format) (b : Binary) : Nat → Int → Decimal
  | 0, k => ⟨0, k⟩
  | fuel + 1, k =>
    match f.onGrid b k with
    | some d => d
    | none => f.search b fuel (k - 1)

/-- The decimal without zeros at its end. -/
def Decimal.trimZeros : Nat → Decimal → Decimal
  | 0, d => d
  | fuel + 1, d =>
    if d.digits ≠ 0 ∧ d.digits % 10 = 0 then trimZeros fuel ⟨d.digits / 10, d.exponent + 1⟩ else d

/-- The decimal with the fewest digits that rounds to `b`, and of these the nearest. -/
def Format.shortest (f : Format) (b : Binary) : Decimal :=
  if b.significand = 0 then ⟨0, 0⟩
  else
    let lead := leadingExponent b.quotient 800 400
    (f.search b 20 lead).trimZeros 20

/-- The shortest decimal for the number of 64 bits that is nearest to `mantissa * 10 ^ exponent`, or
`none` if that is too large.  Exponents that are out of reach are not computed with. -/
def nearestDouble? (mantissa : Nat) (exponent : Int) : Option Decimal :=
  let size : Int := exponent + (Nat.toDigits 10 mantissa).length
  if mantissa = 0 || size < -400 then some ⟨0, 0⟩
  else if 400 < size then none
  else
    (Format.double.round (scale 10 (mantissa, 1) exponent)).map Format.double.shortest

/-- How a floating-point number is written. -/
structure Style where
  /-- The first power of ten that is written with an exponent. -/
  large : Int
  /-- Numbers below this power of ten are written with an exponent. -/
  small : Int
deriving DecidableEq, Inhabited

/-- The text of a decimal without an exponent.  A whole number has no point. -/
def Decimal.plain (d : Decimal) : String :=
  match d.exponent with
  | .ofNat n => toString (d.digits * Nat.pow 10 n)
  | .negSucc n =>
    let places := n + 1
    let frac := Nat.toDigits 10 (d.digits % Nat.pow 10 places)
    toString (d.digits / Nat.pow 10 places) ++ "."
      ++ String.ofList (List.replicate (places - frac.length) '0' ++ frac)

/-- The text of a decimal without an exponent, with at least one digit after the point. -/
def Decimal.positional (d : Decimal) : String :=
  match d.exponent with
  | .ofNat _ => d.plain ++ ".0"
  | .negSucc _ => d.plain

/-- The text of a decimal with one digit before the point and an exponent. -/
def Decimal.scientific (d : Decimal) : String :=
  let cs := Nat.toDigits 10 d.digits
  let e := d.exponent + (cs.length : Int) - 1
  (match cs with
    | [] => ""
    | [c] => String.ofList [c]
    | c :: rest => String.ofList (c :: '.' :: rest)) ++ "e" ++ toString e

/-- The text of a decimal that has no zeros at its end. -/
def Style.text (s : Style) (d : Decimal) : String :=
  if d.digits = 0 then "0.0"
  else
    let q := d.quotient
    if less q (scale 10 (1, 1) s.small) || !less q (scale 10 (1, 1) s.large) then d.scientific
    else d.positional

end JavaSema.Number
