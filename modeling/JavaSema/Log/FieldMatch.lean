import JavaSema.Log.Pattern
import JavaSema.Number.Binary
import JavaSema.Text.Split

/-!
# Fields in log filters

A log filter may ask of spans that they have a field, or that the field has a value.  Values are
truth values, whole numbers of 64 bits with or without a sign, floating-point numbers of 64 bits,
and patterns; a text is read as the first of these that it can be, and written in the usual form of
it.
-/

namespace JavaSema

/-- The value that is asked of a field. -/
inductive FieldValue where
  /-- A truth value. -/
  | truth (b : Bool)
  /-- A whole number that is not negative. -/
  | natural (n : Nat)
  /-- A whole number with a sign. -/
  | integer (n : Int)
  /-- A floating-point number. -/
  | float (isNegative : Bool) (magnitude : Number.Decimal)
  /-- A floating-point number without a bound. -/
  | infinite (isNegative : Bool)
  /-- Not a number. -/
  | nan
  /-- A value that matches a pattern. -/
  | pattern (text : String)
deriving DecidableEq, Inhabited

namespace FieldValue

/-- The number that decimal digits stand for. -/
def decimal? (cs : List Char) : Option Nat :=
  if cs.isEmpty || !cs.all Char.isDigit then none
  else some (cs.foldl (fun n c => n * 10 + (c.toNat - '0'.toNat)) 0)

/-- Takes a sign off a text.  Without one the number is not negative. -/
def unsign : List Char → Bool × List Char
  | '-' :: s => (true, s)
  | '+' :: s => (false, s)
  | s => (false, s)

/-- The number of 64 bits that decimal digits stand for, with or without a plus sign before them. -/
def natural? (s : String) : Option Nat :=
  match unsign s.toList with
  | (true, _) => none
  | (false, cs) => (decimal? cs).filter (· < Nat.pow 2 64)

/-- The number of 64 bits that decimal digits with or without a sign stand for. -/
def integer? (s : String) : Option Int :=
  let (isNegative, cs) := unsign s.toList
  ((decimal? cs).map fun n => if isNegative then -(n : Int) else n).filter fun n =>
    -Int.pow 2 63 ≤ n ∧ n < Int.pow 2 63

/-- The exponent that a text without its mark stands for. -/
def exponent? (cs : List Char) : Option Int :=
  let (isNegative, cs) := unsign cs
  (decimal? cs).map fun n => if isNegative then -(n : Int) else n

/-- The floating-point number that digits with a point and an exponent stand for, either of which
may be absent. -/
def finite? (isNegative : Bool) (cs : List Char) : Option FieldValue := do
  let whole := cs.takeWhile Char.isDigit
  let (places, rest) :=
    match cs.dropWhile Char.isDigit with
    | '.' :: s => (s.takeWhile Char.isDigit, s.dropWhile Char.isDigit)
    | s => ([], s)
  let mantissa ← decimal? (whole ++ places)
  let exponent ←
    match rest with
    | [] => some 0
    | c :: s => if c = 'e' ∨ c = 'E' then exponent? s else none
  match Number.nearestDouble? mantissa (exponent - places.length) with
  | some d => return .float isNegative d
  | none => return .infinite isNegative

/-- The floating-point number that a text stands for.  Words for numbers may be written in any
case. -/
def float? (s : String) : Option FieldValue :=
  let (isNegative, cs) := unsign s.toList
  let word := (String.ofList cs).toLower
  if word = "inf" ∨ word = "infinity" then some (.infinite isNegative)
  else if word = "nan" then some .nan
  else finite? isNegative cs

/-- Reads a value. -/
def parse? (s : String) : Option FieldValue :=
  if s = "true" then some (.truth true)
  else if s = "false" then some (.truth false)
  else
    ((natural? s).map natural) <|> ((integer? s).map integer) <|> float? s
      <|> (if Pattern.isValid s then some (.pattern s) else none)

/-- The written form. -/
def text : FieldValue → String
  | .truth b => if b then "true" else "false"
  | .natural n => toString n
  | .integer n => toString n
  | .float isNegative d => (if isNegative then "-" else "") ++ d.plain
  | .infinite isNegative => (if isNegative then "-" else "") ++ "inf"
  | .nan => "NaN"
  | .pattern s => s

/-- Whether two values ask for the same.  Zero has no sign in this. -/
def same : FieldValue → FieldValue → Bool
  | .float m d, .float n e => d == e && (m == n || d.digits == 0)
  | v, w => v == w

end FieldValue

/-- What is asked of a field of a span: that it is there, or that it has a value. -/
structure FieldMatch where
  /-- The name of the field. -/
  name : String
  /-- The value. -/
  value : Option FieldValue
deriving DecidableEq, Inhabited

namespace FieldMatch

/-- Reads a name, or a name and a value with an equals sign between them.  What follows a second
equals sign does not count. -/
def parse? (s : String) : Option FieldMatch :=
  match Text.split '=' s with
  | name :: value :: _ => (FieldValue.parse? value).map fun v => ⟨name, some v⟩
  | _ => some ⟨s, none⟩

/-- The written form. -/
def text (f : FieldMatch) : String :=
  match f.value with
  | some v => f.name ++ "=" ++ v.text
  | none => f.name

/-- Whether the two ask for the same. -/
def same (f g : FieldMatch) : Bool :=
  f.name == g.name &&
    match f.value, g.value with
    | some v, some w => v.same w
    | none, none => true
    | _, _ => false

end FieldMatch

end JavaSema
