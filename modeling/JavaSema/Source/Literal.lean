import JavaSema.Number.Binary
import JavaSema.Source.Tree
import JavaSema.Text.Quote

/-!
# Literals

How values are written as literals.
-/

namespace JavaSema.Source.Literal

/-- Numbers from `10 ^ 16` on and below `10 ^ (-4)` are written with an exponent. -/
def floatStyle : Number.Style := { large := 16, small := -4 }

/-- The sign that stands before a negative number. -/
def sign (n : Int) : String := if n < 0 then "-" else ""

/-- The whole number that the last 32 bits of `n` denote. -/
def int (n : Int) : String := toString (n.bmod (Nat.pow 2 32))

/-- A number of 64 bits. -/
def long (n : Int) : String := toString n ++ "L"

/-- The number `mantissa / 10 ^ scale`, rounded to 64 bits. -/
def double (mantissa : Int) (scale : Nat) : String :=
  sign mantissa ++
    match Number.Format.double.round (mantissa.natAbs, Nat.pow 10 scale) with
    | some b => floatStyle.text (Number.Format.double.shortest b)
    | none => "inf"

/-- The number `mantissa / 10 ^ scale`, rounded to 64 and then to 32 bits. -/
def float (mantissa : Int) (scale : Nat) : String :=
  let narrowed := (Number.Format.double.round (mantissa.natAbs, Nat.pow 10 scale)).bind fun b =>
    Number.Format.single.round b.quotient
  sign mantissa
    ++ (match narrowed with
      | some b => floatStyle.text (Number.Format.single.shortest b)
      | none => "inf")
    ++ "f"

/-- A character. -/
def char (c : Char) : String := "'" ++ String.ofList [c] ++ "'"

/-- A text. -/
def string (s : String) : String := Text.quote s

/-- A truth value. -/
def boolean (b : Bool) : String := if b then "true" else "false"

end JavaSema.Source.Literal
