/-!
# White space

The characters with the Unicode property `White_Space`, as closed ranges of code points, and
trimming by that property.
-/

namespace JavaSema.Text

/-- Closed ranges of code points with the property `White_Space`, ascending and apart. -/
def blankRanges : List (Nat × Nat) :=
  [(0x09, 0x0D), (0x20, 0x20), (0x85, 0x85), (0xA0, 0xA0), (0x1680, 0x1680), (0x2000, 0x200A),
   (0x2028, 0x2029), (0x202F, 0x202F), (0x205F, 0x205F), (0x3000, 0x3000)]

/-- Whether the character is white space. -/
def isBlank (c : Char) : Bool :=
  blankRanges.any fun r => r.1 ≤ c.toNat && c.toNat ≤ r.2

/-- The text without leading white space. -/
def trimStartChars (s : List Char) : List Char :=
  s.dropWhile isBlank

/-- The text without white space at either end. -/
def trimChars (s : List Char) : List Char :=
  (trimStartChars (trimStartChars s).reverse).reverse

/-- The text without white space at either end. -/
def trim (s : String) : String :=
  String.ofList (trimChars s.toList)

end JavaSema.Text
