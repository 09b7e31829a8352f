/-!
# Primitive types

The eight primitive types, their wrapper classes, their descriptor letters and the widening order.
-/

namespace JavaSema

/-- A primitive type. -/
inductive Primitive where
  | boolean
  | byte
  | short
  | char
  | int
  | long
  | float
  | double
deriving DecidableEq, Inhabited

namespace Primitive

/-- All primitive types, in declaration order. -/
def all : List Primitive := [boolean, byte, short, char, int, long, float, double]

/-- The keyword that denotes the type. -/
def keyword : Primitive → String
  | boolean => "boolean"
  | byte => "byte"
  | short => "short"
  | char => "char"
  | int => "int"
  | long => "long"
  | float => "float"
  | double => "double"

/-- The type that a keyword denotes. -/
def ofKeyword? (text : String) : Option Primitive :=
  all.find? fun p => p.keyword == text

theorem ofKeyword?_eq_some_iff {text : String} {p : Primitive} :
    ofKeyword? text = some p ↔ text = p.keyword := by
  constructor
  · intro h
    have hp := List.find?_some h
    exact (beq_iff_eq.mp hp).symm
  · rintro rfl
    cases p <;> decide

/-- The binary name of the wrapper class. -/
def boxName : Primitive → String
  | boolean => "java.lang.Boolean"
  | byte => "java.lang.Byte"
  | short => "java.lang.Short"
  | char => "java.lang.Character"
  | int => "java.lang.Integer"
  | long => "java.lang.Long"
  | float => "java.lang.Float"
  | double => "java.lang.Double"

/-- The type whose wrapper class has this binary name. -/
def ofBoxName? (name : String) : Option Primitive :=
  all.find? fun p => p.boxName == name

/-- The letter that stands for the type in descriptors and signatures. -/
def letter : Primitive → Char
  | boolean => 'Z'
  | byte => 'B'
  | short => 'S'
  | char => 'C'
  | int => 'I'
  | long => 'J'
  | float => 'F'
  | double => 'D'

/-- The type that a descriptor letter stands for. -/
def ofLetter? : Char → Option Primitive
  | 'B' => some byte
  | 'C' => some char
  | 'D' => some double
  | 'F' => some float
  | 'I' => some int
  | 'J' => some long
  | 'S' => some short
  | 'Z' => some boolean
  | _ => none

theorem ofLetter?_eq_some_iff {c : Char} {p : Primitive} : ofLetter? c = some p ↔ c = p.letter := by
  constructor
  · intro h
    unfold ofLetter? at h
    split at h <;> cases h <;> rfl
  · rintro rfl
    cases p <;> rfl

/-- The position in the order byte, short, char, int, long, float, double. -/
def numericRank : Primitive → Option Nat
  | boolean => none
  | byte => some 0
  | short => some 1
  | char => some 2
  | int => some 3
  | long => some 4
  | float => some 5
  | double => some 6

/-- The position in the declaration order. -/
def ordinal : Primitive → Nat
  | boolean => 0
  | byte => 1
  | short => 2
  | char => 3
  | int => 4
  | long => 5
  | float => 6
  | double => 7

/-- Whether the type is numeric. -/
def isNumeric (p : Primitive) : Bool := p.numericRank.isSome

/-- The one that stands higher in the numeric order; the first if one of them is not numeric. -/
def wider (p q : Primitive) : Primitive :=
  match p.numericRank, q.numericRank with
  | some a, some b => if a < b then q else p
  | _, _ => p

/-- Whether there is an identity or widening conversion from `p` to `q`. -/
def widensTo (p q : Primitive) : Bool :=
  p = q ||
    match p with
    | byte => q = short || q = int || q = long || q = float || q = double
    | short | char => q = int || q = long || q = float || q = double
    | int => q = long || q = float || q = double
    | long => q = float || q = double
    | float => q = double
    | double | boolean => false

end Primitive

end JavaSema
