import JavaSema.Primitive

/-!
# Types

`JType` is a type as it appears in a program: the binary name of its erasure, with type arguments,
array dimensions, bounds and the identity of a type variable or wildcard.  This file holds the type,
its constructors and the operations that look at one level only.

## Implementation notes

A type variable and a wildcard keep their erasure in `name`, so that erased questions never look at
bounds.  `binding` and `member` record how a type was found and are not part of its identity.

A count of array dimensions has 32 bits.  `addDims` adds such counts and wraps around.  Substitution and
`arrayOf32` add in this way, which matters where both counts may be any.  `arrayOf` adds as numbers.  It
stands where the sum is far from the limit: for the brackets of a descriptor, for the array of the last
arguments of a call, and for the merge of arrays, whose elements get back the dimensions of the arrays.
-/

namespace JavaSema

/-- The binary name of the root class. -/
def objectName : String := "java.lang.Object"

/-- The binary name of the class of string literals. -/
def stringName : String := "java.lang.String"

/-- The binary name of the interface of types that can be cloned. -/
def cloneableName : String := "java.lang.Cloneable"

/-- The binary name of the interface of types that can be serialized. -/
def serializableName : String := "java.io.Serializable"

/-- How a type came to stand for a type variable. -/
inductive Binding where
  /-- Written in a declaration, or found by ordinary resolution. -/
  | declared
  /-- Given as an explicit type argument.  Later uses of the variable do not widen it. -/
  | explicit
  /-- Inferred from the use of an argument.  It may still widen. -/
  | inferred
deriving DecidableEq, Inhabited

/-- The member whose resolution produced a type. -/
inductive MemberRef where
  /-- The field `name` of the class `owner`. -/
  | field (owner name : String)
  /-- The method at `index` among the methods of the class `owner`. -/
  | method (owner : String) (index : Nat)
  /-- The constructor at `index` among the constructors of the class `owner`. -/
  | constructor (owner : String) (index : Nat)
deriving DecidableEq, Inhabited

/-- The binary name of the class that declares the member. -/
def MemberRef.owner : MemberRef → String
  | field owner _ => owner
  | method owner _ => owner
  | constructor owner _ => owner

/-- A type of the language, as seen by the analysis. -/
structure JType where
  /-- The binary name of the erasure, a primitive keyword, `void` or `null`. -/
  name : String
  /-- The type arguments; `none` for raw and for non-generic types. -/
  args : Option (List JType) := none
  /-- The number of array dimensions. -/
  dims : Nat := 0
  /-- The upper bounds of a type variable or wildcard. -/
  upper : List JType := []
  /-- The lower bounds of a wildcard. -/
  lower : List JType := []
  /-- The name of the type variable that the type stands for. -/
  var : Option String := none
  /-- Whether the type is a wildcard. -/
  wildcard : Bool := false
  /-- Whether the name could not be resolved. -/
  unresolved : Bool := false
  /-- How the type came to be bound to a type variable. -/
  binding : Binding := .declared
  /-- The member whose resolution produced the type. -/
  member : Option MemberRef := none
deriving Inhabited

namespace JType

/-! ### Constructors -/

/-- A class type without type arguments. -/
def ofClass (name : String) : JType := { name }

/-- A class type with a list of type arguments. -/
def generic (name : String) (args : List JType) : JType := { name, args := some args }

/-- A primitive type. -/
def primitive (p : Primitive) : JType := ofClass p.keyword

/-- The root class. -/
def object : JType := ofClass objectName

/-- The class of string literals. -/
def string : JType := ofClass stringName

/-- The type of a method that returns nothing. -/
def void : JType := ofClass "void"

/-- The type of the literal `null`. -/
def null : JType := ofClass "null"

/-- A name that could not be resolved.  It is compatible with nothing. -/
def unknown (name : String) : JType := { name, unresolved := true }

/-- The raw class with the same array dimensions. -/
def erasure (t : JType) : JType := { name := t.name, dims := t.dims, unresolved := t.unresolved }

/-- A type variable.  Without bounds it is bounded by the root class. -/
def typeVar (name : String) (bounds : List JType) : JType :=
  match bounds with
  | [] => { object with var := some name, upper := [object] }
  | b :: bs => { b.erasure with var := some name, upper := b :: bs }

/-- The wildcard without bounds. -/
def wild : JType := { object with wildcard := true, upper := [object] }

/-- The wildcard bounded above. -/
def wildUpper (bound : JType) : JType := { bound.erasure with wildcard := true, upper := [bound] }

/-- The wildcard bounded below. -/
def wildLower (bound : JType) : JType :=
  { object with wildcard := true, upper := [object], lower := [bound] }

/-! ### Classification -/

/-- Whether the type is a type variable. -/
def isTypeVar (t : JType) : Bool := t.var.isSome && !t.wildcard

/-- Whether the type is `void`. -/
def isVoid (t : JType) : Bool := t.dims == 0 && t.name == "void" && t.var.isNone

/-- Whether the type is that of the literal `null`. -/
def isNull (t : JType) : Bool := t.dims == 0 && t.name == "null" && t.var.isNone

/-- Whether the type is an array. -/
def isArray (t : JType) : Bool := t.dims > 0

/-- The primitive type that this type denotes. -/
def primitive? (t : JType) : Option Primitive :=
  if t.dims > 0 || t.var.isSome || t.wildcard then none else Primitive.ofKeyword? t.name

/-- Whether the type is primitive. -/
def isPrimitive (t : JType) : Bool := t.primitive?.isSome

/-- Whether the type is one that a reference can hold: a class, an array, a type variable, a
wildcard or `null`. -/
def isReference (t : JType) : Bool := !t.isPrimitive && !t.isVoid && !t.unresolved

/-- Whether the type is the root class. -/
def isObject (t : JType) : Bool :=
  t.dims == 0 && t.name == objectName && !t.wildcard && t.var.isNone

/-- Whether the type is the class of string literals. -/
def isString (t : JType) : Bool := t.dims == 0 && t.name == stringName && t.var.isNone

/-- The primitive type itself, or the one behind a wrapper class. -/
def unboxed? (t : JType) : Option Primitive :=
  match t.primitive? with
  | some p => some p
  | none => if t.dims > 0 || t.wildcard then none else Primitive.ofBoxName? t.name

/-! ### Operations -/

/-- The sum of two counts of array dimensions, in 32 bits. -/
def addDims (m n : Nat) : Nat := (m + n) % UInt32.size

/-- Nothing is lost of a sum that fits. -/
theorem addDims_of_lt {m n : Nat} (h : m + n < UInt32.size) : addDims m n = m + n := Nat.mod_eq_of_lt h

theorem addDims_assoc (k m n : Nat) : addDims (addDims k m) n = addDims k (addDims m n) := by
  simp only [addDims, Nat.mod_add_mod, Nat.add_mod_mod, Nat.add_assoc]

/-- The wrapper class of a primitive type.  Any other type stays as it is. -/
def boxed (t : JType) : JType :=
  match t.primitive? with
  | some p => { ofClass p.boxName with member := t.member, binding := t.binding }
  | none => t

/-- The type with `n` more array dimensions. -/
def arrayOf (t : JType) (n : Nat) : JType := { t with dims := t.dims + n, member := none }

/-- The type with `n` more array dimensions, counted in 32 bits. -/
def arrayOf32 (t : JType) (n : Nat) : JType := { t with dims := addDims t.dims n, member := none }

theorem arrayOf32_of_lt {t : JType} {n : Nat} (h : t.dims + n < UInt32.size) :
    t.arrayOf32 n = t.arrayOf n := by
  rw [arrayOf32, addDims_of_lt h, arrayOf]

/-- The type of an element of an array: one dimension less. -/
def component? (t : JType) : Option JType :=
  if t.dims > 0 then some { t with dims := t.dims - 1, member := none } else none

/-- The type without array dimensions. -/
def element (t : JType) : JType := { t with dims := 0, member := none }

/-- The type as produced by the resolution of `member`. -/
def withMember (t : JType) (member : MemberRef) : JType := { t with member := some member }

/-- The type without the member that produced it. -/
def withoutMember (t : JType) : JType := { t with member := none }

/-- The type marked with the way it was bound. -/
def withBinding (t : JType) (binding : Binding) : JType := { t with binding }

/-- The type with other type arguments. -/
def withArgs (t : JType) (args : Option (List JType)) : JType := { t with args }

/-- The type marked as standing for a type variable, which keeps the type as its bound. -/
def asTypeVar (t : JType) (name : String) : JType :=
  { t with
    var := some name
    wildcard := false
    upper := [{ t with var := none, wildcard := false, upper := [], lower := [], member := none }]
    lower := [] }

/-- The type of a value read through this type: the upper bound of a wildcard. -/
def readType (t : JType) : JType :=
  if t.wildcard then t.upper.headD object else t

/-- The type of a value written through this type: the lower bound of a wildcard if it has one,
else its upper bound. -/
def writeType (t : JType) : JType :=
  match t.wildcard, t.lower with
  | true, b :: _ => b
  | _, _ => t.readType

/-! ### Occurrences and size -/

mutual

/-- Whether a type variable occurs in the type. -/
def mentionsVar : JType → Bool
  | { args, upper, lower, var, wildcard, .. } =>
    (var.isSome && !wildcard) || mentionsVarOpt args || (wildcard && mentionsVarList upper)
      || mentionsVarList lower

/-- Whether a type variable occurs in one of the types. -/
def mentionsVarList : List JType → Bool
  | [] => false
  | t :: ts => t.mentionsVar || mentionsVarList ts

/-- Whether a type variable occurs in one of the type arguments. -/
def mentionsVarOpt : Option (List JType) → Bool
  | none => false
  | some ts => mentionsVarList ts

end

mutual

/-- The number of types that the type is built from, itself included. -/
def nodes : JType → Nat
  | { args, upper, lower, .. } => 1 + nodesOpt args + nodesList upper + nodesList lower

/-- The number of types that the types are built from. -/
def nodesList : List JType → Nat
  | [] => 0
  | t :: ts => t.nodes + nodesList ts

/-- The number of types that the type arguments are built from. -/
def nodesOpt : Option (List JType) → Nat
  | none => 0
  | some ts => nodesList ts

end

theorem nodes_eq (t : JType) :
    t.nodes = 1 + nodesOpt t.args + nodesList t.upper + nodesList t.lower := by
  cases t; rfl

theorem nodes_pos (t : JType) : 0 < t.nodes := by
  rw [nodes_eq]; omega

theorem nodes_le_of_mem {t : JType} {l : List JType} (h : t ∈ l) : t.nodes ≤ nodesList l := by
  induction l with
  | nil => cases h
  | cons s l ih =>
    rcases List.mem_cons.mp h with rfl | h
    · simp only [nodesList]; omega
    · have := ih h
      simp only [nodesList]; omega

theorem nodes_lt_of_mem_upper {t b : JType} (h : b ∈ t.upper) : b.nodes < t.nodes := by
  have := nodes_le_of_mem h
  rw [nodes_eq t]; omega

theorem nodes_lt_of_mem_lower {t b : JType} (h : b ∈ t.lower) : b.nodes < t.nodes := by
  have := nodes_le_of_mem h
  rw [nodes_eq t]; omega

theorem nodes_lt_of_mem_args {t b : JType} {l : List JType} (ha : t.args = some l) (h : b ∈ l) :
    b.nodes < t.nodes := by
  have := nodes_le_of_mem h
  rw [nodes_eq t, ha]; simp only [nodesOpt]; omega

theorem nodesList_append (l m : List JType) : nodesList (l ++ m) = nodesList l + nodesList m := by
  induction l with
  | nil => simp [nodesList]
  | cons t l ih => simp only [List.cons_append, nodesList, ih]; omega

theorem nodesList_upper_lt (t : JType) : nodesList t.upper < t.nodes := by
  rw [nodes_eq t]; omega

theorem nodesList_args_lt {t : JType} {l : List JType} (h : t.args = some l) :
    nodesList l < t.nodes := by
  rw [nodes_eq t, h]; simp only [nodesOpt]; omega

@[simp] theorem nodes_arrayOf32 (t : JType) (n : Nat) : (t.arrayOf32 n).nodes = t.nodes := by
  simp [nodes_eq, arrayOf32]

@[simp] theorem nodes_element (t : JType) : t.element.nodes = t.nodes := by
  simp [nodes_eq, element]

theorem nodes_ofClass (name : String) : (ofClass name).nodes = 1 := by
  simp [nodes_eq, ofClass, nodesOpt, nodesList]

theorem nodes_boxed_le (t : JType) : t.boxed.nodes ≤ t.nodes := by
  unfold boxed
  split
  · have := nodes_pos t
    rw [nodes_eq]
    simp only [ofClass, nodesOpt, nodesList]; omega
  · exact Nat.le_refl _

end JType

end JavaSema
