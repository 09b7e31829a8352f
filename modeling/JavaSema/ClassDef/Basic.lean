import JavaSema.JType.Equality
import JavaSema.JType.Subst
import JavaSema.Name

/-!
# Class definitions

What the analysis knows of a class: its place in the hierarchy, its type parameters and its members.
-/

namespace JavaSema

/-- The kind of a class. -/
inductive ClassKind where
  | ordinary
  | interface
  | enumeration
  | annotationType
deriving DecidableEq, Inhabited

namespace ClassKind

/-- All kinds. -/
def all : List ClassKind := [.ordinary, .interface, .enumeration, .annotationType]

/-- The word for a kind. -/
def word : ClassKind → String
  | ordinary => "class"
  | interface => "interface"
  | enumeration => "enum"
  | annotationType => "annotation"

end ClassKind

/-- Where a class is declared. -/
inductive Nesting where
  /-- Directly in a package. -/
  | topLevel
  /-- As a member of another class. -/
  | member (isStatic : Bool)
  /-- Inside a block. -/
  | inBlock
  /-- In the expression that creates an instance. -/
  | anonymous
deriving DecidableEq, Inhabited

/-- A type parameter of a class or of a method. -/
structure TypeParam where
  /-- The name of the type variable. -/
  name : String
  /-- The upper bounds, of which there is at least one when made by `of`. -/
  bounds : List JType
deriving Inhabited

namespace TypeParam

/-- A type parameter; without bounds it is bounded by the root class. -/
def of (name : String) (bounds : List JType) : TypeParam :=
  { name, bounds := if bounds.isEmpty then [.object] else bounds }

/-- The type variable that the parameter declares. -/
def asType (p : TypeParam) : JType := .typeVar p.name p.bounds

/-- The raw type that stands for the parameter where its class is used without type arguments. -/
def erasedBound (p : TypeParam) : JType :=
  match p.bounds with
  | [] => .object
  | b :: _ => b.erasure

end TypeParam

/-- A field of a class. -/
structure FieldDef where
  /-- The name of the field. -/
  name : String
  /-- The type of the field. -/
  type : JType
  /-- Whether the field belongs to the class and not to its instances. -/
  isStatic : Bool
deriving Inhabited

/-- A method or a constructor.  A constructor is named `<init>` and returns `void`. -/
structure MethodDef where
  /-- The name of the method. -/
  name : String
  /-- The type parameters that the method itself declares. -/
  typeParams : List TypeParam := []
  /-- The types of the parameters. -/
  params : List JType
  /-- The type of the result. -/
  returnType : JType
  /-- Whether the method belongs to the class and not to its instances. -/
  isStatic : Bool := false
  /-- Whether the last parameter takes any number of arguments. -/
  isVarargs : Bool := false
  /-- Whether the method has no body. -/
  isAbstract : Bool := false
  /-- Whether the method is a bridge made by a compiler. -/
  isBridge : Bool := false
  /-- Whether the method was made by a compiler. -/
  isSynthetic : Bool := false
deriving Inhabited

/-- The name under which constructors stand in a class. -/
def constructorName : String := "<init>"

namespace MethodDef

/-- The number of parameters. -/
def arity (m : MethodDef) : Nat := m.params.length

/-- The number of parameters before the one that takes any number of arguments. -/
def fixedArity (m : MethodDef) : Nat :=
  if m.isVarargs then m.params.length - 1 else m.params.length

/-- The type of an element of the parameter that takes any number of arguments. -/
def varargsComponent? (m : MethodDef) : Option JType :=
  if m.isVarargs then m.params.getLast?.bind JType.component? else none

/-- The method with type variables replaced in its parameters and its result. -/
def subst (m : MethodDef) (b : Bindings) : MethodDef :=
  { m with
    params := m.params.map (JType.subst b false)
    returnType := m.returnType.subst b false }

/-- Whether two lists of types have the same erasures. -/
def sameErasures : List JType → List JType → Bool
  | [], [] => true
  | s :: ss, t :: ts => s.erasure == t.erasure && sameErasures ss ts
  | _, _ => false

/-- Whether the parameters of two methods have the same erasures. -/
def sameErasedParams (m n : MethodDef) : Bool := sameErasures m.params n.params

theorem sameErasures_iff (ss ts : List JType) :
    sameErasures ss ts = true ↔ ss.map JType.erasure = ts.map JType.erasure := by
  induction ss generalizing ts with
  | nil => cases ts <;> simp [sameErasures]
  | cons s ss ih =>
    cases ts with
    | nil => simp [sameErasures]
    | cons t ts => simp [sameErasures, JType.erasure_beq, ih]

theorem sameErasedParams_refl (m : MethodDef) : m.sameErasedParams m = true :=
  (sameErasures_iff _ _).mpr rfl

theorem sameErasedParams_symm {m n : MethodDef} (h : m.sameErasedParams n = true) :
    n.sameErasedParams m = true :=
  (sameErasures_iff _ _).mpr ((sameErasures_iff _ _).mp h).symm

theorem sameErasedParams_trans {m n o : MethodDef} (h : m.sameErasedParams n = true)
    (h' : n.sameErasedParams o = true) : m.sameErasedParams o = true :=
  (sameErasures_iff _ _).mpr (((sameErasures_iff _ _).mp h).trans ((sameErasures_iff _ _).mp h'))

end MethodDef

/-- A class. -/
structure ClassDef where
  /-- The binary name. -/
  name : String
  /-- The kind of the class. -/
  kind : ClassKind
  /-- Where the class is declared. -/
  nesting : Nesting := .topLevel
  /-- The binary name of the class around it, if it is nested. -/
  enclosing : Option String := none
  /-- The type parameters. -/
  typeParams : List TypeParam := []
  /-- The superclass. -/
  superclass : Option JType := none
  /-- The interfaces that the class implements or extends. -/
  interfaces : List JType := []
  /-- The fields. -/
  fields : List FieldDef := []
  /-- The constructors. -/
  constructors : List MethodDef := []
  /-- The methods. -/
  methods : List MethodDef := []
  /-- The binary names of the member classes. -/
  memberClasses : List String := []
  /-- Whether the class cannot be instantiated. -/
  isAbstract : Bool := false
deriving Inhabited

namespace ClassDef

/-- A class without members.  Its superclass is the root class, unless it is an interface or the
root class itself. -/
def empty (name : String) (kind : ClassKind) : ClassDef :=
  { name
    kind
    superclass := if kind ≠ .interface ∧ name ≠ objectName then some .object else none
    isAbstract := kind = .interface }

/-- Whether the class is an interface, annotations included. -/
def isInterface (d : ClassDef) : Bool := d.kind = .interface || d.kind = .annotationType

/-- The simple name of the class. -/
def simpleName (d : ClassDef) : String := BinaryName.simple d.name

/-- The class as a type, with its own type parameters as arguments if it has any. -/
def asType (d : ClassDef) : JType :=
  if d.typeParams.isEmpty then .ofClass d.name
  else .generic d.name (d.typeParams.map TypeParam.asType)

/-- The direct supertypes, the superclass first.  The root class stands in for the superclass of an
interface. -/
def directSupertypes (d : ClassDef) : List JType :=
  (match d.superclass with
    | some s => [s]
    | none => if d.isInterface then [.object] else []) ++ d.interfaces

/-- What the instantiation `t` of the class binds its type parameters to.  Without type arguments, or
with a wrong number of them, nothing is bound. -/
def bindingsFor (d : ClassDef) (t : JType) : Bindings :=
  match t.args with
  | some args =>
    if args.length = d.typeParams.length then .ofList ((d.typeParams.map TypeParam.name).zip args)
    else []
  | none => []

/-- Each type parameter bound to its erased bound. -/
def rawBindings (d : ClassDef) : Bindings :=
  .ofList (d.typeParams.map fun p => (p.name, p.erasedBound))

/-- The first field of that name. -/
def field? (d : ClassDef) (name : String) : Option FieldDef :=
  d.fields.find? fun f => f.name == name

/-- The binary name of the first member class with that simple name. -/
def memberClass? (d : ClassDef) (simple : String) : Option String :=
  d.memberClasses.find? fun nested => Text.afterLast '$' nested == simple

end ClassDef

/-- Why a class cannot be had. -/
inductive LoadError where
  /-- There is no class of that name. -/
  | notFound (name : String)
  /-- The class file found under one name declares a class of another name. -/
  | incompatible (requested found : String)
  /-- The class file cannot be read. -/
  | malformed (name message : String)
deriving DecidableEq, Inhabited

/-- The text of the error. -/
def LoadError.message : LoadError → String
  | notFound name => "class not found: " ++ name
  | incompatible requested found =>
    "incompatible class change: requested " ++ requested ++ ", found " ++ found
  | malformed name message => "malformed class " ++ name ++ ": " ++ message

end JavaSema
