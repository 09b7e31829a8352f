import JavaSema.ClassDef.Generic

/-!
# Classes in outline

A class written down by its signature and those of its members.
-/

namespace JavaSema

open ClassFile

/-- A field by its descriptor and, if it is generic, its signature. -/
structure FieldOutline where
  /-- The name of the field. -/
  name : String
  /-- The access flags. -/
  flags : UInt16
  /-- The descriptor. -/
  descriptor : String
  /-- The signature. -/
  signature : Option String := none
deriving Inhabited

/-- A method by its signature. -/
structure MethodOutline where
  /-- The name of the method. -/
  name : String
  /-- The access flags. -/
  flags : UInt16
  /-- The signature. -/
  signature : String
deriving Inhabited

/-- A class by its signature and its members. -/
structure ClassOutline where
  /-- The binary name. -/
  name : String
  /-- The kind of the class. -/
  kind : ClassKind := .ordinary
  /-- The class signature, if it has one. -/
  signature : Option String := none
  /-- Whether the class has no superclass. -/
  isRoot : Bool := false
  /-- Whether the class is abstract, if that is said. -/
  isAbstract : Option Bool := none
  /-- Where the class is declared. -/
  nesting : Nesting := .topLevel
  /-- The binary name of the class around it. -/
  enclosing : Option String := none
  /-- The fields. -/
  fields : List FieldOutline := []
  /-- The methods. -/
  methods : List MethodOutline := []
  /-- The constructors. -/
  constructors : List MethodOutline := []
  /-- The binary names of the member classes. -/
  memberClasses : List String := []
deriving Inhabited

/-- The method that an outline denotes. -/
def MethodOutline.define (m : MethodOutline) (scope : TypeVarScope) : Except Error MethodDef := do
  return .ofSignature m.name m.flags (← MethodSig.parse m.signature) scope

/-- The field that an outline denotes. -/
def FieldOutline.define (f : FieldOutline) (scope : TypeVarScope) : Except Error FieldDef :=
  FieldDef.parse f.name f.flags f.descriptor f.signature scope

namespace ClassOutline

/-- The class without members, and the type variables that its members see. -/
def header (o : ClassOutline) : Except Error (ClassDef × TypeVarScope) := do
  let d := ClassDef.empty o.name o.kind
  let (d, scope) ←
    match o.signature with
    | none => pure (d, {})
    | some text => do
      let h ← ClassHeader.parse text
      let superclass := if d.isInterface then d.superclass else some h.superclass
      pure ({ d with typeParams := h.typeParams, interfaces := h.interfaces, superclass }, h.scope)
  return (
    { d with
      superclass := if o.isRoot then none else d.superclass
      isAbstract := o.isAbstract.getD d.isAbstract
      nesting := o.nesting
      enclosing := o.enclosing
      memberClasses := o.memberClasses },
    scope)

/-- The class that an outline denotes. -/
def define (o : ClassOutline) : Except Error ClassDef := do
  let (d, scope) ← o.header
  let fields ← o.fields.mapM fun f => f.define scope
  let methods ← o.methods.mapM fun m => m.define scope
  let constructors ← o.constructors.mapM fun m => m.define scope
  return { d with fields, methods, constructors }

end ClassOutline

end JavaSema
