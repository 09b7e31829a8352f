import JavaSema.ClassDef.Basic
import JavaSema.ClassFile.Access
import JavaSema.ClassFile.Descriptor
import JavaSema.ClassFile.Signature

/-!
# Definitions from descriptors and signatures

Types, class headers, methods and fields as class files describe them.
-/

namespace JavaSema

open ClassFile

/-- The type variables in scope, innermost last. -/
structure TypeVarScope where
  /-- The type parameters in scope. -/
  params : List TypeParam := []
deriving Inhabited

/-- The innermost type parameter of that name. -/
def TypeVarScope.find? (scope : TypeVarScope) (name : String) : Option TypeParam :=
  scope.params.reverse.find? fun p => p.name == name

/-- The type variable of that name.  One that is not in scope is bounded by the root class. -/
def TypeVarScope.typeVar (scope : TypeVarScope) (name : String) : JType :=
  match scope.find? name with
  | some p => p.asType
  | none => .typeVar name []

/-- The type that a field descriptor denotes. -/
def JType.ofDescriptor : FieldType → JType
  | .base p => .primitive p
  | .object internal => .ofClass (Text.replaceChar '/' '.' internal)
  | .array t => (JType.ofDescriptor t).arrayOf 1

/-- The type of a result that a method descriptor denotes. -/
def JType.ofReturnDescriptor : ReturnType → JType
  | .void => .void
  | .value t => .ofDescriptor t

mutual

/-- The type that a signature denotes. -/
def JType.ofSignature (scope : TypeVarScope) : TypeSig → JType
  | .base p => .primitive p
  | .ofClass c => JType.ofClassSignature scope c
  | .var name => scope.typeVar name
  | .array t => (JType.ofSignature scope t).arrayOf 1

/-- The class type that a signature denotes.  Only the innermost class keeps its type arguments. -/
def JType.ofClassSignature (scope : TypeVarScope) : ClassTypeSig → JType
  | .mk package segments =>
    match JType.lastArguments scope segments with
    | [] => .ofClass (ClassTypeSig.mk package segments).binaryName
    | a :: as => .generic (ClassTypeSig.mk package segments).binaryName (a :: as)

/-- The type arguments of the innermost class. -/
def JType.lastArguments (scope : TypeVarScope) : List SegmentSig → List JType
  | [] => []
  | [.mk _ args] => JType.ofArguments scope args
  | _ :: s :: rest => JType.lastArguments scope (s :: rest)

/-- The types that type arguments denote. -/
def JType.ofArguments (scope : TypeVarScope) : List ArgSig → List JType
  | [] => []
  | a :: as => JType.ofArgument scope a :: JType.ofArguments scope as

/-- The type that a type argument denotes. -/
def JType.ofArgument (scope : TypeVarScope) : ArgSig → JType
  | .any => .wild
  | .exact t => JType.ofSignature scope t
  | .upper t => .wildUpper (JType.ofSignature scope t)
  | .lower t => .wildLower (JType.ofSignature scope t)

end

/-- Declares type parameters: their definitions and the scope that they are visible in.  A bound that
mentions a variable being declared sees it bounded by the root class. -/
def TypeVarScope.declare (scope : TypeVarScope) (sigs : List TypeParamSig) :
    List TypeParam × TypeVarScope :=
  let placeholder : TypeVarScope := ⟨scope.params ++ sigs.map fun p => .of p.name []⟩
  let params := sigs.map fun p => TypeParam.of p.name (p.bounds.map (JType.ofSignature placeholder))
  (params, ⟨scope.params ++ params⟩)

/-- What a class signature says: the type parameters, the supertypes and the scope for members. -/
structure ClassHeader where
  /-- The type parameters. -/
  typeParams : List TypeParam
  /-- The superclass. -/
  superclass : JType
  /-- The interfaces. -/
  interfaces : List JType
  /-- The type variables that members see. -/
  scope : TypeVarScope
deriving Inhabited

/-- The header that a class signature denotes. -/
def ClassHeader.ofSignature (sig : ClassSig) : ClassHeader :=
  let (typeParams, scope) := ({} : TypeVarScope).declare sig.typeParams
  { typeParams
    superclass := .ofClassSignature scope sig.superclass
    interfaces := sig.interfaces.map (JType.ofClassSignature scope)
    scope }

/-- Reads the header of a class. -/
def ClassHeader.parse (text : String) : Except Error ClassHeader := do
  return .ofSignature (← ClassSig.parse text)

namespace MethodDef

/-- The method with its marks set by the access flags. -/
def withFlags (m : MethodDef) (flags : UInt16) : MethodDef :=
  { m with
    isStatic := Access.has flags Access.isStatic
    isVarargs := Access.has flags Access.isVarargs
    isAbstract := Access.has flags Access.isAbstract
    isBridge := Access.has flags Access.isBridge
    isSynthetic := Access.has flags Access.isSynthetic }

/-- The method that a signature denotes. -/
def ofSignature (name : String) (flags : UInt16) (sig : MethodSig) (scope : TypeVarScope) :
    MethodDef :=
  let (typeParams, scope) := scope.declare sig.typeParams
  withFlags
    { name
      typeParams
      params := sig.params.map (JType.ofSignature scope)
      returnType := (sig.returnType.map (JType.ofSignature scope)).getD .void }
    flags

/-- The method that a descriptor denotes. -/
def ofDescriptor (name : String) (flags : UInt16) (d : MethodDescriptor) : MethodDef :=
  withFlags
    { name
      params := d.params.map JType.ofDescriptor
      returnType := .ofReturnDescriptor d.returnType }
    flags

/-- Reads a method of a class file.  The signature is used where it has as many parameters as the
descriptor; signatures of some constructors leave out parameters that the compiler added. -/
def parse (name : String) (flags : UInt16) (descriptor : String) (signature : Option String)
    (scope : TypeVarScope) : Except Error MethodDef := do
  let d ← MethodDescriptor.parse descriptor
  match signature with
  | none => return ofDescriptor name flags d
  | some text =>
    let sig ← MethodSig.parse text
    if sig.params.length = d.params.length then return ofSignature name flags sig scope
    else return ofDescriptor name flags d

end MethodDef

/-- Reads a field of a class file.  The descriptor is read only where there is no signature. -/
def FieldDef.parse (name : String) (flags : UInt16) (descriptor : String)
    (signature : Option String) (scope : TypeVarScope) : Except Error FieldDef := do
  let type ←
    match signature with
    | some text => do
      let sig ← TypeSig.parse text
      pure (JType.ofSignature scope sig)
    | none => do
      let t ← FieldType.parse descriptor
      pure (JType.ofDescriptor t)
  return { name, type, isStatic := Access.has flags Access.isStatic }

end JavaSema
