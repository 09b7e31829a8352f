import JavaSema.ClassDef.Generic
import JavaSema.ClassFile.Basic

/-!
# Classes from class files

The class that a class file describes.  Generic signatures count before erased descriptors; a class
signature that cannot be read is ignored.
-/

namespace JavaSema

open ClassFile

/-- The binary name for an internal name. -/
def BinaryName.ofInternal (internal : String) : String := Text.replaceChar '/' '.' internal

namespace ClassDef

/-- The kind of class that access flags describe. -/
def kindOfFlags (flags : UInt16) : ClassKind :=
  if Access.has flags Access.isAnnotationType then .annotationType
  else if Access.has flags Access.isInterface then .interface
  else if Access.has flags Access.isEnum then .enumeration
  else .ordinary

/-- Where the class is declared, and the class around it.  For local and anonymous classes that is
the part of the binary name before the last dollar sign. -/
def nestingOf (f : ClassFile) : Nesting × Option String :=
  match f.ownEntry? with
  | none => (.topLevel, none)
  | some entry =>
    match entry.outer, entry.name with
    | some outer, some _ =>
      (.member (Access.has entry.flags Access.isStatic), some (BinaryName.ofInternal outer))
    | _, name =>
      let enclosing := (Text.splitLast? '$' (BinaryName.ofInternal f.name)).map Prod.fst
      (if name.isSome then .inBlock else .anonymous, enclosing)

/-- The class without its fields, methods and constructors, and the type variables that they see. -/
def headerOf (f : ClassFile) : ClassDef × TypeVarScope :=
  let (nesting, enclosing) := nestingOf f
  let d : ClassDef :=
    { empty (BinaryName.ofInternal f.name) (kindOfFlags f.flags) with
      isAbstract := Access.has f.flags Access.isAbstract
      nesting
      enclosing
      memberClasses := f.memberClasses.map BinaryName.ofInternal }
  let ofName := fun n => JType.ofClass (BinaryName.ofInternal n)
  let isRoot := d.isInterface || f.superclass.isNone
  match f.signature.bind fun s => (ClassHeader.parse s).toOption with
  | some h =>
    ({ d with
        typeParams := h.typeParams
        superclass := if isRoot then none else some h.superclass
        interfaces := h.interfaces },
      h.scope)
  | none =>
    ({ d with
        superclass := if isRoot then none else f.superclass.map ofName
        interfaces := f.interfaces.map ofName },
      {})

/-- The definition of a method or constructor. -/
def methodOf (scope : TypeVarScope) (m : ClassFile.Member) : Except Error MethodDef :=
  MethodDef.parse m.name m.flags m.descriptor m.signature scope

/-- The definition of a field. -/
def fieldOf (scope : TypeVarScope) (m : ClassFile.Member) : Except Error FieldDef :=
  FieldDef.parse m.name m.flags m.descriptor m.signature scope

/-- Adds a method or constructor.  The initializer of the class and what the compiler made are left
out, bridges excepted. -/
def addMethod (scope : TypeVarScope) (d : ClassDef) (m : ClassFile.Member) :
    Except Error ClassDef := do
  if m.name == "<clinit>" then return d
  else if m.name == constructorName then
    return { d with constructors := d.constructors ++ [← methodOf scope m] }
  else if Access.has m.flags Access.isSynthetic && !Access.has m.flags Access.isBridge then return d
  else return { d with methods := d.methods ++ [← methodOf scope m] }

/-- The class that a class file describes. -/
def ofClassFile (f : ClassFile) : Except Error ClassDef := do
  let (d, scope) := headerOf f
  let fields ← (f.fields.filter fun m => !Access.has m.flags Access.isSynthetic).mapM (fieldOf scope)
  f.methods.foldlM (addMethod scope) { d with fields }

end ClassDef

end JavaSema
