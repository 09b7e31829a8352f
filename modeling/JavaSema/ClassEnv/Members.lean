import JavaSema.ClassEnv.Hierarchy

/-!
# Members of types

The methods, constructors, fields and member classes that a type offers, its inherited ones included,
and the function type of a functional interface.
-/

namespace JavaSema

/-- A method as a receiver offers it, with the receiver's type arguments substituted. -/
structure MethodCandidate where
  /-- The method or constructor. -/
  member : MemberRef
  /-- Its definition. -/
  definition : MethodDef
deriving Inhabited

/-- The binary name of the class that declares the method. -/
def MethodCandidate.owner (c : MethodCandidate) : String := c.member.owner

/-- A field as a receiver offers it, with the receiver's type arguments substituted. -/
structure FieldCandidate where
  /-- The field. -/
  member : MemberRef
  /-- Its definition. -/
  definition : FieldDef
deriving Inhabited

/-- What a functional interface describes. -/
structure FunctionType where
  /-- The interface, where bounds replace wildcard arguments. -/
  interfaceType : JType
  /-- The only abstract method. -/
  method : MethodCandidate
deriving Inhabited

namespace FunctionType

/-- The types of the parameters. -/
def params (f : FunctionType) : List JType := f.method.definition.params

/-- The type of the result. -/
def returnType (f : FunctionType) : JType := f.method.definition.returnType

end FunctionType

namespace Instantiation

/-- The methods of the class with type arguments substituted, each with its place in the class. -/
def methods (i : Instantiation) : List MethodCandidate :=
  i.definition.methods.mapIdx fun index m =>
    { member := .method i.definition.name index, definition := m.subst i.bindings }

end Instantiation

namespace ClassEnv

/-- Adds a method unless one with the same erased parameters is there. -/
def addVisible (found : List MethodCandidate) (c : MethodCandidate) : List MethodCandidate :=
  if found.any fun o => o.definition.sameErasedParams c.definition then found else found ++ [c]

/-- The methods of that name that the receiver offers, nearest first.  A method hides those above it
that have the same erased parameters. -/
def methodsNamed (env : ClassEnv) (receiver : JType) (name : String) : List MethodCandidate :=
  ((env.closure receiver).flatMap fun i =>
    i.methods.filter fun c => c.definition.name == name).foldl addVisible []

/-- The constructors of the class of the type, with its type arguments substituted. -/
def constructorsOf (env : ClassEnv) (t : JType) : List MethodCandidate :=
  match env.find? t.name with
  | none => []
  | some d =>
    d.constructors.mapIdx fun index m =>
      { member := .constructor d.name index, definition := m.subst (d.bindingsFor t) }

/-- The nearest field of that name that the receiver offers. -/
def findField? (env : ClassEnv) (receiver : JType) (name : String) : Option FieldCandidate :=
  (env.closure receiver).findSome? fun i =>
    (i.definition.field? name).map fun f =>
      { member := .field i.definition.name f.name
        definition := { f with type := f.type.subst i.bindings false } }

/-- The binary name of the member class that is declared in the class or inherited by it. -/
def findMemberClass? (env : ClassEnv) (owner simple : String) : Option String :=
  (env.closure (.ofClass owner)).findSome? fun i => i.definition.memberClass? simple

/-- Whether the method is one of those that the root class declares for every object. -/
def isRootMethod (m : MethodDef) : Bool :=
  match m.params with
  | [] => m.name == "hashCode" || m.name == "toString"
  | [p] => m.name == "equals" && p.isObject
  | _ => false

/-- The type with each wildcard argument replaced by what a function parameter sees of it: the lower
bound, else the upper one. -/
def withoutWildcards (t : JType) : JType :=
  t.withArgs (t.args.map fun as => as.map JType.writeType)

/-- Adds the method unless one with its name and erased parameters is there.  Each method stands
beside its declaration. -/
def addDistinct (found : List (MethodDef × MethodCandidate)) (c : MethodDef × MethodCandidate) :
    List (MethodDef × MethodCandidate) :=
  if found.any fun o =>
    o.2.definition.name == c.2.definition.name && o.2.definition.sameErasedParams c.2.definition
  then found
  else found ++ [c]

/-- The instance methods of an interface type that were written by hand, nearest first, each beside
its declaration.  A method hides those above it that have its name and erased parameters. -/
def interfaceMethods (env : ClassEnv) (t : JType) : List (MethodDef × MethodCandidate) :=
  (((env.closure t).filter fun i => !(i.definition.name == objectName)).flatMap fun i =>
    (i.definition.methods.zip i.methods).filter fun c =>
      !(c.1.isStatic || c.1.isBridge || c.1.isSynthetic)).foldl
    addDistinct []

/-- Whether the method makes an interface functional: it is abstract and not one of the methods that
the root class declares. -/
def isFunctional (m : MethodDef) : Bool := m.isAbstract && !isRootMethod m

/-- The function type of a functional interface: an interface with one abstract method. -/
def functionType? (env : ClassEnv) (target : JType) : Option FunctionType :=
  if target.isArray || target.isPrimitive then none
  else
    match env.find? target.name with
    | none => none
    | some d =>
      if d.isInterface then
        let interfaceType := withoutWildcards target
        match (env.interfaceMethods interfaceType).filter fun c => isFunctional c.1 with
        | [(_, method)] => some { interfaceType, method }
        | _ => none
      else none

end ClassEnv

end JavaSema
