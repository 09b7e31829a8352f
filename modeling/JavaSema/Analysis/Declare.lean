import JavaSema.Analysis.TypeName

/-!
# Declaring the classes of a unit

The definitions of the classes that a unit declares.  Headers come first, those of member classes
inside the scope of their class; fields, methods and constructors follow once all headers are there.

## Implementation notes

Declarations are walked down to a height that the caller gives, which is that of the tree.
-/

namespace JavaSema.Analysis

open Source

/-- The superclass of all enumerations. -/
def enumName : String := "java.lang.Enum"

/-- The binary name of a declaration. -/
def binaryNameOf (d : Decl) : Check String := do
  match (← get).catalog.binaryName? d with
  | some name => return name
  | none => failAt (.decl d) (.classNotFound d.name)

/-! ### The scope of a class -/

/-- Opens the body of a class: its type parameters and member types become visible. -/
def openClass (d : Decl) (binary : String) (observer : Option String) : Check Unit := do
  let n := Node.decl d
  inTable n (SymbolTable.pushClassScope binary observer)
  let c ← loadAt n binary
  inTable n (bindTypeParams c.typeParams)
  inTable n <| c.memberClasses.forM fun member =>
    bindSymbol { name := Text.afterLast '$' member, kind := .type, type := .ofClass member }

/-- Closes the body of a class. -/
def closeClass (d : Decl) : Check Scope := inTable (.decl d) SymbolTable.popScope

/-- Gives the symbol of a class its members. -/
def attachMembers (d : Decl) (members : Scope) : Check Unit :=
  modify fun s =>
    match s.table.find? d.name .type with
    | some sym =>
      if some sym.type.name = members.owner then
        { s with table := s.table.attachMembers sym.id members }
      else s
    | none => s

/-! ### Headers -/

/-- The superclass and the interfaces of a class of the given kind, from what is written. -/
def supertypesFor (binary : String) (kind : ClassKind) (standard written : Option JType)
    (interfaces : List JType) : Option JType × List JType :=
  match kind with
  | .interface | .annotationType => (none, written.toList ++ interfaces)
  | .enumeration => (some (.generic enumName [.ofClass binary]), interfaces)
  | .ordinary => (written.or standard, interfaces)

/-- The binary names of the member classes that have one. -/
def memberNames (catalog : Catalog) (d : Decl) : List String :=
  d.nestedTypes.filterMap catalog.binaryName?

/-- The type parameters, the superclass and the interfaces of a class. -/
def classHeader (d : Decl) (binary : String) (nesting : Nesting) (enclosing : Option String) :
    Check ClassDef := do
  let n := Node.decl d
  let blank := ClassDef.empty binary d.kind
  let typeParams ← typeParamsOf d.typeParams
  inTable n (SymbolTable.pushScope .block none)
  inTable n (bindTypeParams typeParams)
  let written ← d.parent.mapM resolveType
  let interfaces ← resolveTypes d.interfaces
  let _ ← inTable n SymbolTable.popScope
  let (superclass, interfaces) := supertypesFor binary d.kind blank.superclass written interfaces
  let c : ClassDef :=
    { blank with
      nesting
      enclosing
      typeParams
      superclass
      interfaces
      isAbstract := d.modifiers.isAbstract || blank.isInterface
      memberClasses := memberNames (← get).catalog d }
  record d.id c.asType
  return c

/-- Whether a member class of a class has no outer instance. -/
def isStaticMember (outer : ClassDef) (d : Decl) : Bool :=
  d.modifiers.isStatic || d.kind ≠ .ordinary || outer.isInterface

/-- Declares a class with the given header and the headers of its member classes, down to a height. -/
def declareHeader : Nat → Decl → ClassDef → Check Unit
  | 0, d, _ => failAt (.decl d) .tooHigh
  | height + 1, d, header => do
    declare header
    openClass d header.name none
    d.nestedTypes.forM fun member => do
      let binary ← binaryNameOf member
      declareHeader height member
        (← classHeader member binary (.member (isStaticMember header member)) (some header.name))
    discard (closeClass d)

/-! ### Members -/

/-- The types of the parameters and of the result of a method. -/
def methodTypes (m : MethodDecl) (typeParams : List TypeParam) : Check (List JType × JType) := do
  inTableFor m.name (bindTypeParams typeParams)
  let params ← resolveTypes (m.params.map Param.type)
  let returnType ← m.returnType.mapM resolveType
  return (params, returnType.getD .void)

/-- The definition of a method or constructor. -/
def methodDef (m : MethodDecl) (inInterface : Bool) : Check MethodDef := do
  let typeParams ← typeParamsOf m.typeParams
  inTableFor m.name (SymbolTable.pushScope .block none)
  let (params, returnType) ← closing (discard (inTableFor m.name SymbolTable.popScope))
    (methodTypes m typeParams)
  return {
    name := if m.isConstructor then constructorName else m.name
    typeParams
    params
    returnType
    isStatic := m.modifiers.isStatic
    isVarargs := m.isVarargs
    isAbstract := m.modifiers.isAbstract
      || (inInterface && m.body.isNone && !m.modifiers.isStatic && !m.modifiers.isDefault) }

/-- The class with one more of its members. -/
def addMember (c : ClassDef) : Member → Check ClassDef
  | .field f => do
    let base ← resolveType f.type
    let fields := f.declarators.map fun v =>
      { name := v.name
        type := base.arrayOf32 v.dims
        isStatic := f.modifiers.isStatic || c.isInterface : FieldDef }
    return { c with fields := c.fields ++ fields }
  | .method m => do
    let definition ← methodDef m c.isInterface
    if m.isConstructor then return { c with constructors := c.constructors ++ [definition] }
    return { c with methods := c.methods ++ [definition] }
  | .initializer _ _ | .type _ => return c

/-- The fields of the constants of an enumeration. -/
def constantFields (d : Decl) (binary : String) : List FieldDef :=
  d.constants.map fun k => { name := k.name, type := .ofClass binary, isStatic := true }

/-- The methods that each enumeration has. -/
def enumMethods (binary : String) : List MethodDef :=
  let self := JType.ofClass binary
  [{ name := "values", params := [], returnType := self.arrayOf 1, isStatic := true },
    { name := "valueOf", params := [.string], returnType := self, isStatic := true }]

/-- The constructor of a class that declares none. -/
def defaultConstructor : MethodDef := { name := constructorName, params := [], returnType := .void }

/-- The class with the members that its declaration gives it. -/
def classMembers (d : Decl) (header : ClassDef) : Check ClassDef := do
  let c := { header with fields := header.fields ++ constantFields d header.name }
  let c ← d.members.foldlM addMember c
  let c := if d.kind = .enumeration then { c with methods := c.methods ++ enumMethods c.name } else c
  if c.constructors.isEmpty && !c.isInterface then
    return { c with constructors := [defaultConstructor] }
  return c

/-- Declares the members of a class and of its member classes, down to a height. -/
def declareMembers : Nat → Decl → Check Unit
  | 0, d => failAt (.decl d) .tooHigh
  | height + 1, d => do
    let binary ← binaryNameOf d
    openClass d binary none
    let header ← loadAt (.decl d) binary
    declare (← classMembers d header)
    d.nestedTypes.forM (declareMembers height)
    discard (closeClass d)

/-- Declares a class of which the header is given, with its members and member classes. -/
def declareBody (d : Decl) (header : ClassDef) : Check Unit := do
  let height := (Node.decl d).height
  declareHeader height d header
  declareMembers height d

/-! ### The unit -/

/-- Declares the header of a class at the top level. -/
def declareTopLevel (d : Decl) : Check Unit := do
  let binary ← binaryNameOf d
  declareHeader (Node.decl d).height d (← classHeader d binary .topLevel none)

/-- Declares the classes of a unit that are not inside of bodies.  Nobody is told of the symbols that
this takes. -/
def declareUnit (u : SourceUnit) : Check Unit := do
  let saved := (← get).table
  modify fun s => { s with table := {} }
  let name := u.packageName.toDotted
  let result ← attempt do
    inTableFor name (SymbolTable.pushScope .block none)
    inTableFor name (← get).catalog.populate
    u.types.forM declareTopLevel
    u.types.forM fun d => declareMembers (Node.decl d).height d
  modify fun s => { s with table := saved }
  settle result

end JavaSema.Analysis
