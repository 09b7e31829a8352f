import JavaSema.Analysis.Creation

/-!
# Bodies of classes

The members of a class are bound in its scope; then constants, initial values, methods, initializers
and member classes are checked in order.
-/

namespace JavaSema.Analysis

open Source

/-! ### Symbols of members -/

/-- The symbols of the constants of an enumeration. -/
def constantSymbols (d : Decl) (c : ClassDef) : List Symbol :=
  d.constants.map fun k => { name := k.name, kind := .enumLiteral, type := .ofClass c.name }

/-- The symbols of fields that the class has. -/
def fieldSymbols (observerOf : Node → Option String) (c : ClassDef) (f : FieldDecl) : List Symbol :=
  f.declarators.filterMap fun v =>
    (c.field? v.name).map fun definition =>
      { name := v.name
        kind := .var
        type := definition.type.withMember (.field c.name definition.name)
        observer := observerOf (.type f.type) }

/-- The symbols of methods. -/
def methodSymbols (ms : List MethodDef) (type : Nat → MethodDef → JType) : List Symbol :=
  ms.mapIdx fun index m =>
    { name := m.name
      kind := .method
      type := type index m
      params := m.params
      isVarargs := m.isVarargs }

/-- The symbols of all members of a class except its member classes. -/
def memberSymbols (observerOf : Node → Option String) (d : Decl) (c : ClassDef) : List Symbol :=
  constantSymbols d c ++ d.fields.flatMap (fieldSymbols observerOf c)
    ++ methodSymbols c.methods (fun index m => m.returnType.withMember (.method c.name index))
    ++ methodSymbols c.constructors (fun index _ => JType.void.withMember (.constructor c.name index))

/-! ### Members -/

/-- Checks a constant of an enumeration: the constructor that it calls and its body. -/
def checkConstant (c : Checker) (d : Decl) (owner : ClassDef) (k : EnumConstant) : Check Unit := do
  let self := JType.ofClass owner.name
  let known ← classifyArgs c k.args
  let env ← classes
  let site : CallSite :=
    { name := constructorName, args := known, depth := (← read).config.inferenceDepth }
  match ← completeBest c k.args (site.ranked env (env.constructorsOf self)) with
  | none => failNamed k.name (.noCandidate .constructor owner.name (known.map Arg.shownType))
  | some a =>
    recordCall (.decl d) a.candidate
    if let some body := k.body then discard (checkAnonymous c (.decl d) body self)

/-- Checks the initial values of fields. -/
def checkFieldInits (c : Checker) (owner : ClassDef) (f : FieldDecl) : Check Unit :=
  f.declarators.forM fun v => do
    if let some e := v.init then
      let expected := (owner.field? v.name).map FieldDef.type
      discard (withFrame .initializer (c.expr e expected))

/-- Binds the parameters of a method. -/
def bindMethodParams (params : List Param) : Check Unit :=
  params.forM fun p => do
    let type ← resolveType p.type
    let observer ← observerOf (.type p.type)
    inTableFor p.name (bindSymbol { name := p.name, kind := .var, type, observer })

/-- Checks the body of a method with its type parameters and parameters in scope. -/
def checkMethodBody (c : Checker) (m : MethodDecl) (typeParams : List TypeParam) (body : Stmt) :
    Check Unit := do
  inTableFor m.name (bindTypeParams typeParams)
  bindMethodParams m.params
  let returnType := (← m.returnType.mapM resolveType).getD .void
  discard (withFrame (.method returnType) (c.stmt body))

/-- Checks a method or constructor, if it has a body. -/
def checkMethod (c : Checker) (d : Decl) (m : MethodDecl) : Check Unit := do
  if let some body := m.body then
    let typeParams ← typeParamsOf m.typeParams
    inTable (.decl d) (SymbolTable.pushScope .block none)
    closing (discard (inTable (.decl d) SymbolTable.popScope)) (checkMethodBody c m typeParams body)

/-- Checks a member of a class. -/
def checkMember (c : Checker) (d : Decl) (owner : ClassDef) : Member → Check Unit
  | .field f => checkFieldInits c owner f
  | .method m => checkMethod c d m
  | .initializer _ body => discard (withFrame .initializer (c.stmt body))
  | .type nested => c.decl nested

/-- Checks all members of a class whose scope is open. -/
def checkMembers (c : Checker) (d : Decl) (binary : String) : Check Unit := do
  let owner ← loadAt (.decl d) binary
  (memberSymbols (← read).observers.ofNode d owner).forM fun s => inTable (.decl d) (bindSymbol s)
  d.constants.forM (checkConstant c d owner)
  d.members.forM (checkMember c d owner)

/-- Checks the body of a class and gives its symbol its members. -/
def checkDecl (c : Checker) (d : Decl) : Check Unit := do
  let binary ← binaryNameOf d
  openClass d binary (← observerOf (.decl d))
  closing (do attachMembers d (← closeClass d)) (checkMembers c d binary)

end JavaSema.Analysis
