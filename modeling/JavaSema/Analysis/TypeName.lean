import JavaSema.Analysis.State

/-!
# Types written in the source

What type names denote at a point of a unit, and the types that type references and type parameters
stand for.
-/

namespace JavaSema.Analysis

open Source

/-! ### Names -/

/-- The innermost type variable or type that the scopes bind to a name.  In one scope the type
variable counts. -/
def boundType? (scopes : List Scope) (simple : String) : Option JType :=
  scopes.findSome? fun scope =>
    ((scope.find? simple .typeParam).or (scope.find? simple .type)).map Symbol.type

/-- What a simple type name denotes: a binding in scope, a member type of an enclosing class, or what
the catalog has. -/
def simpleType? (simple : String) : Check (Option JType) := do
  let s ← get
  match boundType? s.table.scopes simple with
  | some t => return some t
  | none =>
    let env ← classes
    match s.table.enclosingClasses.findSome? fun owner => s.catalog.memberClass? env owner simple with
    | some member => return some (.ofClass member)
    | none => return (← inCatalog (Catalog.resolve env simple)).map .ofClass

/-- What a type name denotes.  After the first segment follow member types; a name whose first
segment denotes no type is canonical. -/
def namedType? (name : QualifiedName) : Check (Option JType) := do
  match name.segments with
  | [] => return none
  | first :: rest =>
    match ← simpleType? first, rest with
    | some head, [] => return some head
    | some head, rest =>
      if head.isTypeVar then return none
      return ((← get).catalog.memberPath? (← classes) head.name rest).map .ofClass
    | none, [] => return none
    | none, _ => return ((← classes).loadCanonical name.toDotted).map .ofClass

/-! ### Type references -/

mutual

/-- The type that a reference stands for, which is recorded. -/
def resolveType : TypeRef → Check JType
  | ⟨id, shape⟩ => do
    let t ← resolveShape ⟨id, shape⟩ shape
    record id t
    return t

/-- The type of the given shape, as written in the reference.  A type that is left to inference
stands for nothing by itself. -/
def resolveShape (whole : TypeRef) : TypeShape → Check JType
  | .primitive p => return .primitive p
  | .void => return .void
  | .inferred => failAt (.type whole) (.noSymbol "var")
  | .named name args => do
    match ← namedType? name with
    | none => failAt (.type whole) (.classNotFound name.toDotted)
    | some base => resolveArgs base args
  | .array element dims => return (← resolveType element).arrayOf32 dims
  | .wild => return .wild
  | .wildUpper bound => return .wildUpper (← resolveType bound)
  | .wildLower bound => return .wildLower (← resolveType bound)

/-- The type with the type arguments that are written. -/
def resolveArgs (base : JType) : Option (List TypeRef) → Check JType
  | none => return base
  | some args => return base.withArgs (some (← resolveTypes args))

/-- The types that the references stand for. -/
def resolveTypes : List TypeRef → Check (List JType)
  | [] => return []
  | t :: ts => return (← resolveType t) :: (← resolveTypes ts)

end

/-! ### Type parameters -/

/-- Binds a symbol. -/
def bindSymbol (s : Symbol) : TableM Unit := discard (SymbolTable.pushSymbol s)

/-- Binds type parameters in the innermost scope. -/
def bindTypeParams (params : List TypeParam) : TableM Unit :=
  params.forM fun p => bindSymbol { name := p.name, kind := .typeParam, type := p.asType }

/-- The type parameter with its bounds. -/
def typeParamOf (p : TypeParamDecl) : Check TypeParam := do
  return .of p.name (← resolveTypes p.bounds)

/-- The type parameters of a declaration, whose bounds may mention each other. -/
def typeParamsOf (params : List TypeParamDecl) : Check (List TypeParam) := do
  match params with
  | [] => return []
  | first :: _ =>
    inTableFor first.name (SymbolTable.pushScope .block none)
    params.forM fun p =>
      inTableFor p.name
        (bindSymbol { name := p.name, kind := .typeParam, type := .typeVar p.name [.object] })
    let result ← attempt (params.mapM typeParamOf)
    let _ ← inTableFor first.name SymbolTable.popScope
    settle result

end JavaSema.Analysis
