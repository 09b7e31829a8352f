import JavaSema.Analysis.Checker

/-!
# Names in expressions

A bare name is a variable in scope, else a type, else a field of an enclosing class, else an imported
static field, and before a dot at last the start of a package name.  A name after a dot is a class of
a package, a member of a type or a field of a value.
-/

namespace JavaSema.Analysis

open Source

/-- The variable or constant in scope of that name, which is read. -/
def readVariable (e : Expr) (name : String) : Check (Option Symbol) := do
  match ← inTable (.expr e) (SymbolTable.lookupForRead name .var) with
  | some s => return some s
  | none => inTable (.expr e) (SymbolTable.lookupForRead name .enumLiteral)

/-- The field of that name that one of the classes declares or inherits, in order. -/
def fieldOfClasses (e : Expr) (name : String) : List String → Check (Option JType)
  | [] => return none
  | owner :: rest => do
    let receiver := (← loadAt (.expr e) owner).asType
    match (← classes).findField? receiver name with
    | some f => return some (fieldValue f)
    | none => fieldOfClasses e name rest

/-- The field of that name of an enclosing class, innermost first, if such fields may be named. -/
def implicitField (e : Expr) (name : String) : Check (Option JType) := do
  if (← read).config.findsInheritedFields then
    fieldOfClasses e name (← get).table.enclosingClasses
  else return none

/-- The static field of that name that is imported. -/
def importedField (name : String) : Check (Option JType) := do
  let env ← classes
  return ((← get).catalog.staticOwners name).findSome? fun owner =>
    (staticField? env (.ofClass owner) name).map fieldValue

/-- What a bare name denotes. -/
def bareName (e : Expr) (name : String) (beforeDot : Bool) : Check Denotation := do
  if let some s ← readVariable e name then return .value s.type
  if let some t ← simpleType? name then
    markTypeName e
    return .value t
  if let some t ← implicitField e name then return .value t
  if let some t ← importedField name then return .value t
  if beforeDot then return .package name
  failAt (.expr e) (.noSymbol name)

/-- What a name after a package denotes. -/
def nameInPackage (e : Expr) (package name : String) (beforeDot : Bool) : Check Denotation := do
  let dotted := package ++ "." ++ name
  match (← classes).loadCanonical dotted with
  | some binary =>
    markTypeName e
    return .value (.ofClass binary)
  | none =>
    if beforeDot then return .package dotted
    failAt (.expr e) (.classNotFound dotted)

/-- What a name after a type denotes: a static field or a member type. -/
def nameInType (e : Expr) (owner : JType) (name : String) : Check Denotation := do
  let env ← classes
  match staticField? env owner name with
  | some f => return .value (fieldValue f)
  | none =>
    match (← get).catalog.memberClass? env owner.name name with
    | some member =>
      markTypeName e
      return .value (.ofClass member)
    | none => failAt (.expr e) (.noSymbol name)

/-- What a name after a value denotes: the length of an array or a field. -/
def nameInValue (e : Expr) (owner : JType) (name : String) : Check Denotation := do
  if owner.isArray && name == "length" then return .value (.primitive .int)
  match (← classes).findField? owner name with
  | some f => return .value (fieldValue f)
  | none => failAt (.expr e) (.noSymbol name)

/-- What a name after a dot denotes. -/
def nameAfterDot (c : Checker) (e receiver : Expr) (name : String) (beforeDot : Bool) :
    Check Denotation := do
  match ← c.qualifier receiver with
  | .package package => nameInPackage e package name beforeDot
  | .value owner =>
    if ← namesType receiver then nameInType e owner name else nameInValue e owner name

end JavaSema.Analysis
