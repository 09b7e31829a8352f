import JavaSema.Analysis.Call

/-!
# Creation of objects

The class that is instantiated, its constructor, the type arguments that the diamond leaves to
inference, and the classes that are declared on the spot.
-/

namespace JavaSema.Analysis

open Source

/-! ### Anonymous classes -/

/-- The header of an anonymous class that extends or implements a type. -/
def anonymousHeader (catalog : Catalog) (d : Decl) (binary enclosing : String) (base : JType)
    (isInterface : Bool) : ClassDef :=
  let blank := ClassDef.empty binary .ordinary
  { blank with
    nesting := .anonymous
    enclosing := some enclosing
    superclass := if isInterface then blank.superclass else some base
    interfaces := if isInterface then [base] else []
    memberClasses := memberNames catalog d }

/-- Declares and checks an anonymous class that belongs to a node and extends or implements a type. -/
def checkAnonymous (c : Checker) (n : Node) (d : Decl) (base : JType) : Check JType := do
  let enclosing ← currentClassName n
  let binary ← inCatalog fun catalog => catalog.nameLocal d enclosing ""
  inCatalog (modify fun catalog => catalog.nameNested d)
  let parent ← loadAt n base.name
  let header := anonymousHeader (← get).catalog d binary enclosing base parent.isInterface
  record d.id header.asType
  declareBody d header
  c.decl d
  return .ofClass binary

/-! ### Object creation -/

/-- The class that is instantiated: a member class of the outer instance if there is one, else what
the name denotes. -/
def createdClass (c : Checker) (e : Expr) (outer : Option Expr) (type : TypeRef)
    (name : QualifiedName) : Check JType := do
  match outer with
  | none =>
    match ← namedType? name with
    | some t => return t
    | none => failAt (.type type) (.classNotFound name.toDotted)
  | some outer =>
    let owner ← c.expr outer none
    let simple := name.segments.getLast?.getD ""
    match (← get).catalog.memberClass? (← classes) owner.name simple with
    | some binary => return .ofClass binary
    | none => failAt (.expr e) (.classNotFound (owner.name ++ "." ++ simple))

/-- The type that is instantiated, and whether its type arguments are left to inference. -/
def createdType (c : Checker) (e : Expr) (outer : Option Expr) (type : TypeRef) :
    Check (JType × Bool) := do
  match type.shape with
  | .named name args =>
    let base ← createdClass c e outer type name
    let t ← match args with
      | some (a :: as) => do pure (base.withArgs (some (← resolveTypes (a :: as))))
      | _ => pure base
    record type.id t
    return (t, args.any List.isEmpty)
  | _ => failAt (.type type) (.classNotFound type.text)

/-- The constructors that can be called, and the type variables to infer beside their own. -/
def constructorChoices (env : ClassEnv) (d : ClassDef) (t : JType) (isDiamond hasBody : Bool) :
    List MethodCandidate × List TypeParam :=
  if hasBody && d.isInterface then (env.constructorsOf .object, [])
  else if isDiamond then (env.constructorsOf d.asType, d.typeParams)
  else (env.constructorsOf t, [])

/-- The candidates with what the expected type says of the type variables. -/
def aimAt (env : ClassEnv) (generic : JType) (expected : Option JType) (ranked : List Applicable) :
    List Applicable :=
  match expected with
  | none => ranked
  | some t =>
    ranked.map fun a => { a with inference := a.inference.unifyTarget env generic t }

/-- Selects a constructor of a class for the arguments. -/
def selectConstructor (c : Checker) (e : Expr) (d : ClassDef) (t : JType) (args : List Expr)
    (isDiamond hasBody : Bool) (expected : Option JType) : Check Applicable := do
  let known ← classifyArgs c args
  let env ← classes
  let (candidates, extraVars) := constructorChoices env d t isDiamond hasBody
  let site : CallSite :=
    { name := constructorName, args := known, extraVars, depth := (← read).config.inferenceDepth }
  let ranked := site.ranked env candidates
  let ranked := if isDiamond then aimAt env d.asType expected ranked else ranked
  match ← completeBest c args ranked with
  | none => failAt (.expr e) (.noCandidate .constructor t.name (known.map Arg.shownType))
  | some a =>
    recordCall (.expr e) a.candidate
    return a

/-- Types the creation of an object. -/
def checkCreate (c : Checker) (e : Expr) (outer : Option Expr) (type : TypeRef) (args : List Expr)
    (body : Option Decl) (expected : Option JType) : Check JType := do
  let (t, isDiamond) ← createdType c e outer type
  let d ← loadAt (.expr e) t.name
  if body.isNone && d.isAbstract then failAt (.expr e) (.noCandidate .constructor t.text [])
  let a ← selectConstructor c e d t args isDiamond body.isSome expected
  let created := if isDiamond then a.inference.apply d.asType true else t
  if isDiamond then record type.id created
  match body with
  | some body => checkAnonymous c (.expr e) body created
  | none => return created

/-! ### Arrays -/

/-- The merge of a type with the ones before it. -/
def mergeInto (before : Option JType) (t : JType) : Check JType := do
  match before with
  | none => return t
  | some s => return s.merge (← classes) t

/-- The merge of the types of the expressions, and of the ones before them. -/
def mergedType (c : Checker) : Option JType → List Expr → Check (Option JType)
  | acc, [] => return acc
  | acc, e :: rest => do
    let t ← c.expr e none
    mergedType c (some (← mergeInto acc t)) rest

/-- Types the elements of an array in braces.  Without an expected array type the elements are
merged. -/
def checkArrayInit (c : Checker) (elements : List Expr) (expected : Option JType) :
    Check JType := do
  match expected.filter JType.isArray with
  | some t =>
    elements.forM fun e => discard (c.expr e t.component?)
    return t
  | none => return ((← mergedType c none elements).getD .object).arrayOf32 1

/-- Types the creation of an array.  It has as many dimensions as 32 bits can count at most. -/
def checkCreateArray (c : Checker) (element : TypeRef) (sizes : List Expr) (extraDims : Nat)
    (init : Option Expr) : Check JType := do
  let element ← resolveType element
  sizes.forM fun e => discard (c.expr e (some (.primitive .int)))
  let t := element.arrayOf32 (min (sizes.length + extraDims) (UInt32.size - 1))
  if let some e := init then discard (c.expr e (some t))
  return t

end JavaSema.Analysis
