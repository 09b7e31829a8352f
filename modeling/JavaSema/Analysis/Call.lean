import JavaSema.Analysis.Functional
import JavaSema.Analysis.Name

/-!
# Calls

Arguments that need no target type are typed first; overload resolution ranks the candidates; then
the lambdas and method references among the arguments are typed against the candidates in order,
until one candidate takes them all.
-/

namespace JavaSema.Analysis

open Source

/-! ### Arguments -/

/-- What is known of an argument before a candidate is selected. -/
def classifyArg (c : Checker) (e : Expr) : Check Arg := do
  match e.shape with
  | .lambda params body => return .lambda (← lambdaShape params body)
  | .methodRef _ _ _ => return .methodRef (← c.methodRef e)
  | _ => return .typed (← c.expr e none)

/-- What is known of the arguments before a candidate is selected. -/
def classifyArgs (c : Checker) (args : List Expr) : Check (List Arg) := args.mapM (classifyArg c)

/-- Types an argument against the parameter that it is passed to.  What a lambda or method reference
produces feeds back into inference. -/
def completeArg (c : Checker) (i : Inference) (arg : Expr) (formal : JType) : Check Inference := do
  if !isFunctional arg then return i
  let outcome ← c.functional arg (i.apply formal false)
  let env ← classes
  let i := match outcome.produced with
    | some t => i.unify env outcome.declaredReturn t.boxed
    | none => i
  if let some f := env.functionType? (i.apply formal true) then record arg.id f.interfaceType
  return i

/-- Types the arguments against the parameters that they are passed to. -/
def completeArgs (c : Checker) : Inference → List (Expr × JType) → Check Inference
  | i, [] => return i
  | i, (arg, formal) :: rest => do completeArgs c (← completeArg c i arg formal) rest

/-- Types the lambdas and method references among the arguments against a candidate. -/
def completeCall (c : Checker) (args : List Expr) (a : Applicable) : Check Applicable := do
  return { a with inference := ← completeArgs c a.inference (args.zip a.formals) }

/-- The first candidate that also takes the lambdas and method references.  A candidate that does not
take them leaves no scopes and no counted calls behind.  If none does, the failure of the first one
counts. -/
def completeFirst (c : Checker) (args : List Expr) :
    Option AnalysisError → List Applicable → Check (Option Applicable)
  | none, [] => return none
  | some failure, [] => throw failure
  | failure, a :: rest => do
    let before ← get
    match ← attempt (completeCall c args a) with
    | .ok a => return some a
    | .error e =>
      if !e.isOverloadFailure then throw e
      unwindTo before.table.depth
      modify fun s => { s with calls := before.calls }
      completeFirst c args (failure.or (some e)) rest

/-- The best candidate that takes all arguments. -/
def completeBest (c : Checker) (args : List Expr) (ranked : List Applicable) :
    Check (Option Applicable) :=
  completeFirst c args none ranked

/-! ### Methods -/

/-- The methods of that name of the first of the classes that has any. -/
def methodsOfClasses (e : Expr) (name : String) : List String → Check (List MethodCandidate)
  | [] => return []
  | owner :: rest => do
    let receiver := (← loadAt (.expr e) owner).asType
    match (← classes).methodsNamed receiver name with
    | [] => methodsOfClasses e name rest
    | found => return found

/-- The static methods of that name that are imported. -/
def importedMethods (name : String) : Check (List MethodCandidate) := do
  let env ← classes
  return ((← get).catalog.staticOwners name).flatMap fun owner =>
    (env.methodsNamed (.ofClass owner) name).filter fun m => m.definition.isStatic

/-- The methods that can be called without a receiver. -/
def bareMethods (e : Expr) (name : String) : Check (List MethodCandidate) := do
  match ← methodsOfClasses e name (← get).table.enclosingClasses with
  | [] => importedMethods name
  | found => return found

/-- The methods that can be called on a receiver. -/
def methodsOf (receiver : Expr) (t : JType) (name : String) : Check (List MethodCandidate) := do
  let found := (← classes).methodsNamed t name
  if ← namesType receiver then return found.filter fun m => m.definition.isStatic
  return found

/-- Selects a method for the arguments and gives the type of its result. -/
def callWith (c : Checker) (e : Expr) (typeArgs : List JType) (name : String) (args : List Expr)
    (candidates : List MethodCandidate) : Check JType := do
  let known ← classifyArgs c args
  let site : CallSite :=
    { name, args := known, typeArgs, depth := (← read).config.inferenceDepth }
  match ← completeBest c args (site.ranked (← classes) candidates) with
  | none => failAt (.expr e) (.noCandidate .method name (known.map Arg.shownType))
  | some a =>
    recordCall (.expr e) a.candidate
    return a.returnType

/-- Types the call of a method.  An array can be cloned, which is no call of a method. -/
def checkCall (c : Checker) (e : Expr) (receiver : Option Expr) (typeArgs : List TypeRef)
    (name : String) (args : List Expr) : Check JType := do
  let typeArgs ← resolveTypes typeArgs
  match receiver with
  | none => callWith c e typeArgs name args (← bareMethods e name)
  | some receiver =>
    match ← c.qualifier receiver with
    | .package package => failAt (.expr e) (.classNotFound package)
    | .value t =>
      if t.isPrimitive || t.isVoid || t.isNull then failAt (.expr e) (.noSymbol name)
      if t.isArray && name == "clone" && args.isEmpty then return t
      callWith c e typeArgs name args (← methodsOf receiver t name)

end JavaSema.Analysis
