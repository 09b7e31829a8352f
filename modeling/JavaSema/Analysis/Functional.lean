import JavaSema.Analysis.Checker

/-!
# Lambdas and method references

Both are typed against a functional interface.  Before that only their shape is known, which is what
overload resolution looks at.
-/

namespace JavaSema.Analysis

open Source

/-! ### Open type variables -/

mutual

/-- Binds each type variable of the type for which `isOpen` holds to its erasure. -/
def openVars (isOpen : String → Bool) (b : Bindings) : JType → Bindings
  | t@{ args, upper, lower, var, wildcard, .. } =>
    match var, wildcard with
    | some v, false => if isOpen v then b.insert v t.element.erasure else b
    | _, true => openVarsList isOpen (openVarsList isOpen (openVarsOpt isOpen b args) upper) lower
    | none, false => openVarsOpt isOpen b args

/-- Binds the open type variables of each type. -/
def openVarsList (isOpen : String → Bool) (b : Bindings) : List JType → Bindings
  | [] => b
  | t :: ts => openVarsList isOpen (openVars isOpen b t) ts

/-- Binds the open type variables of each type argument. -/
def openVarsOpt (isOpen : String → Bool) (b : Bindings) : Option (List JType) → Bindings
  | none => b
  | some ts => openVarsList isOpen b ts

end

/-- Whether no scope declares the type variable. -/
def isOpenVar (t : SymbolTable) (v : String) : Bool :=
  match t.find? v .typeParam with
  | some s => s.type.var != some v
  | none => true

/-- The type with the type variables that no scope declares replaced by their erasures. -/
def eraseOpen (table : SymbolTable) (t : JType) : JType :=
  t.subst (openVars (isOpenVar table) [] t) false

/-! ### Shapes -/

/-- Whether the expression can stand as a statement. -/
def isStatementLike (e : Expr) : Bool :=
  match e.shape with
  | .call _ _ _ _ | .create _ _ _ _ | .assign _ _ _ => true
  | .unary op _ => op.writes
  | _ => false

/-- Whether the search for `return` statements of a lambda goes below the node: other lambdas and
classes have their own. -/
def sharesReturns : Node → Bool
  | .expr ⟨_, .lambda _ _⟩ | .decl _ => false
  | _ => true

/-- Whether the node returns a value. -/
def returnsValue : Node → Bool
  | .stmt ⟨_, .ret (some _)⟩ => true
  | _ => false

/-- Whether the body of a lambda can give a value, and whether it can give nothing. -/
def bodyGives : LambdaBody → Bool × Bool
  | .expr e => (true, isStatementLike e)
  | .block s =>
    let value := ((Node.stmt s).below sharesReturns).any returnsValue
    (value, !value)

/-- The types of the parameters of a lambda, if each is written. -/
def writtenTypes? (params : List LambdaParam) : Option (List TypeRef) :=
  if params.isEmpty then none
  else params.mapM fun p => p.type.filter fun t => !t.isInferred

/-- The shape of a lambda. -/
def lambdaShape (params : List LambdaParam) (body : LambdaBody) : Check LambdaShape := do
  let written ← (writtenTypes? params).mapM resolveTypes
  let (givesValue, givesVoid) := bodyGives body
  return { arity := params.length, written, givesValue, givesVoid }

/-- The type before the colons of a method reference, and whether it is named as a type.  A value
that was typed before keeps its type. -/
def refReceiver (c : Checker) (e : Expr) : RefTarget → Check (JType × Bool)
  | .type t => return (← resolveType t, true)
  | .expr target => do
    let t ← match ← typeOf? target.id with
      | some t => pure t
      | none => c.expr target none
    return (t, ← namesType target)
  | .parent => return ((← currentClass (.expr e)).superclass.getD .object, false)

/-- What stands before and after the colons of a method reference. -/
def methodRefOf (c : Checker) (e : Expr) : Check MethodRef := do
  match e.shape with
  | .methodRef target typeArgs name =>
    let typeArgs ← resolveTypes typeArgs
    let (receiver, isType) ← refReceiver c e target
    return { receiver, isType, name, typeArgs }
  | _ => failAt (.expr e) (.noCandidate .methodReference "?" [])

/-! ### Typing -/

/-- What is meant to be called by a lambda or method reference. -/
def callableOf (e : Expr) : Callable :=
  match e.shape with
  | .lambda _ _ => .lambda
  | _ => .methodReference

/-- Whether what was produced can be returned where `expected` is. -/
def returnFits (env : ClassEnv) (expected : JType) (produced : Option JType) : Bool :=
  expected.isVoid || produced.any fun t => expected.accepts env t

/-- The type of the parameter of a lambda, where the function has a parameter of type `given`. -/
def paramType (e : Expr) (f : FunctionType) (sam : List JType) (p : LambdaParam) (given : JType) :
    Check JType := do
  match p.type with
  | none => return given.readType
  | some t =>
    if t.isInferred then
      record t.id given
      return given
    let written ← resolveType t
    if !given.mentionsVar && !(written.erasure == given.readType.erasure) then
      failAt (.expr e) (.noCandidate .lambda f.interfaceType.text sam)
    return written

/-- Binds the parameters of a lambda. -/
def bindParams (e : Expr) (f : FunctionType) (sam : List JType) :
    List (LambdaParam × JType) → Check Unit
  | [] => pure ()
  | (p, given) :: rest => do
    let type ← paramType e f sam p given
    inTable (.expr e) (bindSymbol { name := p.name, kind := .var, type })
    bindParams e f sam rest

/-- The type that the body of a lambda produces, if any. -/
def bodyType (c : Checker) (expected : JType) : LambdaBody → Check (Option JType)
  | .expr e => do
    let t ← c.expr e (if expected.isVoid then none else some expected)
    return if t.isVoid then none else some t
  | .block s => do
    match ← withFrame (.lambda expected []) (c.stmt s) with
    | (_, some (.lambda _ returns)) => return CallSite.mergeAll? (← classes) returns
    | _ => return none

/-- Types a lambda against a function type. -/
def checkLambda (c : Checker) (e : Expr) (f : FunctionType) (params : List LambdaParam)
    (body : LambdaBody) : Check Outcome := do
  let table := (← get).table
  let sam := f.params.map (eraseOpen table)
  if params.length ≠ sam.length then
    failAt (.expr e) (.noCandidate .lambda f.interfaceType.text sam)
  let expected := eraseOpen table f.returnType
  let produced ← inBlock (.expr e) do
    bindParams e f sam (params.zip sam)
    bodyType c expected body
  if !returnFits (← classes) expected produced then
    failAt (.expr e) (.noCandidate .lambda f.interfaceType.text [produced.getD .void])
  return { interfaceType := f.interfaceType, produced, declaredReturn := f.returnType }

/-- The definition of the method or constructor, as its class declares it. -/
def declaredMethod? (env : ClassEnv) : MemberRef → Option MethodDef
  | .method owner index => (env.find? owner).bind fun d => d.methods[index]?
  | .constructor owner index => (env.find? owner).bind fun d => d.constructors[index]?
  | .field _ _ => none

/-- Counts a call that was resolved.  A method of an enclosing class is read. -/
def recordCall (n : Node) (candidate : MethodCandidate) : Check Unit := do
  modify fun s => { s with calls := s.calls + 1 }
  if let some m := declaredMethod? (← classes) candidate.member then
    discard (inTable n (SymbolTable.lookupMethodForRead m.name m.params))

/-- Types a method reference against a function type. -/
def checkMethodRef (c : Checker) (e : Expr) (f : FunctionType) : Check Outcome := do
  let ref ← methodRefOf c e
  let table := (← get).table
  let sam := f.params.map (eraseOpen table)
  let mismatch := ResolveError.noCandidate .methodReference ref.name sam
  match ref.select? (← classes) (← read).config.inferenceDepth sam with
  | none => failAt (.expr e) mismatch
  | some selection =>
    if let some a := selection.applicable then recordCall (.expr e) a.candidate
    let expected := eraseOpen (← get).table f.returnType
    if !returnFits (← classes) expected selection.produced then failAt (.expr e) mismatch
    return {
      interfaceType := f.interfaceType
      produced := selection.produced
      declaredReturn := f.returnType }

/-- Types a lambda or method reference against a target type. -/
def checkFunctional (c : Checker) (e : Expr) (target : JType) : Check Outcome := do
  match (← classes).functionType? target with
  | none => failAt (.expr e) (.noCandidate (callableOf e) target.text [])
  | some f =>
    let outcome ← match e.shape with
      | .lambda params body => checkLambda c e f params body
      | .methodRef _ _ _ => checkMethodRef c e f
      | _ => failAt (.expr e) (.noCandidate (callableOf e) target.text [])
    record e.id outcome.interfaceType
    return outcome

end JavaSema.Analysis
