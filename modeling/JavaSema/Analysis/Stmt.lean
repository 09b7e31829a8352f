import JavaSema.Analysis.Creation

/-!
# Statements

The type of a statement is what control carries out of it: that of an expression statement is the type
of the expression, that of a block the type of its last statement, that of a branch the merge of the
types of its arms, that of a loop the type of its body.
-/

namespace JavaSema.Analysis

open Source

/-- The interface of what can be iterated over. -/
def iterableName : String := "java.lang.Iterable"

/-- The class of everything that can be thrown. -/
def throwableName : String := "java.lang.Throwable"

/-- The expected type of a condition. -/
def truth : Option JType := some (.primitive .boolean)

/-- Types statements in order and gives the type of the last one. -/
def checkSequence (c : Checker) : JType → List Stmt → Check JType
  | last, [] => return last
  | _, s :: rest => do checkSequence c (← c.stmt s) rest

/-- Binds a variable that belongs to a statement. -/
def bindVariable (s : Stmt) (name : String) (type : JType) : Check Unit := do
  let observer ← observerOf (.stmt s)
  inTable (.stmt s) (bindSymbol { name, kind := .var, type, observer })

/-! ### Local variables and classes -/

/-- The type of a local variable.  Without a declared type it is that of its initial value, which has
to have one. -/
def variableType (c : Checker) (s : Stmt) (type : TypeRef) (declared : Option JType)
    (v : Declarator) : Check JType := do
  match declared, v.init with
  | some base, init =>
    let t := base.arrayOf32 v.dims
    if let some e := init then discard (c.expr e (some t))
    return t
  | none, some e =>
    let t := (← c.expr e none).withoutMember
    if t.isNull || t.isVoid then failAt (.stmt s) (.malformedSymbol v.name)
    record type.id t
    return t
  | none, none => failAt (.stmt s) (.malformedSymbol v.name)

/-- Types and binds local variables in order and gives the type of the last one. -/
def checkVariables (c : Checker) (s : Stmt) (type : TypeRef) (declared : Option JType) :
    JType → List Declarator → Check JType
  | last, [] => return last
  | _, v :: rest => do
    let t ← variableType c s type declared v
    bindVariable s v.name t
    checkVariables c s type declared t rest

/-- Declares and checks a class inside a block.  Its name is visible in its own body. -/
def checkLocalClass (c : Checker) (s : Stmt) (d : Decl) : Check Unit := do
  let enclosing ← currentClassName (.stmt s)
  let binary ← inCatalog fun catalog => catalog.nameLocal d enclosing d.name
  inCatalog (modify fun catalog => catalog.nameNested d)
  let observer ← observerOf (.stmt s)
  inTable (.stmt s) (bindSymbol { name := d.name, kind := .type, type := .ofClass binary, observer })
  declareBody d (← classHeader d binary .inBlock (some enclosing))
  c.decl d

/-! ### Loops -/

/-- The type of what iterating over a value gives. -/
def elementType (s : Stmt) (source : JType) : Check JType := do
  match source.component? with
  | some t => return t
  | none =>
    match (← classes).asSupertype? source iterableName with
    | none => failAt (.stmt s) (.noCandidate .forEach source.text [])
    | some t => return ((t.args.bind List.head?).map JType.readType).getD .object

/-- Types a loop over the elements of a value. -/
def checkForEach (c : Checker) (s : Stmt) (type : TypeRef) (name : String) (iterable : Expr)
    (body : Stmt) : Check JType := do
  let element ← elementType s (← c.expr iterable none)
  if type.isInferred then record type.id element
  let t ← if type.isInferred then pure element else resolveType type
  bindVariable s name t
  c.stmt body

/-- Types a loop with initial statements and updates. -/
def checkFor (c : Checker) (init : List Stmt) (condition : Option Expr) (update : List Expr)
    (body : Stmt) : Check JType := do
  init.forM fun s => discard (c.stmt s)
  if let some e := condition then discard (c.expr e truth)
  update.forM fun e => discard (c.expr e none)
  c.stmt body

/-! ### Choices -/

/-- Types the label of a case.  The constants of an enumeration are named without their class. -/
def checkLabel (c : Checker) (selector : JType) (e : Expr) : Check Unit := do
  match e.shape with
  | .name name =>
    match staticField? (← classes) selector name with
    | some f => record e.id (f.definition.type.withMember f.member)
    | none => discard (c.expr e (some selector))
  | _ => discard (c.expr e (some selector))

/-- Types the cases of a switch and merges their types. -/
def checkCases (c : Checker) (selector : JType) : Option JType → List SwitchCase →
    Check (Option JType)
  | acc, [] => return acc
  | acc, k :: rest => do
    k.labels.forM (checkLabel c selector)
    let t ← checkSequence c .void k.body
    checkCases c selector (some (← mergeInto acc t)) rest

/-- Types a `return`. -/
def checkReturn (c : Checker) : Option Expr → Check JType
  | none => return .void
  | some e => do
    let t ← c.expr e (returnTarget (← get).frames)
    modify fun s => { s with frames := noteReturn t s.frames }
    return t

/-! ### Exceptions -/

/-- The merge of the types of exceptions. -/
def caughtType : Option JType → List TypeRef → Check (Option JType)
  | acc, [] => return acc
  | acc, t :: rest => do
    let t ← resolveType t
    caughtType (some (← mergeInto acc t)) rest

/-- Types a handler. -/
def checkCatch (c : Checker) (k : CatchClause) : Check JType := do
  let type := (← caughtType none k.types).getD (.ofClass throwableName)
  inBlock (.stmt k.body) do
    inTable (.stmt k.body) (bindSymbol { name := k.name, kind := .var, type })
    c.stmt k.body

/-- Types the handlers and merges their types with what came before. -/
def checkCatches (c : Checker) : JType → List CatchClause → Check JType
  | acc, [] => return acc
  | acc, k :: rest => do
    let t ← checkCatch c k
    checkCatches c (acc.merge (← classes) t) rest

/-- Types statements whose exceptions are handled. -/
def checkTry (c : Checker) (s : Stmt) (resources : List Stmt) (body : Stmt)
    (catches : List CatchClause) (final : Option Stmt) : Check JType := do
  let t ← inBlock (.stmt s) do
    resources.forM fun r => discard (c.stmt r)
    c.stmt body
  let t ← checkCatches c t catches
  if let some f := final then discard (c.stmt f)
  return t

/-! ### All statements -/

/-- The type of a statement. -/
def stmtType (c : Checker) (s : Stmt) : Check JType := do
  match s.shape with
  | .block body => inBlock (.stmt s) (checkSequence c .void body)
  | .vars type vs =>
    let declared ← if type.isInferred then pure none else some <$> resolveType type
    checkVariables c s type declared .void vs
  | .decl d =>
    checkLocalClass c s d
    return .void
  | .expr e => c.expr e none
  | .ifElse condition thenBranch elseBranch =>
    let _ ← c.expr condition truth
    let t ← c.stmt thenBranch
    match elseBranch with
    | none => return t
    | some b =>
      let f ← c.stmt b
      return t.merge (← classes) f
  | .whileLoop condition body =>
    let _ ← c.expr condition truth
    c.stmt body
  | .doWhile body condition =>
    let t ← c.stmt body
    let _ ← c.expr condition truth
    return t
  | .forLoop init condition update body =>
    inBlock (.stmt s) (checkFor c init condition update body)
  | .forEach type name iterable body =>
    inBlock (.stmt s) (checkForEach c s type name iterable body)
  | .switch selector cases =>
    let t ← c.expr selector none
    return (← inBlock (.stmt s) (checkCases c t none cases)).getD .void
  | .ret value => checkReturn c value
  | .breakTo _ | .continueTo _ | .empty => return .void
  | .throw e =>
    let _ ← c.expr e none
    return .void
  | .tryCatch resources body catches final => checkTry c s resources body catches final
  | .labeled _ body => c.stmt body

/-- Types a statement, and records the type. -/
def checkStmt (c : Checker) (s : Stmt) : Check JType := do
  let t ← stmtType c s
  record s.id t
  return t

end JavaSema.Analysis
