import JavaSema.Analysis.Creation
import JavaSema.Analysis.Operator

/-!
# Expressions

The type of each kind of expression.  The expected type is what the context asks for; it types
lambdas, method references, array initializers and diamonds, and is not enforced otherwise.
-/

namespace JavaSema.Analysis

open Source

/-- The value that a name denotes; a package is none. -/
def valueOf (e : Expr) (cause : String → ResolveError) : Denotation → Check JType
  | .value t => return t
  | .package dotted => failAt (.expr e) (cause dotted)

/-- Reports a write to the variable that the expression names, if it names one. -/
def recordWrite (e : Expr) : Check Unit := do
  if let .name name := e.shape then
    discard (inTable (.expr e) (SymbolTable.lookupForWrite name .var))

/-- Types an operator with one operand. -/
def checkUnary (c : Checker) (e : Expr) (op : UnaryOp) (operand : Expr) : Check JType := do
  let t ← c.expr operand none
  match op.resultType? t with
  | none => failAt (.expr e) (.noCandidate .operator op.symbol [t])
  | some result =>
    if op.writes then recordWrite operand
    return result

/-- The type that an operator gives for its operands, or a failure at the expression. -/
def operatorType (e : Expr) (op : BinaryOp) (left right : JType) : Check JType := do
  match op.resultType? left right with
  | some t => return t
  | none => failAt (.expr e) (.noCandidate .operator op.symbol [left, right])

/-- Types the target of an assignment.  A variable is written; it is read before if its old value is
combined with the new one. -/
def checkTarget (c : Checker) (op : Option BinaryOp) (target : Expr) : Check JType := do
  match target.shape, op with
  | .name name, none =>
    match ← inTable (.expr target) (SymbolTable.lookupForWrite name .var) with
    | some s =>
      record target.id s.type
      return s.type
    | none => c.expr target none
  | .name _, some _ =>
    let t ← c.expr target none
    recordWrite target
    return t
  | _, _ => c.expr target none

/-- Types an assignment. -/
def checkAssign (c : Checker) (e : Expr) (op : Option BinaryOp) (target value : Expr) :
    Check JType := do
  let t ← checkTarget c op target
  let v ← c.expr value (some t)
  if let some op := op then discard (operatorType e op t v)
  return t

/-- Types the element of an array. -/
def checkIndex (c : Checker) (e array position : Expr) : Check JType := do
  let t ← c.expr array none
  let p ← c.expr position (some (.primitive .int))
  match t.component? with
  | some component => return component
  | none => failAt (.expr e) (.noCandidate .operator "[]" [t, p])

/-- The type of the current instance, or of that of an enclosing class. -/
def checkSelf (e : Expr) : Option QualifiedName → Check JType
  | none => return (← currentClass (.expr e)).asType
  | some qualifier => do
    match ← namedType? qualifier with
    | none => failAt (.expr e) (.classNotFound qualifier.toDotted)
    | some outer =>
      if !(← get).table.enclosingClasses.contains outer.name then
        failAt (.expr e) (.noSymbol (qualifier.toDotted ++ ".this"))
      return (← loadAt (.expr e) outer.name).asType

/-- The type of the object that stands for a type. -/
def classObject (t : JType) : JType :=
  .generic "java.lang.Class" [if t.isVoid then .ofClass "java.lang.Void" else t.boxed]

/-- The type of an expression whose context asks for a type. -/
def exprType (c : Checker) (e : Expr) (expected : Option JType) : Check JType := do
  match e.shape with
  | .literal kind _ => return kind.type
  | .name name => valueOf e .noSymbol (← bareName e name false)
  | .field receiver name => valueOf e .classNotFound (← nameAfterDot c e receiver name false)
  | .call receiver typeArgs name args => checkCall c e receiver typeArgs name args
  | .create outer type args body => checkCreate c e outer type args body expected
  | .createArray element sizes extraDims init => checkCreateArray c element sizes extraDims init
  | .arrayInit elements => checkArrayInit c elements expected
  | .index array position => checkIndex c e array position
  | .unary op operand => checkUnary c e op operand
  | .binary op left right =>
    let l ← c.expr left none
    let r ← c.expr right none
    operatorType e op l r
  | .assign op target value => checkAssign c e op target value
  | .conditional condition whenTrue whenFalse =>
    let _ ← c.expr condition (some (.primitive .boolean))
    let t ← c.expr whenTrue expected
    let f ← c.expr whenFalse expected
    return t.merge (← classes) f
  | .cast type operand =>
    let t ← resolveType type
    let _ ← c.expr operand (if isFunctional operand then some t else none)
    return t
  | .instanceOf operand type =>
    let _ ← c.expr operand none
    let _ ← resolveType type
    return .primitive .boolean
  | .lambda _ _ | .methodRef _ _ _ =>
    match expected with
    | some target => return (← checkFunctional c e target).interfaceType
    | none => failAt (.expr e) (.noCandidate (callableOf e) "<no target type>" [])
  | .self qualifier => checkSelf e qualifier
  | .parent => return (← currentClass (.expr e)).superclass.getD .object
  | .classLiteral type => return classObject (← resolveType type)

/-- Types an expression whose context asks for a type, and records the type. -/
def checkExpr (c : Checker) (e : Expr) (expected : Option JType) : Check JType := do
  let t ← exprType c e expected
  record e.id t
  return t

/-- Records the type of what is no package. -/
def recordValue (e : Expr) (d : Denotation) : Check Denotation := do
  if let .value t := d then record e.id t
  return d

/-- Finds out what an expression before a dot denotes. -/
def checkQualifier (c : Checker) (e : Expr) : Check Denotation := do
  match e.shape with
  | .name name => recordValue e (← bareName e name true)
  | .field receiver name => recordValue e (← nameAfterDot c e receiver name true)
  | _ => return .value (← checkExpr c e none)

end JavaSema.Analysis
