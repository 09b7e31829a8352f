import JavaSema.Analysis.Inference

/-!
# Overload resolution

Which of several methods or constructors of one name a list of arguments selects.  Candidates have to
take the number of arguments and then each argument; those that do are ranked: fixed arity before
variable arity, fewer parameters first, then the more specific parameters.

A lambda is tested by its shape and a method reference by the method that it would select, which is
again overload resolution, over arguments that all have types.
-/

namespace JavaSema

/-- What is known of a lambda before its target type is. -/
structure LambdaShape where
  /-- The number of parameters. -/
  arity : Nat
  /-- The types of the parameters, if each is written. -/
  written : Option (List JType)
  /-- Whether the body can produce a value. -/
  givesValue : Bool
  /-- Whether the body can produce nothing. -/
  givesVoid : Bool
deriving Inhabited

/-- What is known of a method reference before its target type is. -/
structure MethodRef where
  /-- The type before the name. -/
  receiver : JType
  /-- Whether a type, and not a value, stands before the name. -/
  isType : Bool
  /-- The name; that of a constructor reference is `new`. -/
  name : String
  /-- The type arguments that are written. -/
  typeArgs : List JType
deriving Inhabited

/-- What is known of an argument before a candidate is selected. -/
inductive Arg where
  /-- An argument with a type. -/
  | typed (t : JType)
  /-- A lambda. -/
  | lambda (shape : LambdaShape)
  /-- A method reference. -/
  | methodRef (ref : MethodRef)
deriving Inhabited

/-- The type that stands for the argument in messages. -/
def Arg.shownType : Arg → JType
  | typed t => t
  | lambda _ => .unknown "<lambda>"
  | methodRef _ => .unknown "<method reference>"

/-- A call to resolve. -/
structure CallSite where
  /-- The name of the method, `<init>` for constructors. -/
  name : String
  /-- The arguments. -/
  args : List Arg
  /-- The type arguments that are written. -/
  typeArgs : List JType := []
  /-- Type variables that are inferred beside those of the method. -/
  extraVars : List TypeParam := []
  /-- How deep types are taken apart to infer type arguments. -/
  depth : Nat
deriving Inhabited

/-- A candidate that takes the arguments. -/
structure Applicable where
  /-- The candidate. -/
  candidate : MethodCandidate
  /-- The declared type of the parameter that each argument is passed to. -/
  formals : List JType
  /-- What the type variables are bound to. -/
  inference : Inference
deriving Inhabited

/-- The type of the result of the call. -/
def Applicable.returnType (a : Applicable) : JType :=
  (a.inference.apply a.candidate.definition.returnType true).readType.withMember a.candidate.member

namespace LambdaShape

/-- Whether the parameter types that are written agree with those of the function.  Parameters that
mention type variables agree with anything. -/
def agrees (written params : List JType) : Bool :=
  (written.zip params).all fun (w, p) => p.mentionsVar || w.erasure == p.readType.erasure

/-- Whether the lambda could implement the functional interface. -/
def fits (env : ClassEnv) (shape : LambdaShape) (target : JType) : Bool :=
  match env.functionType? target with
  | none => false
  | some f =>
    f.params.length == shape.arity && (shape.written.all fun w => agrees w f.params)
      && if f.returnType.isVoid then shape.givesVoid else shape.givesValue

end LambdaShape

namespace CallSite

/-- Whether a method reference could implement a functional interface. -/
abbrev RefTest := MethodRef → JType → Bool

/-- Whether the method takes that many arguments. -/
def takesCount (m : MethodDef) (count : Nat) : Bool :=
  if m.isVarargs then m.fixedArity ≤ count else count == m.arity

/-- Whether the argument can be passed for a parameter of that type, given what was inferred. -/
def takesArg (env : ClassEnv) (refFits : RefTest) (i : Inference) (formal : JType) : Arg → Bool
  | .typed t => (i.apply formal true).accepts env t
  | .lambda shape => shape.fits env (i.apply formal false)
  | .methodRef ref => refFits ref (i.apply formal false)

/-- Infers from an argument that has a type. -/
def inferFrom (env : ClassEnv) (i : Inference) : JType × Arg → Inference
  | (formal, .typed t) => i.unify env formal t
  | _ => i

/-- The type of a spread argument as an element of an array of `component`. -/
def spreadType? (component : JType) : Arg → Option JType
  | .typed t => some (if component.isReference then t.boxed else t)
  | _ => none

/-- The merge of all types of a list that is not empty. -/
def mergeAll? (env : ClassEnv) : List JType → Option JType
  | [] => none
  | t :: ts => some (ts.foldl (fun acc t => acc.merge env t) t)

/-- Infers from the arguments that are spread, as one array. -/
def inferSpread (env : ClassEnv) (i : Inference) (m : MethodDef) (spread : List Arg) : Inference :=
  match m.params.getLast?, m.varargsComponent? with
  | some formal, some component =>
    match mergeAll? env (spread.filterMap (spreadType? component)) with
    | some element => i.unify env formal (element.arrayOf 1)
    | none => i
  | _, _ => i

/-- What is inferred for the method when the arguments are passed for parameters of these types. -/
def infer (env : ClassEnv) (site : CallSite) (m : MethodDef) (formals : List JType)
    (isSpread : Bool) : Inference :=
  let i := (Inference.start (m.typeParams ++ site.extraVars) site.depth).bindWritten m.typeParams
    site.typeArgs
  let fixed := if isSpread then m.fixedArity else formals.length
  let i := ((formals.zip site.args).take fixed).foldl (inferFrom env) i
  if isSpread then inferSpread env i m (site.args.drop fixed) else i

/-- The candidate with the arguments passed for parameters of these types, if each fits. -/
def tryForm (env : ClassEnv) (refFits : RefTest) (site : CallSite) (candidate : MethodCandidate)
    (formals : List JType) (isSpread : Bool) : Option Applicable :=
  let inference := site.infer env candidate.definition formals isSpread
  if (formals.zip site.args).all fun (formal, arg) => takesArg env refFits inference formal arg then
    some { candidate, formals, inference }
  else none

/-- The candidate if it takes the arguments, as declared or with its last parameter spread. -/
def tryCandidate (env : ClassEnv) (refFits : RefTest) (site : CallSite)
    (candidate : MethodCandidate) : Option Applicable :=
  let m := candidate.definition
  let count := site.args.length
  let declared :=
    if count = m.arity then site.tryForm env refFits candidate m.params false else none
  declared.or <| m.varargsComponent?.bind fun component =>
    let fixed := m.fixedArity
    site.tryForm env refFits candidate
      (m.params.take fixed ++ List.replicate (count - fixed) component) true

/-- The candidates that take the arguments, in order of declaration. -/
def applicable (env : ClassEnv) (refFits : RefTest) (site : CallSite)
    (candidates : List MethodCandidate) : List Applicable :=
  (candidates.filter fun c =>
    c.definition.name == site.name && !c.definition.isBridge && !c.definition.isSynthetic
      && takesCount c.definition site.args.length).filterMap (site.tryCandidate env refFits)

end CallSite

namespace Applicable

/-- Which of two parameters is the more specific one: the one whose values the other accepts.  Where
each accepts the other, the class that is deeper in the hierarchy. -/
def compareFormals (env : ClassEnv) (a b : JType) : Ordering :=
  let a := a.subst [] true
  let b := b.subst [] true
  match b.accepts env a, a.accepts env b with
  | true, false => .lt
  | false, true => .gt
  | true, true =>
    if a.isReference && b.isReference && a.name != b.name then
      compare (env.hierarchyDepth b.name) (env.hierarchyDepth a.name)
    else .eq
  | false, false => .eq

/-- The candidate whose parameters are more specific where they differ comes first. -/
def compareSpecificity (env : ClassEnv) (a b : Applicable) : Ordering :=
  let results := (a.formals.zip b.formals).map fun (f, g) => compareFormals env f g
  match results.contains .lt, results.contains .gt with
  | true, false => .lt
  | false, true => .gt
  | _, _ => .eq

/-- The order of candidates: fixed arity before variable arity, fewer parameters first, then the more
specific parameters. -/
def rank (env : ClassEnv) (a b : Applicable) : Ordering :=
  (compare a.candidate.definition.isVarargs b.candidate.definition.isVarargs).then <|
    (compare a.candidate.definition.arity b.candidate.definition.arity).then <|
      compareSpecificity env a b

/-- The best of a list that starts with `best`, and the others in order.  Of equals the first is the
best. -/
def extractBest (env : ClassEnv) (before : List Applicable) (best : Applicable)
    (after : List Applicable) : List Applicable → Applicable × List Applicable
  | [] => (best, before ++ after)
  | a :: rest =>
    if rank env a best = .lt then extractBest env (before ++ best :: after) a [] rest
    else extractBest env before best (after ++ [a]) rest

/-- The first so many candidates of the order, best first. -/
def rankedUpTo (env : ClassEnv) : Nat → List Applicable → List Applicable
  | _, [] => []
  | 0, _ => []
  | n + 1, a :: rest =>
    let (best, others) := extractBest env [] a [] rest
    best :: rankedUpTo env n others

/-- The candidates, best first; equals stay in order. -/
def ranked (env : ClassEnv) (l : List Applicable) : List Applicable := rankedUpTo env l.length l

end Applicable

namespace MethodRef

/-- The name of a constructor reference. -/
def constructorRef : String := "new"

/-- What a method reference selects. -/
structure Selection where
  /-- The method or constructor; none for the creation of an array. -/
  applicable : Option Applicable
  /-- The type that it produces; none for a method that returns nothing. -/
  produced : Option JType
deriving Inhabited

/-- The best candidate for arguments of these types. -/
def best? (env : ClassEnv) (depth : Nat) (ref : MethodRef) (name : String) (params : List JType)
    (candidates : List MethodCandidate) : Option Applicable :=
  let site : CallSite := { name, args := params.map .typed, typeArgs := ref.typeArgs, depth }
  (Applicable.ranked env (site.applicable env (fun _ _ => false) candidates)).head?

/-- The constructor that a constructor reference selects. -/
def selectConstructor? (env : ClassEnv) (depth : Nat) (ref : MethodRef) (params : List JType) :
    Option Selection :=
  if !ref.isType then none
  else if ref.receiver.isArray then some { applicable := none, produced := some ref.receiver }
  else
    (ref.best? env depth constructorName params (env.constructorsOf ref.receiver)).map fun a =>
      { applicable := some a, produced := some ref.receiver }

/-- The method that a reference selects.  After a type these are the static methods with all
parameters, then the methods of instances with the first parameter as the receiver; after a value the
methods of instances with all parameters. -/
def selectMethod? (env : ClassEnv) (depth : Nat) (ref : MethodRef) (params : List JType) :
    Option Applicable :=
  let (statics, instances) :=
    (env.methodsNamed ref.receiver ref.name).partition fun c => c.definition.isStatic
  if ref.isType then
    (ref.best? env depth ref.name params statics).or <|
      match params with
      | [] => none
      | first :: rest =>
        if ref.receiver.accepts env first then ref.best? env depth ref.name rest instances else none
  else ref.best? env depth ref.name params instances

/-- What the reference selects for a function with these parameters. -/
def select? (env : ClassEnv) (depth : Nat) (ref : MethodRef) (params : List JType) :
    Option Selection :=
  if ref.name == constructorRef then ref.selectConstructor? env depth params
  else
    (ref.selectMethod? env depth params).map fun a =>
      let t := a.returnType.withoutMember
      { applicable := some a, produced := if t.isVoid then none else some t }

/-- Whether the reference could implement the functional interface.  It could if the parameters
mention type variables, which are settled later. -/
def fits (env : ClassEnv) (depth : Nat) (ref : MethodRef) (target : JType) : Bool :=
  match env.functionType? target with
  | none => false
  | some f =>
    f.params.any JType.mentionsVar ||
      match ref.select? env depth f.params with
      | none => false
      | some s =>
        f.returnType.isVoid || f.returnType.mentionsVar
          || s.produced.any fun t => f.returnType.accepts env t

end MethodRef

/-- The candidates that take the arguments, best first. -/
def CallSite.ranked (env : ClassEnv) (site : CallSite) (candidates : List MethodCandidate) :
    List Applicable :=
  Applicable.ranked env (site.applicable env (MethodRef.fits env site.depth) candidates)

end JavaSema
