import JavaSema.Analysis.Declare
import JavaSema.Analysis.Overload

/-!
# Checkers

A checker says how each kind of node is analyzed.  The rules for a node take the checker of its parts
as an argument; the analysis ties the knot over the height of the tree.
-/

namespace JavaSema.Analysis

open Source

/-- What a name before a dot denotes. -/
inductive Denotation where
  /-- A value, or a type, of that type. -/
  | value (t : JType)
  /-- A package, or the first segments of a package name. -/
  | package (dotted : String)
deriving Inhabited

/-- What a lambda or method reference turned out to be. -/
structure Outcome where
  /-- The functional interface that it implements. -/
  interfaceType : JType
  /-- The type that it produces, if any. -/
  produced : Option JType
  /-- The type that the method of the interface declares to return. -/
  declaredReturn : JType
deriving Inhabited

/-- How the kinds of nodes are analyzed. -/
structure Checker where
  /-- Types an expression whose context asks for a type, and records the type. -/
  expr : Expr → Option JType → Check JType
  /-- Finds out what an expression before a dot denotes. -/
  qualifier : Expr → Check Denotation
  /-- Types a lambda or method reference against a target type. -/
  functional : Expr → JType → Check Outcome
  /-- Finds out what stands before and after the colons of a method reference. -/
  methodRef : Expr → Check MethodRef
  /-- Types a statement, and records the type. -/
  stmt : Stmt → Check JType
  /-- Checks the body of a class. -/
  decl : Decl → Check Unit

/-- The checker that gives up on every node. -/
def Checker.none : Checker where
  expr e _ := failAt (.expr e) .tooHigh
  qualifier e := failAt (.expr e) .tooHigh
  functional e _ := failAt (.expr e) .tooHigh
  methodRef e := failAt (.expr e) .tooHigh
  stmt s := failAt (.stmt s) .tooHigh
  decl d := failAt (.decl d) .tooHigh

/-- Whether the expression needs a target type. -/
def isFunctional (e : Expr) : Bool :=
  match e.shape with
  | .lambda _ _ | .methodRef _ _ _ => true
  | _ => false

/-- The first field of that name that a type offers, read as a value. -/
def fieldValue (f : FieldCandidate) : JType := f.definition.type.readType.withMember f.member

/-- The static field of that name that a type offers. -/
def staticField? (env : ClassEnv) (owner : JType) (name : String) : Option FieldCandidate :=
  (env.findField? owner name).filter fun f => f.definition.isStatic

end JavaSema.Analysis
