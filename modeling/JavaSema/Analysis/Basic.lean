import JavaSema.Analysis.ClassBody
import JavaSema.Analysis.Expr
import JavaSema.Analysis.Stmt

/-!
# The analysis of a compilation unit

`analyze` declares the classes of a unit and then checks their bodies in order.  It gives every
expression, statement and type reference its type, selects overloads and infers type arguments, and
stops at the first node that cannot be resolved.
-/

namespace JavaSema.Analysis

open Source

namespace Checker

/-- The checker of nodes whose parts are checked by another one. -/
def step (parts : Checker) : Checker where
  expr := checkExpr parts
  qualifier := checkQualifier parts
  functional := checkFunctional parts
  methodRef := methodRefOf parts
  stmt := checkStmt parts
  decl := checkDecl parts

/-- The checker of nodes up to a height. -/
def upTo : Nat → Checker
  | 0 => .none
  | height + 1 => step (upTo height)

end Checker

/-- Checks the bodies of the classes of a unit. -/
def checkUnit (u : SourceUnit) : Check Unit := do
  let observers := (← read).observers
  let name := u.packageName.toDotted
  modify fun s =>
    { s with table := { observer := observers.ofUnit, rejects := observers.rejects } }
  inTableFor name (SymbolTable.pushScope .block none)
  inTableFor name (← get).catalog.populate
  u.types.forM (Checker.upTo u.height).decl
  discard (inTableFor name SymbolTable.popScope)

/-- What was found in a unit. -/
structure Summary where
  /-- The classes that the unit declares, local and anonymous ones included. -/
  classes : Nat
  /-- The expressions that have a type. -/
  typed : Nat
  /-- The expressions without one: segments of package names. -/
  untyped : Nat
  /-- The statements. -/
  statements : Nat
  /-- The calls of methods and constructors. -/
  calls : Nat
deriving DecidableEq, Inhabited

/-- The summary of a unit after its analysis. -/
def summarize (u : SourceUnit) (s : State) : Summary :=
  let nodes := u.nodes
  let exprs := nodes.filterMap fun
    | .expr e => some e.id
    | _ => none
  let isTyped (id : NodeId) : Bool := (s.typings.lookup id).isSome
  { classes := s.declared.size
    typed := (exprs.filter isTyped).length
    untyped := (exprs.filter fun id => !isTyped id).length
    statements := (nodes.filter fun
      | .stmt _ => true
      | _ => false).length
    calls := s.calls }

/-- The state before the analysis of a unit, some of whose nodes may have types already. -/
def start (setting : Setting) (u : SourceUnit) (typings : Typings) : State :=
  { catalog := .ofUnit (overlay {} setting.classes) setting.config.hasLanguagePackage u
    typings }

/-- Analyzes a unit some of whose nodes may have types already.  The state is that at the end or at
the point of failure. -/
def analyzeFrom (setting : Setting) (u : SourceUnit) (typings : Typings) :
    Except AnalysisError Summary × State :=
  let steps : Check Unit := do
    declareUnit u
    checkUnit u
  let (result, s) := (steps.run setting).run.run (start setting u typings)
  (result.map fun _ => summarize u s, s)

/-- Analyzes a unit. -/
def analyze (setting : Setting) (u : SourceUnit) : Except AnalysisError Summary × State :=
  analyzeFrom setting u []

end JavaSema.Analysis
