import JavaSema.Scope.Error

/-!
# Failures of the analysis

The analysis stops at the first node that it cannot make sense of.
-/

namespace JavaSema

/-- Where the analysis stopped, and why. -/
structure AnalysisError where
  /-- The text of the innermost node that could not be resolved. -/
  expression : String
  /-- The reason. -/
  cause : ResolveError
deriving Inhabited

namespace AnalysisError

/-- The text of the error. -/
def message (e : AnalysisError) : String :=
  "cannot analyze `" ++ e.expression ++ "`: " ++ e.cause.message

/-- Whether no candidate took the arguments. -/
def isOverloadFailure (e : AnalysisError) : Bool :=
  match e.cause with
  | .noCandidate _ _ _ => true
  | _ => false

/-- Whether a name had no binding. -/
def isSymbolFailure (e : AnalysisError) : Bool :=
  match e.cause with
  | .noSymbol _ => true
  | _ => false

/-- Whether a class could not be had. -/
def isClassFailure (e : AnalysisError) : Bool :=
  match e.cause with
  | .noClass _ => true
  | _ => false

end AnalysisError

end JavaSema
