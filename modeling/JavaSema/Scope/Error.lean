import JavaSema.ClassDef.Basic
import JavaSema.JType.Print

/-!
# Failures of resolution

The causes for which a name, a symbol or a call cannot be resolved, and their texts.
-/

namespace JavaSema

/-- What a list of arguments is given to. -/
inductive Callable where
  | method
  | constructor
  | lambda
  | methodReference
  | operator
  | forEach
deriving DecidableEq, Inhabited

/-- The word for it in messages. -/
def Callable.word : Callable → String
  | method => "method"
  | constructor => "constructor"
  | lambda => "lambda"
  | methodReference => "method reference"
  | operator => "operator"
  | forEach => "for-each"

/-- How the scopes were misused. -/
inductive ScopeFault where
  /-- There is no scope to leave. -/
  | nothingToPop
  /-- There is no scope to bind a symbol in. -/
  | noScope
  /-- No class body is open. -/
  | noClass
deriving DecidableEq, Inhabited

/-- The text of the fault. -/
def ScopeFault.message : ScopeFault → String
  | nothingToPop => "pop without a matching push"
  | noScope => "symbol pushed outside any scope"
  | noClass => "no enclosing class"

/-- Why a name, a symbol or a call could not be resolved. -/
inductive ResolveError where
  /-- A type name denotes no class that can be loaded. -/
  | noClass (cause : LoadError)
  /-- A name has no binding and no member to fall back to. -/
  | noSymbol (name : String)
  /-- No candidate takes the arguments. -/
  | noCandidate (what : Callable) (name : String) (args : List JType)
  /-- A symbol has no resolved type. -/
  | malformedSymbol (name : String)
  /-- The scopes were misused. -/
  | unbalancedScope (fault : ScopeFault)
  /-- An observer rejected an event. -/
  | rejected
  /-- A node is higher than was allowed for. -/
  | tooHigh
deriving Inhabited

namespace ResolveError

/-- The failure to find a class of that name. -/
def classNotFound (name : String) : ResolveError := .noClass (.notFound name)

/-- The text of the error. -/
def message : ResolveError → String
  | noClass cause => "cannot resolve class: " ++ cause.message
  | noSymbol name => "cannot resolve symbol `" ++ name ++ "`"
  | noCandidate what name args =>
    "no applicable " ++ what.word ++ " for `" ++ name ++ "(" ++ Text.join ", " (args.map JType.text)
      ++ ")`"
  | malformedSymbol name => "symbol `" ++ name ++ "` has no resolved type"
  | unbalancedScope fault => "unbalanced scope stack: " ++ fault.message
  | rejected => "symbol action failed"
  | tooHigh => "tree too high"

end ResolveError

end JavaSema
