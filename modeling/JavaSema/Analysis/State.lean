import JavaSema.Analysis.Error
import JavaSema.Catalog.Basic
import JavaSema.Source.Render

/-!
# The state of an analysis

What an analysis is given (`Setting`), what it knows at a point (`State`), and the operations by
which it moves on.  An operation that fails keeps what was done before it: recorded types, declared
classes and open scopes.

## Implementation notes

Recorded types form a list in which the latest entry of a node counts.
-/

namespace JavaSema.Analysis

open Source

/-- The choices that a caller has. -/
structure Config where
  /-- Whether the classes of the language package are visible without an import. -/
  hasLanguagePackage : Bool := true
  /-- Whether a bare name may denote an inherited field. -/
  findsInheritedFields : Bool := true
  /-- How deep types are taken apart to infer type arguments. -/
  inferenceDepth : Nat := 32
deriving DecidableEq, Inhabited

/-- Who is told of what happens to symbols. -/
structure Observers where
  /-- The observer of all symbols of the unit. -/
  ofUnit : Option String := none
  /-- The observer of the symbols that belong to a node. -/
  ofNode : Node → Option String := fun _ => none
  /-- Which reports are rejected. -/
  rejects : Judge := .lenient

/-- What an analysis is given. -/
structure Setting where
  /-- The classes outside of the unit. -/
  classes : ClassEnv
  /-- The choices of the caller. -/
  config : Config := {}
  /-- Who is told of what happens to symbols. -/
  observers : Observers := {}

/-- What a `return` statement returns from. -/
inductive Frame where
  /-- A method or constructor. -/
  | method (returnType : JType)
  /-- An initializer, from which nothing is returned. -/
  | initializer
  /-- The block of a lambda that should produce `expected`, with what it returned so far. -/
  | lambda (expected : JType) (returns : List JType)
deriving Inhabited

/-- The types recorded for nodes, the latest first. -/
abbrev Typings := List (NodeId × JType)

/-- What an analysis knows at a point. -/
structure State where
  /-- The classes of the unit that are declared so far. -/
  declared : ClassTable := {}
  /-- What type names denote. -/
  catalog : Catalog := {}
  /-- The bindings in scope. -/
  table : SymbolTable := {}
  /-- What is being returned from, innermost first. -/
  frames : List Frame := []
  /-- The types recorded for nodes. -/
  typings : Typings := []
  /-- The expressions that turned out to name a type. -/
  typeNames : List NodeId := []
  /-- The number of calls that were resolved. -/
  calls : Nat := 0

instance : Inhabited State := ⟨{}⟩

/-- A step of an analysis. -/
abbrev Check := ReaderT Setting (ExceptT AnalysisError (StateM State))

/-! ### Classes -/

/-- The classes of a unit in front of those outside of it.  The names of the former are arranged, so
that the order of declarations is not seen. -/
def overlay (declared : ClassTable) (outside : ClassEnv) : ClassEnv where
  load name :=
    match declared.get? name with
    | some d => .ok d
    | none => outside.load name
  hasClass name := declared.contains name || outside.hasClass name
  packageClasses package :=
    Text.dedupAdjacent
      (Text.sortTexts (declared.packageClasses package ++ outside.packageClasses package))
  hasPackage package :=
    !(declared.packageClasses package).isEmpty || outside.hasPackage package
  names := Text.arrange (declared.classes.map ClassDef.name) ++ outside.names
  mem_names {name d} h := by
    cases hg : declared.get? name with
    | some c =>
      exact List.mem_append_left _ (Text.mem_arrange.mpr
        (List.mem_map.mpr ⟨c, ClassTable.mem_classes_of_get? hg, ClassTable.name_of_get? hg⟩))
    | none => exact List.mem_append_right _ (outside.mem_names (by simpa [hg] using h))

/-- The classes that can be referred to. -/
def classes : Check ClassEnv := do
  return overlay (← get).declared (← read).classes

/-- Declares a class of the unit. -/
def declare (d : ClassDef) : Check Unit :=
  modify fun s => { s with declared := s.declared.insert d }

/-! ### Failing -/

/-- How a node is named in a failure. -/
def title : Node → String
  | .decl d => if d.isAnonymous then "<anonymous>" else d.name
  | n => n.text

/-- Fails at something that has a name. -/
def failNamed {α : Type} (name : String) (cause : ResolveError) : Check α :=
  throw { expression := name, cause }

/-- Fails at a node. -/
def failAt {α : Type} (n : Node) (cause : ResolveError) : Check α := failNamed (title n) cause

/-- The outcome of a step as a value.  What the step did stays done. -/
def attempt {α : Type} (step : Check α) : Check (Except AnalysisError α) :=
  fun setting => (step setting).run

/-- The value of an outcome. -/
def settle {α : Type} : Except AnalysisError α → Check α
  | .ok a => pure a
  | .error e => throw e

/-- The class of that name, or a failure at the node. -/
def loadAt (n : Node) (name : String) : Check ClassDef := do
  match (← classes).load name with
  | .ok d => return d
  | .error e => failAt n (.noClass e)

/-! ### Parts of the state -/

/-- Looks a name up in the catalog. -/
def inCatalog {α : Type} (op : StateM Catalog α) : Check α :=
  modifyGet fun s =>
    let (a, catalog) := op.run s.catalog
    (a, { s with catalog })

/-- Runs an operation on the symbol table, whose failure stays a value. -/
def tryTable {α : Type} (op : TableM α) : Check (Except ResolveError α) :=
  modifyGet fun s =>
    let (result, table) := op.run.run s.table
    (result, { s with table })

/-- Runs an operation on the symbol table.  Its failure is one at the node. -/
def inTable {α : Type} (n : Node) (op : TableM α) : Check α := do
  match ← tryTable op with
  | .ok a => return a
  | .error e => failAt n e

/-- Runs an operation on the symbol table.  Its failure is one at what has that name. -/
def inTableFor {α : Type} (name : String) (op : TableM α) : Check α := do
  match ← tryTable op with
  | .ok a => return a
  | .error e => failNamed name e

/-- The observer of the symbols that belong to a node. -/
def observerOf (n : Node) : Check (Option String) := do
  return (← read).observers.ofNode n

/-- Records the type of a node. -/
def record (id : NodeId) (t : JType) : Check Unit :=
  modify fun s => { s with typings := (id, t) :: s.typings }

/-- The type recorded for a node. -/
def typeOf? (id : NodeId) : Check (Option JType) := do
  return (← get).typings.lookup id

/-- Notes that the expression names a type. -/
def markTypeName (e : Expr) : Check Unit :=
  modify fun s => { s with typeNames := e.id :: s.typeNames }

/-- Whether the expression names a type. -/
def namesType (e : Expr) : Check Bool := do
  return (← get).typeNames.contains e.id

/-! ### Scopes and frames -/

/-- Runs a step, then closes the innermost scope even if the step failed.  The failure of the step
counts before that of closing. -/
def closing {α : Type} (close : Check Unit) (step : Check α) : Check α := do
  let result ← attempt step
  let closed ← attempt close
  let a ← settle result
  settle closed
  return a

/-- Runs a step inside a block that belongs to a node. -/
def inBlock {α : Type} (n : Node) (step : Check α) : Check α := do
  let observer ← observerOf n
  inTable n (SymbolTable.pushScope .block observer)
  closing (discard (inTable n SymbolTable.popScope)) step

/-- Closes scopes until so many are open. -/
def unwindTo (depth : Nat) : Check Unit := do
  let t := (← get).table
  let rec go : Nat → Check Unit
    | 0 => pure ()
    | n + 1 => do
      let _ ← inTableFor "<scope>" SymbolTable.popScope
      go n
  go (t.depth - depth)

/-- Runs a step inside a frame and gives the frame as it is afterwards. -/
def withFrame {α : Type} (frame : Frame) (step : Check α) : Check (α × Option Frame) := do
  modify fun s => { s with frames := frame :: s.frames }
  let result ← attempt step
  let last := (← get).frames.head?
  modify fun s => { s with frames := s.frames.drop 1 }
  return (← settle result, last)

/-- The type that a `return` should produce, unless nothing is returned. -/
def returnTarget (frames : List Frame) : Option JType :=
  (frames.findSome? fun
    | .method t => some t
    | .lambda expected _ => some expected
    | .initializer => none).filter fun t => !t.isVoid

/-- Notes what a `return` produced if it returns from a lambda. -/
def noteReturn (t : JType) : List Frame → List Frame
  | .lambda expected returns :: rest => .lambda expected (returns ++ [t]) :: rest
  | frames => frames

/-! ### The current class -/

/-- The name of the innermost class whose body is open, or a failure at the node. -/
def currentClassName (n : Node) : Check String := do
  match (← get).table.innermostClass? with
  | some name => return name
  | none => failAt n (.unbalancedScope .noClass)

/-- The innermost class whose body is open, or a failure at the node. -/
def currentClass (n : Node) : Check ClassDef := do
  loadAt n (← currentClassName n)

end JavaSema.Analysis
