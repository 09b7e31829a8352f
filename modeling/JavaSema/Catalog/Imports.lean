import JavaSema.Source.Tree

/-!
# Imports by form

The imports of a unit, sorted by what they import.  Imports without a name are dropped.
-/

namespace JavaSema

open Source

/-- The imports of a unit. -/
structure Imports where
  /-- Types, each with the simple name that it becomes visible under. -/
  single : List (QualifiedName × String) := []
  /-- Packages and types all of whose types are imported. -/
  onDemand : List QualifiedName := []
  /-- Static members, each with the type that declares it. -/
  staticSingle : List (QualifiedName × String) := []
  /-- Types all of whose static members are imported. -/
  staticOnDemand : List QualifiedName := []
deriving DecidableEq, Inhabited

namespace Imports

/-- Adds an import. -/
def add (i : Imports) : Import → Imports
  | .single path =>
    match path.segments.getLast? with
    | some name => { i with single := i.single ++ [(path, name)] }
    | none => i
  | .onDemand path =>
    if path.segments.isEmpty then i else { i with onDemand := i.onDemand ++ [path] }
  | .staticSingle type member =>
    if type.segments.isEmpty then i
    else { i with staticSingle := i.staticSingle ++ [(type, member)] }
  | .staticOnDemand type =>
    if type.segments.isEmpty then i else { i with staticOnDemand := i.staticOnDemand ++ [type] }

/-- The imports in order. -/
def ofList (imports : List Import) : Imports := imports.foldl add {}

/-- Whether nothing is imported. -/
def isEmpty (i : Imports) : Bool :=
  i.single.isEmpty && i.onDemand.isEmpty && i.staticSingle.isEmpty && i.staticOnDemand.isEmpty

end Imports

end JavaSema
