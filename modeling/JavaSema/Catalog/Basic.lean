import JavaSema.Catalog.Canonical
import JavaSema.Catalog.Imports
import JavaSema.ClassEnv.Members
import JavaSema.Scope.Table
import JavaSema.Source.Node

/-!
# The catalog of type names

Which class a type name denotes in a compilation unit.  A simple name is looked for among the types
declared in the unit, the single imports, the package of the unit, the imports on demand and last the
language package.

## Implementation notes

The catalog remembers what it found: the listing of each package that is imported on demand, the
type behind each such import, and the answer for each simple name.  An answer is not revised when
classes are declared later.
-/

namespace JavaSema

open Source

/-- A map with text keys in which the first entry counts. -/
abbrev NameMap (α : Type) := List (String × α)

/-- Adds an entry unless there is one. -/
def NameMap.addNew {α : Type} (m : NameMap α) (key : String) (value : α) : NameMap α :=
  if (m.lookup key).isSome then m else m ++ [(key, value)]

/-- The entries in ascending order of keys. -/
def NameMap.sorted {α : Type} (m : NameMap α) : NameMap α :=
  m.mergeSort fun x y => decide (x.1 ≤ y.1)

/-- What the type names of a unit denote. -/
structure Catalog where
  /-- The package of the unit. -/
  package : PackageName := {}
  /-- Whether the classes of the language package are visible. -/
  hasLanguagePackage : Bool := true
  /-- The imports of the unit. -/
  imports : Imports := {}
  /-- The types that the unit declares, by simple name. -/
  declared : NameMap String := []
  /-- The binary names of all classes that the unit declares. -/
  binaries : List String := []
  /-- The binary names of declarations, the latest first. -/
  names : List (NodeId × String) := []
  /-- The types that are imported one by one, by simple name. -/
  single : NameMap String := []
  /-- The static members that are imported one by one, each after its class. -/
  staticSingle : List (String × String) := []
  /-- The classes all of whose static members are imported. -/
  staticOnDemand : List String := []
  /-- How many local and anonymous classes each class has so far. -/
  counters : NameMap Nat := []
  /-- The classes of packages, as remembered. -/
  listings : NameMap (List String) := []
  /-- The types that imports on demand denote, as remembered. -/
  owners : NameMap (Option String) := []
  /-- What simple names denote, as remembered. -/
  answers : NameMap (Option String) := []

instance : Inhabited Catalog := ⟨{}⟩

/-- The package whose classes are visible everywhere. -/
def languagePackage : String := "java.lang"

namespace Catalog

/-! ### Registration -/

/-- The declarations with their binary names and all member classes below them, level by level. -/
def levels : Nat → List (Decl × String) → List (Decl × String)
  | 0, _ => []
  | height + 1, level =>
    level ++ levels height (level.flatMap fun (d, binary) =>
      d.nestedTypes.map fun n => (n, BinaryName.nested binary n.name))

/-- The classes that a unit declares outside of bodies, with their binary names. -/
def declarations (u : SourceUnit) : List (Decl × String) :=
  levels u.height (u.types.map fun d => (d, u.packageName.qualify d.name))

/-- Names a declaration. -/
def assign (c : Catalog) (d : Decl) (binary : String) : Catalog :=
  { c with binaries := binary :: c.binaries, names := (d.id, binary) :: c.names }

/-- Names a declaration outside of bodies, whose simple name becomes visible. -/
def declare (c : Catalog) (d : Decl) (binary : String) : Catalog :=
  { c.assign d binary with declared := c.declared.addNew d.name binary }

/-- The catalog of a unit. -/
def ofUnit (env : ClassEnv) (hasLanguagePackage : Bool) (u : SourceUnit) : Catalog :=
  let imports := Imports.ofList u.imports
  let load := fun (path : QualifiedName) => env.loadCanonical path.toDotted
  let c : Catalog := { package := u.packageName, hasLanguagePackage, imports }
  let c := (declarations u).foldl (fun c (d, binary) => c.declare d binary) c
  { c with
    single := imports.single.foldl
      (fun m (path, name) =>
        match load path with
        | some binary => m.addNew name binary
        | none => m)
      []
    staticSingle := imports.staticSingle.filterMap fun (type, member) =>
      (load type).map fun owner => (owner, member)
    staticOnDemand := imports.staticOnDemand.filterMap load }

/-- The binary name of a declaration, if it has one yet. -/
def binaryName? (c : Catalog) (d : Decl) : Option String := c.names.lookup d.id

/-- Whether the unit declares a class of that binary name. -/
def isDeclared (c : Catalog) (binary : String) : Bool := c.binaries.contains binary

/-- Names a local or anonymous class inside a class: its number among them and its simple name
follow a dollar sign. -/
def nameLocal (c : Catalog) (d : Decl) (enclosing simple : String) : String × Catalog :=
  let n := (c.counters.lookup enclosing).getD 0 + 1
  let binary := BinaryName.nested enclosing (toString n ++ simple)
  (binary, { c.assign d binary with counters := (enclosing, n) :: c.counters })

/-- Names the member classes of a class, and theirs, down to the given height. -/
def nameNestedIn : Nat → Catalog → String → List Decl → Catalog
  | 0, c, _, _ => c
  | height + 1, c, outer, ds =>
    ds.foldl
      (fun c d =>
        let binary := BinaryName.nested outer d.name
        nameNestedIn height (c.assign d binary) binary d.nestedTypes)
      c

/-- Names the member classes of a class that has a name, and theirs. -/
def nameNested (c : Catalog) (d : Decl) : Catalog :=
  match c.binaryName? d with
  | some binary => nameNestedIn (Node.decl d).height c binary d.nestedTypes
  | none => c

/-! ### Lookup -/

/-- The binary name of a member class of a class, declared or inherited. -/
def memberClass? (c : Catalog) (env : ClassEnv) (owner simple : String) : Option String :=
  let direct := BinaryName.nested owner simple
  if c.isDeclared direct || env.hasClass direct then some direct
  else env.findMemberClass? owner simple

/-- The binary name after a chain of member classes. -/
def memberPath? (c : Catalog) (env : ClassEnv) (owner : String) : List String → Option String
  | [] => some owner
  | s :: rest => (c.memberClass? env owner s).bind fun member => c.memberPath? env member rest

/-- The classes of a package, as remembered from the first time they were asked for. -/
def listing (env : ClassEnv) (package : String) : StateM Catalog (List String) := do
  match (← get).listings.lookup package with
  | some classes => return classes
  | none =>
    let classes := env.packageClasses package
    modify fun c => { c with listings := (package, classes) :: c.listings }
    return classes

/-- The type that an import on demand denotes, as remembered from the first time. -/
def ownerOf (env : ClassEnv) (dotted : String) : StateM Catalog (Option String) := do
  match (← get).owners.lookup dotted with
  | some owner => return owner
  | none =>
    let owner := env.loadCanonical dotted
    modify fun c => { c with owners := (dotted, owner) :: c.owners }
    return owner

/-- What a simple name denotes through imports on demand. -/
def searchOnDemand (env : ClassEnv) (simple : String) :
    List QualifiedName → StateM Catalog (Option String)
  | [] => return none
  | path :: rest => do
    let dotted := path.toDotted
    if (← listing env dotted).contains simple then return some (dotted ++ "." ++ simple)
    let owner ← ownerOf env dotted
    let c ← get
    match owner.bind (c.memberClass? env · simple) with
    | some member => return some member
    | none => searchOnDemand env simple rest

/-- What a simple name denotes, without looking at remembered answers. -/
def search (env : ClassEnv) (simple : String) : StateM Catalog (Option String) := do
  let c ← get
  match (c.declared.lookup simple).or (c.single.lookup simple) with
  | some binary => return some binary
  | none =>
    let samePackage := c.package.qualify simple
    if env.hasClass samePackage then return some samePackage
    match ← searchOnDemand env simple c.imports.onDemand with
    | some binary => return some binary
    | none =>
      let inLanguage := languagePackage ++ "." ++ simple
      return if c.hasLanguagePackage && env.hasClass inLanguage then some inLanguage else none

/-- What a simple name denotes, as remembered from the first time it was asked for. -/
def resolve (env : ClassEnv) (simple : String) : StateM Catalog (Option String) := do
  match (← get).answers.lookup simple with
  | some answer => return answer
  | none =>
    let answer ← search env simple
    modify fun c => { c with answers := (simple, answer) :: c.answers }
    return answer

/-- What a qualified name denotes: member classes of what its first segment denotes, else a
canonical name. -/
def resolveQualified (env : ClassEnv) (name : QualifiedName) : StateM Catalog (Option String) := do
  match name.segments with
  | [] => return none
  | first :: rest =>
    match ← resolve env first with
    | some head => return (← get).memberPath? env head rest
    | none => return if rest.isEmpty then none else env.loadCanonical name.toDotted

/-- The classes whose static member of that name is imported, those imported one by one first. -/
def staticOwners (c : Catalog) (name : String) : List String :=
  let named := (c.staticSingle.filter fun (_, member) => member == name).map Prod.fst
  c.staticOnDemand.foldl (fun out owner => if out.contains owner then out else out ++ [owner]) named

/-- Binds the simple names of declared and of imported types in the innermost scope, each group in
ascending order. -/
def populate (c : Catalog) : TableM Unit := do
  let imported := c.single.filter fun (simple, _) => (c.declared.lookup simple).isNone
  (c.declared.sorted ++ NameMap.sorted imported).forM fun (simple, binary) => do
    let _ ← SymbolTable.pushSymbol { name := simple, kind := .type, type := .ofClass binary }

end Catalog

end JavaSema
