import JavaSema.ClassDef.Basic

/-!
# Class environments

A class environment answers two kinds of questions: what a class looks like, and which names exist.
A `ClassTable` is an environment held in memory, and `ClassEnv.layered` asks several environments in
turn.

## Implementation notes

An environment lists names among which are all the classes that it can load.  Walks over the class
hierarchy visit each of them once, which bounds their length.
-/

namespace JavaSema

/-- A source of classes. -/
structure ClassEnv where
  /-- The class with that binary name. -/
  load : String → Except LoadError ClassDef
  /-- Whether a class has that binary name.  It need not be readable. -/
  hasClass : String → Bool
  /-- The binary names, without the package, of the classes of a package. -/
  packageClasses : String → List String
  /-- Whether the package is known. -/
  hasPackage : String → Bool
  /-- Names among which are all classes that can be loaded. -/
  names : List String
  /-- Each class that can be loaded is listed. -/
  mem_names : ∀ {name : String} {d : ClassDef}, load name = .ok d → name ∈ names

namespace ClassEnv

/-- The class with that binary name, if it can be loaded. -/
def find? (env : ClassEnv) (name : String) : Option ClassDef :=
  (env.load name).toOption

/-- Whether the class can be loaded. -/
def isLoadable (env : ClassEnv) (name : String) : Bool :=
  (env.find? name).isSome

theorem mem_names_of_find? {env : ClassEnv} {name : String} {d : ClassDef}
    (h : env.find? name = some d) : name ∈ env.names := by
  unfold find? at h
  cases hl : env.load name with
  | error e => simp [hl, Except.toOption] at h
  | ok d' => exact env.mem_names hl

end ClassEnv

/-- Classes held in memory.  Each name occurs once. -/
structure ClassTable where
  /-- The classes in the order in which their names were first inserted. -/
  classes : List ClassDef := []
deriving Inhabited

namespace ClassTable

/-- The class of that name. -/
def get? (table : ClassTable) (name : String) : Option ClassDef :=
  table.classes.find? fun d => d.name == name

/-- Whether the table holds a class of that name. -/
def contains (table : ClassTable) (name : String) : Bool :=
  (table.get? name).isSome

/-- Replaces the class of the same name in the list, or adds the class at the end. -/
def put (d : ClassDef) : List ClassDef → List ClassDef
  | [] => [d]
  | c :: cs => if c.name == d.name then d :: cs else c :: put d cs

/-- Adds the class, in place of the one that has its name. -/
def insert (table : ClassTable) (d : ClassDef) : ClassTable :=
  ⟨put d table.classes⟩

/-- A table of the classes, where a later one replaces an earlier one of the same name. -/
def ofList (classes : List ClassDef) : ClassTable :=
  classes.foldl insert {}

/-- The number of classes. -/
def size (table : ClassTable) : Nat := table.classes.length

/-- The binary names in ascending order. -/
def classNames (table : ClassTable) : List String :=
  Text.sortTexts (table.classes.map ClassDef.name)

/-- The class of that name, or the reason why there is none. -/
def load (table : ClassTable) (name : String) : Except LoadError ClassDef :=
  match table.get? name with
  | some d => .ok d
  | none => .error (.notFound name)

/-- The binary names, without the package, of the classes of a package, in ascending order. -/
def packageClasses (table : ClassTable) (package : String) : List String :=
  Text.sortTexts <| table.classes.filterMap fun d =>
    match Text.splitLast? '.' d.name with
    | some (pkg, simple) => if pkg == package then some simple else none
    | none => if package.isEmpty then some d.name else none

theorem name_of_get? {table : ClassTable} {name : String} {d : ClassDef}
    (h : table.get? name = some d) : d.name = name := by
  simpa using List.find?_some h

theorem mem_classes_of_get? {table : ClassTable} {name : String} {d : ClassDef}
    (h : table.get? name = some d) : d ∈ table.classes :=
  List.mem_of_find?_eq_some h

theorem load_eq_ok {table : ClassTable} {name : String} {d : ClassDef} :
    table.load name = .ok d ↔ table.get? name = some d := by
  unfold load
  cases table.get? name <;> simp

/-- The table as an environment. -/
def toEnv (table : ClassTable) : ClassEnv where
  load := table.load
  hasClass := table.contains
  packageClasses := table.packageClasses
  hasPackage package := !(table.packageClasses package).isEmpty
  names := table.classes.map ClassDef.name
  mem_names h :=
    have h := load_eq_ok.mp h
    List.mem_map.mpr ⟨_, mem_classes_of_get? h, name_of_get? h⟩

end ClassTable

namespace ClassEnv

/-- The answer of the first environment that knows the class, be it an error other than `notFound`. -/
def loadFirst (name : String) : List ClassEnv → Except LoadError ClassDef
  | [] => .error (.notFound name)
  | env :: rest =>
    match env.load name with
    | .error (.notFound _) => loadFirst name rest
    | answer => answer

theorem exists_of_loadFirst {name : String} {layers : List ClassEnv} {d : ClassDef}
    (h : loadFirst name layers = .ok d) : ∃ env ∈ layers, env.load name = .ok d := by
  induction layers with
  | nil => simp [loadFirst] at h
  | cons env rest ih =>
    rw [loadFirst] at h
    split at h
    · obtain ⟨e, he, hl⟩ := ih h
      exact ⟨e, List.mem_cons_of_mem _ he, hl⟩
    · exact ⟨env, List.mem_cons_self, h⟩

/-- The environment that asks each layer in turn. -/
def layered (layers : List ClassEnv) : ClassEnv where
  load name := loadFirst name layers
  hasClass name := layers.any fun env => env.hasClass name
  packageClasses package :=
    Text.dedupAdjacent (Text.sortTexts (layers.flatMap fun env => env.packageClasses package))
  hasPackage package := layers.any fun env => env.hasPackage package
  names := layers.flatMap ClassEnv.names
  mem_names h :=
    have ⟨env, he, hl⟩ := exists_of_loadFirst h
    List.mem_flatMap.mpr ⟨env, he, env.mem_names hl⟩

/-- The text of an environment with that many layers in diagnostics. -/
def describeLayers (count : Nat) : String :=
  "LayeredEnv \x7b layers: " ++ toString count ++ " \x7d"

end ClassEnv

end JavaSema
