import JavaSema.ClassDef.OfClassFile
import JavaSema.ClassEnv.Basic
import JavaSema.ClassPath.Index

/-!
# Classes of a class path

A `Loader` reads classes from the class files of a class path and keeps those that it could read.
`ClassPath.toEnv` is the environment that a class path over fixed files stands for.
-/

namespace JavaSema

/-- The class that a class file declares. -/
def ClassFile.declaredName (f : ClassFile) : String := BinaryName.ofInternal f.name

namespace ClassPath

/-- The class in the content of a class file that was found under the name. -/
def define (name : String) (data : List UInt8) : Except LoadError ClassDef := do
  let malformed := fun (e : ClassFile.Error) => LoadError.malformed name e.message
  let f ← (ClassFile.parse data).mapError malformed
  if f.declaredName ≠ name then throw (.incompatible name f.declaredName)
  (ClassDef.ofClassFile f).mapError malformed

/-- The class under the name, given what reading its class file gave. -/
def defineRead (name : String) :
    Except Error (Option (List UInt8)) → Except LoadError ClassDef
  | .error e => .error (.malformed name e.message)
  | .ok none => .error (.notFound name)
  | .ok (some data) => define name data

/-- A class path and the classes that were read from it. -/
structure Loader where
  /-- The class path. -/
  path : ClassPath
  /-- The classes read so far. -/
  cache : ClassTable := {}

namespace Loader

/-- The class of that name.  A class that was read stays; a failure is not remembered. -/
def load (files : FileTree) (name : String) (loader : Loader) :
    Except LoadError ClassDef × Loader :=
  match loader.cache.get? name with
  | some d => (.ok d, loader)
  | none =>
    let (answer, path) := loader.path.readClass files name
    match defineRead name answer with
    | .ok d => (.ok d, { path, cache := loader.cache.insert d })
    | .error e => (.error e, { loader with path })

end Loader

/-- The names that the class files among the contents declare. -/
def declaredNames (files : FileTree) : List String :=
  files.blobs.filterMap fun data => (ClassFile.parse data).toOption.map ClassFile.declaredName

theorem mem_declaredNames_of_define {files : FileTree} {name : String} {data : List UInt8}
    {d : ClassDef} (hd : data ∈ files.blobs) (h : define name data = .ok d) :
    name ∈ declaredNames files := by
  unfold define at h
  cases hp : ClassFile.parse data with
  | error e => simp [hp, mapError_error, bind, Except.bind] at h
  | ok f =>
    simp only [hp, mapError_ok, bind, Except.bind] at h
    split at h
    · contradiction
    · next hn =>
      refine List.mem_filterMap.mpr ⟨data, hd, ?_⟩
      simp only [hp, Except.toOption, Option.map_some]
      exact congrArg some (Decidable.not_not.mp hn)

theorem mem_blobs_of_read {files : FileTree} {path : String} {cp : ClassPath}
    {data : List UInt8} (h : (cp.read files path).1 = .ok (some data)) : data ∈ files.blobs := by
  unfold read at h
  split at h
  · next location _ _ =>
    cases hr : readResource files location with
    | error e => simp [hr, Except.map] at h
    | ok b =>
      obtain ⟨rfl⟩ : b = data := by simpa [hr, Except.map] using h
      exact Entry.mem_blobs_of_read hr
  · simp at h
  · simp at h

/-- The class path with all entries scanned that can be. -/
def scanAll (files : FileTree) (cp : ClassPath) : ClassPath :=
  ⟨cp.indexes.map fun index => index.scanPast files fun _ => false⟩

/-- The environment of the classes that a class path has over fixed files.  Entries that cannot be
listed have no classes. -/
def toEnv (files : FileTree) (cp : ClassPath) : ClassEnv :=
  let full := cp.scanAll files
  { load := fun name => defineRead name (full.readClass files name).1
    hasClass := fun name => (full.hasClass files name).1
    packageClasses := fun package => (full.packageClasses files package).1
    hasPackage := fun package => (full.hasPackage files package).1
    names := declaredNames files
    mem_names := by
      intro name d h
      cases hr : (full.readClass files name).1 with
      | error e => simp [hr, defineRead] at h
      | ok o =>
        cases o with
        | none => simp [hr, defineRead] at h
        | some data =>
          rw [hr] at h
          exact mem_declaredNames_of_define (mem_blobs_of_read hr) h }

end ClassPath

end JavaSema
