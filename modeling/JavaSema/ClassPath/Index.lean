import JavaSema.ClassPath.Entry
import JavaSema.ClassPath.Trie
import JavaSema.Name

/-!
# Indexes of class paths

An index scans its entries one at a time, in order, and only as far as a question needs.  What it
has learnt stays in a `PathTrie`; an entry is never scanned twice, also if it could not be listed.
Every listing goes through `Index.listEntry`, which keeps a record of it.

A `ClassPath` is a list of indexes, each of which is asked before those after it.
-/

namespace JavaSema

/-- Where a resource was found. -/
structure ResourceLocation where
  /-- The entry that owns the resource. -/
  entry : ClassPath.Entry
  /-- The path of the resource as seen from the entry. -/
  path : String
deriving DecidableEq, Inhabited

namespace ClassPath

/-- Entries in order, and what is known of those that were scanned. -/
structure Index where
  /-- The entries in the order in which they are searched. -/
  entries : List Entry := []
  /-- The number of entries scanned so far. -/
  scanned : Nat := 0
  /-- The positions of the entries that were listed, one for each listing and the first one first. -/
  listings : List Nat := []
  /-- The resources of the entries scanned so far. -/
  trie : PathTrie := {}

/-- A path with slashes between its segments and none at its ends. -/
def normalize (path : String) : String :=
  let slash := fun c => c == '/'
  let s := (Text.replaceChar '\\' '/' path).toList.dropWhile slash
  String.ofList (s.reverse.dropWhile slash).reverse

/-- The directory of a package that is written with dots or slashes. -/
def packageDirectory (package : String) : String :=
  normalize (Text.replaceChar '.' '/' package)

namespace Index

/-- The number of entries that were not scanned yet. -/
def pending (index : Index) : Nat := index.entries.length - index.scanned

/-- Lists the entry at the position, and records that it was listed, also if that fails. -/
def listEntry (files : FileTree) (position : Nat) (entry : Entry) (index : Index) :
    Except Error (List String) × Index :=
  (entry.list files, { index with listings := index.listings ++ [position] })

/-- Scans the next entry, and says whether there was one.  An entry that does not exist has no
resources.  An entry counts as scanned also if it cannot be listed. -/
def scanNext (files : FileTree) (index : Index) : Except Error Bool × Index :=
  match index.entries[index.scanned]? with
  | none => (.ok false, index)
  | some entry =>
    let next := { index with scanned := index.scanned + 1 }
    if !files.contains entry.path then (.ok true, next)
    else
      let (listing, next) := next.listEntry files index.scanned entry
      match listing with
      | .error e => (.error e, next)
      | .ok paths => (.ok true, { next with trie := next.trie.insertAll paths index.scanned })

theorem scanned_lt_of_scanNext {files : FileTree} {index : Index}
    (h : (index.scanNext files).1 ≠ .ok false) : index.scanned < index.entries.length := by
  unfold scanNext at h
  split at h
  · simp at h
  · next e he => exact (List.getElem?_eq_some_iff.mp he).1

theorem entries_scanNext (files : FileTree) (index : Index) :
    (index.scanNext files).2.entries = index.entries := by
  unfold scanNext
  split
  · rfl
  · dsimp only [listEntry]
    split
    · rfl
    · split <;> rfl

theorem scanned_scanNext {files : FileTree} {index : Index}
    (h : (index.scanNext files).1 ≠ .ok false) :
    (index.scanNext files).2.scanned = index.scanned + 1 := by
  unfold scanNext at h ⊢
  split at h
  · simp at h
  · next e he =>
    simp only [listEntry]
    split
    · rfl
    · split <;> rfl

/-- A scan leaves fewer entries to be scanned. -/
theorem pending_scanNext {files : FileTree} {index : Index}
    (h : (index.scanNext files).1 ≠ .ok false) :
    (index.scanNext files).2.pending < index.pending := by
  have hlt := scanned_lt_of_scanNext h
  simp only [pending, entries_scanNext, scanned_scanNext h]
  omega

/-- Scans entries until `done` holds of what is known.  The first entry that cannot be listed ends
the scan. -/
def scanUntil (files : FileTree) (done : PathTrie → Bool) (index : Index) :
    Except Error Unit × Index :=
  if done index.trie then (.ok (), index)
  else
    match _h : index.scanNext files with
    | (.ok true, next) => scanUntil files done next
    | (.ok false, next) => (.ok (), next)
    | (.error e, next) => (.error e, next)
termination_by index.pending
decreasing_by
  have hn : (index.scanNext files).2.pending < index.pending := pending_scanNext (by simp [_h])
  simpa [_h] using hn

/-- Scans entries until `done` holds of what is known, past those that cannot be listed. -/
def scanPast (files : FileTree) (done : PathTrie → Bool) (index : Index) : Index :=
  if done index.trie then index
  else
    match _h : index.scanNext files with
    | (.ok false, next) => next
    | (.ok true, next) => scanPast files done next
    | (.error _, next) => scanPast files done next
termination_by index.pending
decreasing_by
  all_goals
    have hn : (index.scanNext files).2.pending < index.pending := pending_scanNext (by simp [_h])
    simpa [_h] using hn

/-- The owner of the resource among the entries scanned so far. -/
def known? (index : Index) (path : String) : Option ResourceLocation := do
  let entry ← index.entries[← index.trie.owner? path]?
  return { entry, path }

/-- Looks for the resource, as far as the first entry that has it. -/
def find (files : FileTree) (path : String) (index : Index) :
    Except Error (Option ResourceLocation) × Index :=
  let path := normalize path
  let (result, next) := index.scanUntil files fun t => (t.owner? path).isSome
  (result.map fun _ => next.known? path, next)

/-- The resources directly in a package.  This needs all entries. -/
def contents (files : FileTree) (package : String) (index : Index) :
    Except Error (List String) × Index :=
  let (result, next) := index.scanUntil files fun _ => false
  (result.map fun _ => next.trie.filesIn (packageDirectory package), next)

/-- Whether a resource lies in or below the package, as far as the first entry that has one. -/
def hasPackage (files : FileTree) (package : String) (index : Index) : Bool × Index :=
  let directory := packageDirectory package
  let next := index.scanPast files fun t => t.hasBelow directory
  (next.trie.hasBelow directory, next)

end Index

end ClassPath

/-- Indexes, each of which is asked before those after it. -/
structure ClassPath where
  /-- The indexes, the one asked first at the head. -/
  indexes : List ClassPath.Index := []

namespace ClassPath

/-- The class path of the entries, with entries that are asked before them if there are such. -/
def ofEntries (entries : List Entry) (boot : Option (List Entry)) : ClassPath :=
  ⟨boot.toList.map (fun b => { entries := b }) ++ [{ entries := entries }]⟩

/-- Asks each index in turn until one answers or fails. -/
def findFirst (files : FileTree) (path : String) :
    List Index → Except Error (Option ResourceLocation) × List Index
  | [] => (.ok none, [])
  | index :: rest =>
    match index.find files path with
    | (.ok none, next) =>
      let (answer, rest) := findFirst files path rest
      (answer, next :: rest)
    | (answer, next) => (answer, next :: rest)

/-- Looks for the resource. -/
def find (files : FileTree) (path : String) (cp : ClassPath) :
    Except Error (Option ResourceLocation) × ClassPath :=
  let (answer, indexes) := findFirst files path cp.indexes
  (answer, ⟨indexes⟩)

/-- The resources directly in a package, index by index. -/
def contentsAll (files : FileTree) (package : String) :
    List Index → Except Error (List String) × List Index
  | [] => (.ok [], [])
  | index :: rest =>
    match index.contents files package with
    | (.error e, next) => (.error e, next :: rest)
    | (.ok names, next) =>
      let (answer, rest) := contentsAll files package rest
      (answer.map fun more => names ++ more, next :: rest)

/-- The names of the resources directly in a package, in ascending order and each once. -/
def contents (files : FileTree) (package : String) (cp : ClassPath) :
    Except Error (List String) × ClassPath :=
  let (answer, indexes) := contentsAll files package cp.indexes
  (answer.map fun names => Text.dedupAdjacent (Text.sortTexts names), ⟨indexes⟩)

/-- The content of a resource that was found. -/
def readResource (files : FileTree) (location : ResourceLocation) : Except Error (List UInt8) :=
  location.entry.read files location.path

/-- The content of a resource, if some entry has it. -/
def read (files : FileTree) (path : String) (cp : ClassPath) :
    Except Error (Option (List UInt8)) × ClassPath :=
  match cp.find files path with
  | (.ok (some location), next) => ((readResource files location).map some, next)
  | (.ok none, next) => (.ok none, next)
  | (.error e, next) => (.error e, next)

/-- The class file of a class, if some entry has it. -/
def readClass (files : FileTree) (name : String) (cp : ClassPath) :
    Except Error (Option (List UInt8)) × ClassPath :=
  cp.read files (BinaryName.classFilePath name)

/-- Whether some entry has the class file of the class.  What cannot be read does not count. -/
def hasClass (files : FileTree) (name : String) (cp : ClassPath) : Bool × ClassPath :=
  let (answer, next) := cp.find files (BinaryName.classFilePath name)
  (answer.toOption.join.isSome, next)

/-- The files that describe a package or a module and no class. -/
def descriptions : List String := ["module-info", "package-info"]

/-- The binary names, without the package, of the classes among the files of a package. -/
def classNames (names : List String) : List String :=
  (names.filterMap (Text.stripEnd? ".class")).filter fun n => !descriptions.contains n

/-- The binary names, without the package, of the classes of a package. -/
def packageClasses (files : FileTree) (package : String) (cp : ClassPath) :
    List String × ClassPath :=
  let (answer, next) := cp.contents files package
  (classNames (answer.toOption.getD []), next)

/-- Asks each index in turn whether a resource lies in or below the package. -/
def hasPackageFirst (files : FileTree) (package : String) : List Index → Bool × List Index
  | [] => (false, [])
  | index :: rest =>
    match index.hasPackage files package with
    | (true, next) => (true, next :: rest)
    | (false, next) =>
      let (answer, rest) := hasPackageFirst files package rest
      (answer, next :: rest)

/-- Whether a resource lies in or below the package. -/
def hasPackage (files : FileTree) (package : String) (cp : ClassPath) : Bool × ClassPath :=
  let (answer, indexes) := hasPackageFirst files package cp.indexes
  (answer, ⟨indexes⟩)

end ClassPath

end JavaSema
