import JavaSema.Files.Zip
import JavaSema.Text.Split

/-!
# File trees

A `FileTree` holds the files that a program can see, under the segments of their paths from the
current directory.  Paths are read the way a file system reads them: empty segments and `.` stay,
`..` goes up, and only directories can be entered.
-/

namespace JavaSema

/-- The content of a file. -/
inductive FileContent where
  /-- Bytes. -/
  | bytes (data : List UInt8)
  /-- An archive that is unpacked already. -/
  | archive (members : List ArchiveMember)

namespace FileContent

/-- The members of the archive in the file. -/
def members : FileContent → Except ArchiveFault (List ArchiveMember)
  | .bytes data => Zip.decode data
  | .archive ms => .ok ms

/-- The bytes of the file.  Those of an archive that is unpacked are not kept. -/
def data : FileContent → List UInt8
  | .bytes data => data
  | .archive _ => []

/-- All contents that the file gives access to: its own and those of the members. -/
def blobs (c : FileContent) : List (List UInt8) :=
  c.data ::
    match c.members with
    | .ok ms => ms.filterMap fun m => m.content.toOption
    | .error _ => []

theorem data_mem_blobs (c : FileContent) : c.data ∈ c.blobs := List.mem_cons_self

theorem mem_blobs_of_member {c : FileContent} {ms : List ArchiveMember} {m : ArchiveMember}
    {data : List UInt8} (hms : c.members = .ok ms) (hm : m ∈ ms) (hd : m.content = .ok data) :
    data ∈ c.blobs := by
  rw [blobs, hms]
  exact List.mem_cons_of_mem _ (List.mem_filterMap.mpr ⟨m, hm, by simp [hd, Except.toOption]⟩)

end FileContent

/-- The files and directories that a program can see. -/
structure FileTree where
  /-- The files under the segments of their paths. -/
  files : List (List String × FileContent) := []
  /-- The segments of the directories other than the current one. -/
  directories : List (List String) := []

namespace FileTree

/-- Whether the segments lead to a directory. -/
def isDirectory (tree : FileTree) (segments : List String) : Bool :=
  segments.isEmpty || tree.directories.contains segments

/-- The content of the file at the segments. -/
def file? (tree : FileTree) (segments : List String) : Option FileContent :=
  (tree.files.find? fun f => f.1 == segments).map Prod.snd

/-- One segment further, from a place that need not exist. -/
def step (place : List String) (segment : String) : List String :=
  if segment.isEmpty || segment == "." then place
  else if segment == ".." then
    match place.getLast? with
    | none | some ".." => place ++ [".."]
    | some "/" => place
    | some _ => place.dropLast
  else place ++ [segment]

/-- The place from which a path starts. -/
def origin (path : String) : List String :=
  if Text.startsWith "/" path then ["/"] else []

/-- The place to which a path leads, whether or not something is there. -/
def place (path : String) : List String :=
  (Text.split '/' path).foldl step (origin path)

/-- What a path leads to. -/
inductive Found where
  /-- A directory. -/
  | directory (segments : List String)
  /-- A file. -/
  | file (content : FileContent)

/-- The place that a directory on the way leads to. -/
def enter (tree : FileTree) (place : List String) (segment : String) :
    Except FileFault (List String) :=
  if tree.isDirectory place then .ok (step place segment)
  else if (tree.file? place).isSome then .error .notDirectory
  else .error .missing

/-- What the path leads to. -/
def find (tree : FileTree) (path : String) : Except FileFault Found := do
  if path.isEmpty then throw .missing
  let place ← (Text.split '/' path).foldlM tree.enter (origin path)
  if tree.isDirectory place then return .directory place
  match tree.file? place with
  | some content => return .file content
  | none => throw .missing

/-- Whether the path leads to something. -/
def contains (tree : FileTree) (path : String) : Bool := (tree.find path).toOption.isSome

/-- Whether the path leads to a file. -/
def isFile (tree : FileTree) (path : String) : Bool :=
  match tree.find path with
  | .ok (.file _) => true
  | _ => false

/-- The file at the path. -/
def read (tree : FileTree) (path : String) : Except FileFault FileContent :=
  match tree.find path with
  | .ok (.file content) => .ok content
  | .ok (.directory _) => .error .isDirectory
  | .error fault => .error fault

/-- What remains of a path below a directory. -/
def below? : List String → List String → Option (List String)
  | [], rest => if rest.head?.any fun s => s == ".." || s == "/" then none else some rest
  | _ :: _, [] => none
  | d :: ds, s :: rest => if d == s then below? ds rest else none

/-- The segments of the files at or below the directory, as seen from it. -/
def filesBelow (tree : FileTree) (directory : List String) : List (List String) :=
  tree.files.filterMap fun f => below? directory f.1

/-- The directories on the way to the last of the segments. -/
def ancestors (segments : List String) : List (List String) :=
  ((List.range segments.length).map segments.take).filter fun s => !s.isEmpty

/-- Adds the directory and those on the way to it. -/
def makeDirectory (tree : FileTree) (path : String) : FileTree :=
  let segments := place path
  let new := ancestors segments ++ [segments]
  { tree with directories := tree.directories ++ new.filter fun d => !tree.isDirectory d }

/-- Puts a file at the path, in place of the one that is there. -/
def write (tree : FileTree) (path : String) (content : FileContent) : FileTree :=
  let segments := place path
  { files := (tree.files.filter fun f => f.1 != segments) ++ [(segments, content)]
    directories :=
      tree.directories ++ (ancestors segments).filter fun d => !tree.isDirectory d }

/-- Takes the file at the path away. -/
def delete (tree : FileTree) (path : String) : FileTree :=
  { tree with files := tree.files.filter fun f => f.1 != place path }

/-- All contents that the files give access to. -/
def blobs (tree : FileTree) : List (List UInt8) :=
  tree.files.flatMap fun f => f.2.blobs

theorem exists_of_file? {tree : FileTree} {segments : List String} {content : FileContent}
    (h : tree.file? segments = some content) : ∃ f ∈ tree.files, f.2 = content := by
  obtain ⟨f, hf, rfl⟩ := Option.map_eq_some_iff.mp h
  exact ⟨f, List.mem_of_find?_eq_some hf, rfl⟩

theorem exists_of_find {tree : FileTree} {path : String} {content : FileContent}
    (h : tree.find path = .ok (.file content)) : ∃ f ∈ tree.files, f.2 = content := by
  simp only [find, bind, Except.bind, pure, Except.pure, throw, throwThe, MonadExceptOf.throw] at h
  split at h
  · contradiction
  · split at h
    · contradiction
    · split at h
      · simp at h
      · split at h
        · next c hc =>
          obtain ⟨rfl⟩ : c = content := by simpa using h
          exact exists_of_file? hc
        · contradiction

theorem exists_of_read {tree : FileTree} {path : String} {content : FileContent}
    (h : tree.read path = .ok content) : ∃ f ∈ tree.files, f.2 = content := by
  unfold read at h
  split at h
  · next c hc =>
    obtain ⟨rfl⟩ : c = content := by simpa using h
    exact exists_of_find hc
  · contradiction
  · contradiction

theorem mem_blobs_of_read {tree : FileTree} {path : String} {content : FileContent}
    {data : List UInt8} (h : tree.read path = .ok content) (hd : data ∈ content.blobs) :
    data ∈ tree.blobs := by
  obtain ⟨f, hf, rfl⟩ := exists_of_read h
  exact List.mem_flatMap.mpr ⟨f, hf, hd⟩

end FileTree

end JavaSema
