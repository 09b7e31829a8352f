import JavaSema.Files.Path
import JavaSema.Files.Tree

/-!
# Entries of a class path

An entry is a directory or an archive.  Its resources are the files in it, under their paths as seen
from the entry.
-/

namespace JavaSema.ClassPath

/-- Why a class path cannot be read. -/
inductive Error where
  /-- A file cannot be read. -/
  | unreadable (path : String) (fault : FileFault)
  /-- An archive cannot be read. -/
  | badArchive (path : String) (fault : ArchiveFault)
deriving DecidableEq, Inhabited

namespace Error

/-- The wording of the cause. -/
def cause : Error → String
  | .unreadable _ fault => fault.message
  | .badArchive _ fault => fault.message

/-- The wording of the error. -/
def message (e : Error) : String :=
  match e with
  | .unreadable path _ => "io error on " ++ path ++ ": " ++ e.cause
  | .badArchive path _ => "zip error in " ++ path ++ ": " ++ e.cause

/-- The wordings of all causes, each after what it caused. -/
def causes (e : Error) : List String :=
  match e with
  | .badArchive _ (.unreadable fault) => [e.cause, fault.message]
  | _ => [e.cause]

end Error

theorem mapError_ok {ε ε' α : Type} (f : ε → ε') (a : α) :
    (Except.ok a : Except ε α).mapError f = .ok a := rfl

theorem mapError_error {ε ε' α : Type} (f : ε → ε') (e : ε) :
    (Except.error e : Except ε α).mapError f = .error (f e) := rfl

/-- One entry of a class path. -/
inductive Entry where
  /-- A directory. -/
  | directory (path : String)
  /-- An archive. -/
  | archive (path : String)
deriving DecidableEq, Inhabited

namespace Entry

/-- The extensions that mark an archive, in lower case. -/
def archiveExtensions : List String := ["jar", "zip"]

/-- The entry at the path.  The extension alone decides its kind, in any case of letters. -/
def ofPath (path : String) : Entry :=
  if (Path.extension? path).any fun ext => archiveExtensions.contains ext.toLower then
    .archive path
  else .directory path

/-- The path of the entry. -/
def path : Entry → String
  | .directory p => p
  | .archive p => p

/-- The members of the archive at the path. -/
def members (files : FileTree) (path : String) : Except Error (List ArchiveMember) :=
  match files.find path with
  | .error fault => .error (.unreadable path fault)
  | .ok (.directory _) => .error (.badArchive path (.unreadable .isDirectory))
  | .ok (.file content) => content.members.mapError (.badArchive path)

/-- The paths of all resources of the entry. -/
def list (files : FileTree) : Entry → Except Error (List String)
  | .directory path =>
    match files.find path with
    | .error fault => .error (.unreadable path fault)
    | .ok (.directory segments) => .ok ((files.filesBelow segments).map (Text.join "/"))
    | .ok (.file _) => .ok [""]
  | .archive path => do
    let ms ← members files path
    return (ms.filter fun m => !m.isDirectory).map ArchiveMember.name

/-- The content of one resource. -/
def read (files : FileTree) (entry : Entry) (resource : String) : Except Error (List UInt8) :=
  match entry with
  | .directory base =>
    let path := Path.join base resource
    match files.read path with
    | .ok content => .ok content.data
    | .error fault => .error (.unreadable path fault)
  | .archive path =>
    match members files path with
    | .ok ms => (ArchiveMember.read ms resource).mapError (.badArchive path)
    | .error e => .error e

theorem mem_blobs_of_read {files : FileTree} {entry : Entry} {resource : String}
    {data : List UInt8} (h : entry.read files resource = .ok data) : data ∈ files.blobs := by
  -- Only the name is replaced: the equation of `Entry.read` is slow to state.
  cases entry with
  | directory base =>
    delta Entry.read at h
    dsimp only at h
    split at h
    · next content hc =>
      obtain ⟨rfl⟩ : content.data = data := by simpa using h
      exact FileTree.mem_blobs_of_read hc content.data_mem_blobs
    · contradiction
  | archive path =>
    delta Entry.read at h
    dsimp only at h
    split at h
    · next ms hms =>
      have hr : ArchiveMember.read ms resource = .ok data := by
        cases hd : ArchiveMember.read ms resource with
        | error e => simp [hd, mapError_error] at h
        | ok d => simpa [hd, mapError_ok] using h
      obtain ⟨m, hm, hd⟩ := ArchiveMember.exists_of_read hr
      unfold members at hms
      split at hms
      · contradiction
      · contradiction
      · next content found =>
        have hc : content.members = .ok ms := by
          cases hd : content.members with
          | error e => simp [hd, mapError_error] at hms
          | ok d => simpa [hd, mapError_ok] using hms
        obtain ⟨f, hf, rfl⟩ := FileTree.exists_of_find found
        exact List.mem_flatMap.mpr ⟨f, hf, FileContent.mem_blobs_of_member hc hm hd⟩
    · contradiction

end Entry

end JavaSema.ClassPath
