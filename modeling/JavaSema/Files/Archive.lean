import JavaSema.Files.Inflate

/-!
# Archives

An archive holds named members in an order of its own.  A member that is listed may still not be
readable, so that members are kept as they are packed.
-/

namespace JavaSema

/-- Why a file cannot be read. -/
inductive FileFault where
  /-- Nothing has that path. -/
  | missing
  /-- A directory was read as a file. -/
  | isDirectory
  /-- A file was entered as a directory. -/
  | notDirectory
  /-- The content is not a text. -/
  | notText
  /-- The content ends too early. -/
  | truncated
deriving DecidableEq, Inhabited

/-- The wording of a fault. -/
def FileFault.message : FileFault → String
  | .missing => "No such file or directory (os error 2)"
  | .isDirectory => "Is a directory (os error 21)"
  | .notDirectory => "Not a directory (os error 20)"
  | .notText => "stream did not contain valid UTF-8"
  | .truncated => "failed to fill whole buffer"

/-- Why an archive, or one member of it, cannot be read. -/
inductive ArchiveFault where
  /-- The file is not an archive. -/
  | invalid (reason : String)
  /-- The archive needs something that is not at hand. -/
  | unsupported (reason : String)
  /-- The archive has no such member. -/
  | noMember
  /-- The file itself cannot be read. -/
  | unreadable (fault : FileFault)
deriving DecidableEq, Inhabited

/-- The wording of a fault. -/
def ArchiveFault.message : ArchiveFault → String
  | .invalid reason => "invalid Zip archive: " ++ reason
  | .unsupported reason => "unsupported Zip archive: " ++ reason
  | .noMember => "specified file not found in archive"
  | .unreadable fault => fault.message

/-- How a member of an archive is packed. -/
inductive Packing where
  /-- As it is. -/
  | stored
  /-- Deflated. -/
  | deflated
  /-- In a way that cannot be undone. -/
  | faulty (fault : ArchiveFault)
deriving DecidableEq, Inhabited

/-- One member of an archive. -/
structure ArchiveMember where
  /-- The name, with slashes between segments.  The name of a directory ends in a slash. -/
  name : String
  /-- How the member is packed. -/
  packing : Packing
  /-- The content as it is packed. -/
  packed : List UInt8
deriving DecidableEq, Inhabited

namespace ArchiveMember

/-- Whether the member stands for a directory. -/
def isDirectory (m : ArchiveMember) : Bool := m.name.toList.getLast? == some '/'

/-- The content. -/
def content (m : ArchiveMember) : Except ArchiveFault (List UInt8) :=
  match m.packing with
  | .stored => .ok m.packed
  | .deflated =>
    match Inflate.inflate? m.packed with
    | some data => .ok data
    | none => .error (.invalid "corrupt deflate stream")
  | .faulty fault => .error fault

/-- The content of the last member with that name. -/
def read (members : List ArchiveMember) (name : String) : Except ArchiveFault (List UInt8) :=
  match members.reverse.find? fun m => m.name == name with
  | some m => m.content
  | none => .error .noMember

theorem exists_of_read {members : List ArchiveMember} {name : String} {data : List UInt8}
    (h : read members name = .ok data) : ∃ m ∈ members, m.content = .ok data := by
  unfold read at h
  split at h
  · next m hm => exact ⟨m, List.mem_reverse.mp (List.mem_of_find?_eq_some hm), h⟩
  · contradiction

end ArchiveMember

end JavaSema
