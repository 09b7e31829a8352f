import JavaSema.Files.Archive
import JavaSema.Text.Utf8

/-!
# Reading archives from bytes

An archive ends in a record that says where its directory stands.  The directory lists the members
and says where each of them starts.
-/

namespace JavaSema.Zip

/-- The number in so many bytes from a position on, the lowest byte first. -/
def number (data : Array UInt8) : Nat → Nat → Except ArchiveFault Nat
  | 0, _ => .ok 0
  | n + 1, i =>
    match data[i]? with
    | some b => (number data n (i + 1)).map fun high => b.toNat + 256 * high
    | none => .error (.unreadable .truncated)

/-- Whether the bytes from a position on are the mark. -/
def hasMark (data : Array UInt8) (mark : List UInt8) (i : Nat) : Bool :=
  (data.extract i (i + mark.length)).toList == mark

/-- The mark of the record at the end. -/
def endMark : List UInt8 := [0x50, 0x4B, 0x05, 0x06]

/-- The mark of a member in the directory. -/
def entryMark : List UInt8 := [0x50, 0x4B, 0x01, 0x02]

/-- The mark of a member where its content stands. -/
def memberMark : List UInt8 := [0x50, 0x4B, 0x03, 0x04]

/-- The size of the record at the end without the comment after it. -/
def endSize : Nat := 22

/-- The size of the longest comment. -/
def maxComment : Nat := 65535

/-- The last position of the mark of the end, at most so many bytes before the given one. -/
def findEnd (data : Array UInt8) : Nat → Nat → Option Nat
  | tries, i =>
    if hasMark data endMark i then some i
    else
      match tries, i with
      | t + 1, i + 1 => findEnd data t i
      | _, _ => none

/-- The name of a member.  Bytes that are not UTF-8 stand for the characters of their numbers. -/
def memberName (bytes : List UInt8) : String :=
  String.ofList ((Text.decodeUtf8? bytes).getD (bytes.map fun b => Char.ofNat b.toNat))

/-- How a member is packed, by its flags and the number of its method. -/
def packing (flags method : Nat) : Packing :=
  if flags % 2 = 1 then .faulty (.unsupported "Password required to decrypt file")
  else if method = 0 then .stored
  else if method = 8 then .deflated
  else .faulty (.unsupported "Compression method not supported")

/-- The content of the member that starts at a position. -/
def packedAt (data : Array UInt8) (start size : Nat) : Except ArchiveFault (List UInt8) := do
  if !hasMark data memberMark start then throw (.invalid "Invalid local file header")
  let begin := start + 30 + (← number data 2 (start + 26)) + (← number data 2 (start + 28))
  if data.size < begin + size then throw (.unreadable .truncated)
  return (data.extract begin (begin + size)).toList

/-- The member that the directory lists at a position, and the position after it.  Positions in the
directory are counted from where the archive starts. -/
def entry (data : Array UInt8) (origin i : Nat) : Except ArchiveFault (ArchiveMember × Nat) := do
  if !hasMark data entryMark i then throw (.invalid "Invalid Central Directory header")
  let flags ← number data 2 (i + 8)
  let method ← number data 2 (i + 10)
  let size ← number data 4 (i + 20)
  let nameSize ← number data 2 (i + 28)
  let extra ← number data 2 (i + 30)
  let comment ← number data 2 (i + 32)
  let start ← number data 4 (i + 42)
  let nameEnd := i + 46 + nameSize
  if data.size < nameEnd + extra + comment then throw (.unreadable .truncated)
  let name := memberName (data.extract (i + 46) nameEnd).toList
  let m : ArchiveMember :=
    match packedAt data (origin + start) size with
    | .ok packed => { name, packing := packing flags method, packed }
    | .error fault => { name, packing := .faulty fault, packed := [] }
  return (m, nameEnd + extra + comment)

/-- So many members of the directory from a position on. -/
def entries (data : Array UInt8) (origin : Nat) :
    Nat → Nat → Except ArchiveFault (List ArchiveMember)
  | 0, _ => .ok []
  | n + 1, i => do
    let (m, next) ← entry data origin i
    return m :: (← entries data origin n next)

/-- The members of the archive that the bytes hold. -/
def decode (bytes : List UInt8) : Except ArchiveFault (List ArchiveMember) := do
  let data := bytes.toArray
  if data.size < endSize then throw (.invalid "Invalid zip header")
  match findEnd data maxComment (data.size - endSize) with
  | none => throw (.invalid "Could not find central directory end")
  | some i =>
    if (← number data 2 (i + 4)) ≠ (← number data 2 (i + 6)) then
      throw (.unsupported "Support for multi-disk files is not implemented")
    let count ← number data 2 (i + 8)
    let size ← number data 4 (i + 12)
    let offset ← number data 4 (i + 16)
    if data.size < i + endSize + (← number data 2 (i + 20)) then throw (.unreadable .truncated)
    if i < size + offset then throw (.invalid "Invalid central directory size or offset")
    let origin := i - size - offset
    entries data origin count (origin + offset)

end JavaSema.Zip
