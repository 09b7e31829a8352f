import JavaSema.ClassFile.Error

/-!
# Reading bytes

Readers of big-endian numbers and of tables.  A reader takes bytes from the front of a list and
leaves the rest.
-/

namespace JavaSema.ClassFile

/-- A reader. -/
abbrev Reader := StateT (List UInt8) (Except Error)

namespace Reader

/-- The first so many bytes and the rest. -/
def splitExactly? : Nat → List UInt8 → Option (List UInt8 × List UInt8)
  | 0, bs => some ([], bs)
  | _ + 1, [] => none
  | n + 1, b :: bs => (splitExactly? n bs).map fun (front, rest) => (b :: front, rest)

/-- Takes so many bytes. -/
def bytes (n : Nat) : Reader (List UInt8) := fun bs =>
  match splitExactly? n bs with
  | some r => .ok r
  | none => .error .unexpectedEnd

/-- Takes a byte. -/
def u1 : Reader UInt8
  | [] => .error .unexpectedEnd
  | b :: bs => .ok (b, bs)

/-- Takes a number of two bytes. -/
def u2 : Reader UInt16 := do
  let a ← u1
  let b ← u1
  return UInt16.ofNat (a.toNat * 0x100 + b.toNat)

/-- Takes a number of four bytes. -/
def u4 : Reader UInt32 := do
  let a ← u2
  let b ← u2
  return UInt32.ofNat (a.toNat * 0x10000 + b.toNat)

/-- Reads so many entries. -/
def times {α : Type} (entry : Reader α) : Nat → Reader (List α)
  | 0 => return []
  | n + 1 => do
    let a ← entry
    return a :: (← times entry n)

/-- Reads a table: the number of its entries, then the entries. -/
def table {α : Type} (entry : Reader α) : Reader (List α) := do
  times entry (← u2).toNat

/-- Runs a reader that has to take all bytes. -/
def whole {α : Type} (r : Reader α) (bs : List UInt8) : Except Error α := do
  let (a, rest) ← r.run bs
  if rest.isEmpty then return a else throw (.trailingBytes rest.length)

end Reader

end JavaSema.ClassFile
