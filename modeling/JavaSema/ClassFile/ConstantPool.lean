import JavaSema.ClassFile.ModifiedUtf8
import JavaSema.ClassFile.Reader

/-!
# The constant pool

The table of constants at the start of a class file.  Only texts and class names are kept; of all
other constants only their kind.
-/

namespace JavaSema.ClassFile

/-- A slot of the constant pool. -/
inductive Constant where
  /-- A slot that holds no constant: the first one, and the one after a wide number. -/
  | unusable
  /-- A text. -/
  | utf8 (text : String)
  /-- A class, by the index of its name. -/
  | ofClass (name : UInt16)
  /-- A number of four bytes. -/
  | numeric
  /-- A number of eight bytes, which takes two slots. -/
  | wide
  /-- A constant that refers to one other. -/
  | ref
  /-- A constant that refers to two others. -/
  | memberRef
  /-- A method handle. -/
  | methodHandle
deriving DecidableEq, Inhabited

namespace Constant

/-- The kind of the constant in messages. -/
def kind : Constant → String
  | unusable => "unusable"
  | utf8 _ => "Utf8"
  | ofClass _ => "Class"
  | numeric => "Numeric"
  | wide => "Wide"
  | ref => "Ref"
  | memberRef => "MemberRef"
  | methodHandle => "MethodHandle"

/-- Reads the content of a constant with the given tag. -/
def readContent (tag : UInt8) : Reader Constant := do
  match tag.toNat with
  | 1 =>
    let bytes ← Reader.bytes (← Reader.u2).toNat
    return .utf8 (← decodeModifiedUtf8 bytes)
  | 3 | 4 =>
    let _ ← Reader.u4
    return .numeric
  | 5 | 6 =>
    let _ ← Reader.u4
    let _ ← Reader.u4
    return .wide
  | 7 => return .ofClass (← Reader.u2)
  | 8 | 16 | 19 | 20 =>
    let _ ← Reader.u2
    return .ref
  | 9 | 10 | 11 | 12 | 17 | 18 =>
    let _ ← Reader.u4
    return .memberRef
  | 15 =>
    let _ ← Reader.u1
    let _ ← Reader.u2
    return .methodHandle
  | _ => throw (.invalidPoolTag tag)

/-- Reads a constant. -/
def read : Reader Constant := do readContent (← Reader.u1)

end Constant

/-- The constants of a class file by their indices. -/
structure ConstantPool where
  /-- The slots, of which the first is unusable. -/
  slots : Array Constant
deriving Inhabited

namespace ConstantPool

/-- Reads constants until so many slots are filled.  A wide number in the last slot also fills the
one after it. -/
def readSlots : Nat → Reader (List Constant)
  | 0 => return []
  | 1 => do
    let c ← Constant.read
    return if c = .wide then [c, .unusable] else [c]
  | n + 2 => do
    let c ← Constant.read
    if c = .wide then return c :: .unusable :: (← readSlots n)
    return c :: (← readSlots (n + 1))

/-- Reads a constant pool. -/
def read : Reader ConstantPool := do
  let count ← Reader.u2
  return ⟨(.unusable :: (← readSlots (count.toNat - 1))).toArray⟩

/-- The constant at an index. -/
def get (pool : ConstantPool) (index : UInt16) : Except Error Constant :=
  match pool.slots[index.toNat]? with
  | none | some .unusable => .error (.invalidPoolIndex index)
  | some c => .ok c

/-- The text at an index. -/
def text (pool : ConstantPool) (index : UInt16) : Except Error String := do
  match ← pool.get index with
  | .utf8 s => return s
  | c => throw (.poolMismatch index "Utf8" c.kind)

/-- The internal name of the class at an index. -/
def className (pool : ConstantPool) (index : UInt16) : Except Error String := do
  match ← pool.get index with
  | .ofClass name => pool.text name
  | c => throw (.poolMismatch index "Class" c.kind)

/-- What an index denotes, where 0 stands for nothing. -/
def optional {α : Type} (index : UInt16) (find : UInt16 → Except Error α) :
    Except Error (Option α) := do
  if index = 0 then return none
  return some (← find index)

end ConstantPool

end JavaSema.ClassFile
