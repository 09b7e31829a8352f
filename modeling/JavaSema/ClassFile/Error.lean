/-!
# Faults of class files

The causes for which a class file, a descriptor or a generic signature is refused, and their texts.
-/

namespace JavaSema.ClassFile

/-- Why a class file, a descriptor or a signature was refused. -/
inductive Error where
  /-- The bytes end too early. -/
  | unexpectedEnd
  /-- The first four bytes are not the magic number. -/
  | invalidMagic (found : UInt32)
  /-- No entry of the constant pool has this index. -/
  | invalidPoolIndex (index : UInt16)
  /-- The kind of an entry of the constant pool is not known. -/
  | invalidPoolTag (tag : UInt8)
  /-- An entry of the constant pool is of another kind than its use demands. -/
  | poolMismatch (index : UInt16) (expected found : String)
  /-- A text constant is not modified UTF-8. -/
  | invalidModifiedUtf8
  /-- A text is no descriptor. -/
  | invalidDescriptor (text : String)
  /-- A text is no generic signature. -/
  | invalidSignature (text : String)
  /-- An attribute has the wrong length or content. -/
  | malformedAttribute (name : String)
  /-- Bytes follow the class file. -/
  | trailingBytes (count : Nat)
deriving DecidableEq, Inhabited

/-- The number in hexadecimal, with leading zeros up to `width` digits. -/
def hexPadded (width n : Nat) : String :=
  let digits := Nat.toDigits 16 n
  String.ofList (List.replicate (width - digits.length) '0' ++ digits)

/-- The text of the fault. -/
def Error.message : Error → String
  | unexpectedEnd => "unexpected end of input"
  | invalidMagic found => "invalid classfile magic: 0x" ++ hexPadded 8 found.toNat
  | invalidPoolIndex index => "invalid constant pool index: " ++ toString index.toNat
  | invalidPoolTag tag => "invalid constant pool tag: " ++ toString tag.toNat
  | poolMismatch index expected found =>
    "constant pool type mismatch at index " ++ toString index.toNat ++ ": expected " ++ expected
      ++ ", found " ++ found
  | invalidModifiedUtf8 => "invalid modified UTF-8 constant"
  | invalidDescriptor text => "invalid descriptor: " ++ text
  | invalidSignature text => "invalid signature: " ++ text
  | malformedAttribute name => "malformed " ++ name ++ " attribute"
  | trailingBytes count => toString count ++ " trailing bytes after class file"

end JavaSema.ClassFile
