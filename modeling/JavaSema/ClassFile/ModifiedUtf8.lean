import JavaSema.ClassFile.Error
import JavaSema.Text.Utf8

/-!
# Modified UTF-8

The form of text constants: the character 0 takes two bytes, and a character above U+FFFF is written
as a surrogate pair, each half in three bytes.  Texts in standard UTF-8 are read as well.
-/

namespace JavaSema.ClassFile

open Text

/-- The UTF-16 units that the bytes stand for, each written in one, two or three bytes. -/
def units? : List UInt8 → Option (List Nat)
  | [] => some []
  | a :: rest =>
    if a.toNat < 0x80 then (units? rest).map (a.toNat :: ·)
    else if a.toNat < 0xC0 then none
    else
      match rest with
      | [] => none
      | b :: rest =>
        if a.toNat < 0xE0 then (units? rest).map (twoBytes a b :: ·)
        else if a.toNat < 0xF0 then
          match rest with
          | [] => none
          | c :: rest => (units? rest).map (threeBytes a b c :: ·)
        else none

/-- The text of a constant. -/
def decodeModifiedUtf8 (bytes : List UInt8) : Except Error String :=
  match (decodeUtf8? bytes).or ((units? bytes).bind decodeUtf16?) with
  | some chars => .ok (String.ofList chars)
  | none => .error .invalidModifiedUtf8

end JavaSema.ClassFile
