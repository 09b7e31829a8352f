/-!
# UTF-8 and UTF-16

Readers of texts in UTF-8 and in UTF-16 units.  Both are strict: each character has one written form,
and what is no written form is refused.
-/

namespace JavaSema.Text

/-- Whether the byte continues a character. -/
def isTail (b : UInt8) : Bool := 0x80 ≤ b.toNat && b.toNat < 0xC0

/-- The bits that a byte contributes when it continues a character. -/
def tailBits (b : UInt8) : Nat := b.toNat % 0x40

/-- The number written in two bytes. -/
def twoBytes (a b : UInt8) : Nat := a.toNat % 0x20 * 0x40 + tailBits b

/-- The number written in three bytes. -/
def threeBytes (a b c : UInt8) : Nat := (a.toNat % 0x10 * 0x40 + tailBits b) * 0x40 + tailBits c

/-- The number written in four bytes. -/
def fourBytes (a b c d : UInt8) : Nat :=
  ((a.toNat % 0x08 * 0x40 + tailBits b) * 0x40 + tailBits c) * 0x40 + tailBits d

/-- Whether the number is one half of a surrogate pair. -/
def isSurrogate (n : Nat) : Bool := 0xD800 ≤ n && n < 0xE000

/-- The text that the bytes are the UTF-8 form of. -/
def decodeUtf8? : List UInt8 → Option (List Char)
  | [] => some []
  | a :: rest =>
    if a.toNat < 0x80 then (decodeUtf8? rest).map (Char.ofNat a.toNat :: ·)
    else
      match rest with
      | [] => none
      | b :: rest =>
        if 0xC2 ≤ a.toNat && a.toNat < 0xE0 && isTail b then
          (decodeUtf8? rest).map (Char.ofNat (twoBytes a b) :: ·)
        else
          match rest with
          | [] => none
          | c :: rest =>
            let n := threeBytes a b c
            if 0xE0 ≤ a.toNat && a.toNat < 0xF0 && isTail b && isTail c && 0x800 ≤ n
                && !isSurrogate n then
              (decodeUtf8? rest).map (Char.ofNat n :: ·)
            else
              match rest with
              | [] => none
              | d :: rest =>
                let n := fourBytes a b c d
                if 0xF0 ≤ a.toNat && a.toNat < 0xF8 && isTail b && isTail c && isTail d
                    && 0x10000 ≤ n && n < 0x110000 then
                  (decodeUtf8? rest).map (Char.ofNat n :: ·)
                else none

/-- The text that the units are the UTF-16 form of. -/
def decodeUtf16? : List Nat → Option (List Char)
  | [] => some []
  | u :: rest =>
    if !isSurrogate u then (decodeUtf16? rest).map (Char.ofNat u :: ·)
    else
      match rest with
      | [] => none
      | v :: rest =>
        if u < 0xDC00 && 0xDC00 ≤ v && v < 0xE000 then
          (decodeUtf16? rest).map
            (Char.ofNat (0x10000 + (u - 0xD800) * 0x400 + (v - 0xDC00)) :: ·)
        else none

end JavaSema.Text
