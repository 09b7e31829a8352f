import JavaSema.Proofs.ClassFile.Text
import Mathlib.Data.List.Forall2

/-!
# Standard and modified UTF-8

The readers of text constants compared with the written forms of texts: what is read from the bytes of a
text, and which other bytes are read.

There are three groups.

* Standard UTF-8.  `decodeUtf8?_eq_some_iff` says that the first way to read a text constant is the
  inverse of standard UTF-8.
* Texts as written.  A text constant is read as the text that was written, the one way or the other.
* Other bytes.  What follows the first byte of a sequence is not looked at, so that bytes are read which
  are neither standard nor modified UTF-8.
-/

namespace JavaSema.ClassFile

open Text

/-! ## Standard UTF-8 -/

/-- The bytes of a text in standard UTF-8. -/
def utf8 (s : String) : List UInt8 := s.toList.flatMap String.utf8EncodeChar

theorem decodeUtf8?_four {a b c d : UInt8} (rest : List UInt8) (hge : 0xF0 ≤ a.toNat)
    (hlt : a.toNat < 0xF8) (hb : isTail b = true) (hc : isTail c = true) (hd : isTail d = true)
    (hbig : 0x10000 ≤ fourBytes a b c d) (hsmall : fourBytes a b c d < 0x110000) :
    decodeUtf8? (a :: b :: c :: d :: rest)
      = (decodeUtf8? rest).map (Char.ofNat (fourBytes a b c d) :: ·) := by
  rw [decodeUtf8?.eq_def]
  grind

/-- The four forms in which standard UTF-8 writes a character, and how it is read back from each. -/
theorem utf8EncodeChar_cases (c : Char) :
    (∃ a : UInt8, String.utf8EncodeChar c = [a] ∧ a.toNat < 0x80 ∧ a.toNat = c.toNat) ∨
      (∃ a b : UInt8, String.utf8EncodeChar c = [a, b] ∧ 0xC2 ≤ a.toNat ∧ a.toNat < 0xE0 ∧
        isTail b = true ∧ twoBytes a b = c.toNat) ∨
      (∃ a b d : UInt8, String.utf8EncodeChar c = [a, b, d] ∧ 0xE0 ≤ a.toNat ∧ a.toNat < 0xF0 ∧
        isTail b = true ∧ isTail d = true ∧ threeBytes a b d = c.toNat ∧ 0x800 ≤ c.toNat) ∨
      ∃ a b d e : UInt8, String.utf8EncodeChar c = [a, b, d, e] ∧ 0xF0 ≤ a.toNat ∧
        a.toNat < 0xF8 ∧ isTail b = true ∧ isTail d = true ∧ isTail e = true ∧
        fourBytes a b d e = c.toNat ∧ 0x10000 ≤ c.toNat := by
  have hlt := char_toNat_lt c
  have hval : c.val.toNat = c.toNat := rfl
  by_cases hone : c.toNat ≤ 127
  · left
    refine ⟨UInt8.ofNat c.toNat, by simp [String.utf8EncodeChar, hval, hone], ?_⟩
    rw [toNat_ofNat_byte (by omega)]
    omega
  · right
    by_cases htwo : c.toNat ≤ 2047
    · left
      refine ⟨UInt8.ofNat (c.toNat / 64 % 32 + 192), UInt8.ofNat (c.toNat % 64 + 128),
        by simp only [String.utf8EncodeChar, hval, hone, htwo, if_false, if_true], ?_⟩
      simp only [twoBytes, tailBits, isTail, toNat_ofNat_byte (n := c.toNat / 64 % 32 + 192) (by omega),
        toNat_ofNat_byte (n := c.toNat % 64 + 128) (by omega), Bool.and_eq_true, decide_eq_true_eq]
      omega
    · right
      by_cases hthree : c.toNat ≤ 65535
      · left
        refine ⟨UInt8.ofNat (c.toNat / 4096 % 16 + 224), UInt8.ofNat (c.toNat / 64 % 64 + 128),
          UInt8.ofNat (c.toNat % 64 + 128), by
            simp only [String.utf8EncodeChar, hval, hone, htwo, hthree, if_false, if_true], ?_⟩
        simp only [threeBytes, tailBits, isTail,
          toNat_ofNat_byte (n := c.toNat / 4096 % 16 + 224) (by omega),
          toNat_ofNat_byte (n := c.toNat / 64 % 64 + 128) (by omega),
          toNat_ofNat_byte (n := c.toNat % 64 + 128) (by omega), Bool.and_eq_true,
          decide_eq_true_eq]
        omega
      · right
        refine ⟨UInt8.ofNat (c.toNat / 262144 % 8 + 240), UInt8.ofNat (c.toNat / 4096 % 64 + 128),
          UInt8.ofNat (c.toNat / 64 % 64 + 128), UInt8.ofNat (c.toNat % 64 + 128), by
            simp only [String.utf8EncodeChar, hval, hone, htwo, hthree, if_false], ?_⟩
        simp only [fourBytes, tailBits, isTail,
          toNat_ofNat_byte (n := c.toNat / 262144 % 8 + 240) (by omega),
          toNat_ofNat_byte (n := c.toNat / 4096 % 64 + 128) (by omega),
          toNat_ofNat_byte (n := c.toNat / 64 % 64 + 128) (by omega),
          toNat_ofNat_byte (n := c.toNat % 64 + 128) (by omega), Bool.and_eq_true,
          decide_eq_true_eq]
        omega

theorem decodeUtf8?_utf8EncodeChar (c : Char) (rest : List UInt8) :
    decodeUtf8? (String.utf8EncodeChar c ++ rest) = (decodeUtf8? rest).map (c :: ·) := by
  have hlt := char_toNat_lt c
  rcases utf8EncodeChar_cases c with ⟨a, hbytes, ha, hvalue⟩ |
    ⟨a, b, hbytes, hge, ha, hb, hvalue⟩ | ⟨a, b, d, hbytes, hge, ha, hb, hd, hvalue, hbig⟩ |
    ⟨a, b, d, e, hbytes, hge, ha, hb, hd, he, hvalue, hbig⟩
  · rw [hbytes, List.singleton_append, decodeUtf8?_one _ ha, hvalue, Char.ofNat_toNat]
  · simp only [hbytes, List.cons_append, List.nil_append]
    rw [decodeUtf8?_two _ hge ha hb, hvalue, Char.ofNat_toNat]
  · simp only [hbytes, List.cons_append, List.nil_append]
    rw [decodeUtf8?_three _ hge ha hb hd (by omega) (by rw [hvalue, isSurrogate_toNat]), hvalue,
      Char.ofNat_toNat]
  · simp only [hbytes, List.cons_append, List.nil_append]
    rw [decodeUtf8?_four _ hge ha hb hd he (by omega) (by omega), hvalue, Char.ofNat_toNat]

theorem decodeUtf8?_flatMap (cs : List Char) :
    decodeUtf8? (cs.flatMap String.utf8EncodeChar) = some cs := by
  induction cs with
  | nil => rw [List.flatMap_nil, decodeUtf8?]
  | cons c cs ih =>
    rw [List.flatMap_cons, decodeUtf8?_utf8EncodeChar, ih]
    rfl

theorem ofNat_eq_of_toNat {n : Nat} {a : UInt8} (h : n = a.toNat) : UInt8.ofNat n = a := by
  rw [h, UInt8.ofNat_toNat]

theorem utf8EncodeChar_one {a : UInt8} (h : a.toNat < 0x80) :
    String.utf8EncodeChar (Char.ofNat a.toNat) = [a] := by
  have hchar : (Char.ofNat a.toNat).val.toNat = a.toNat :=
    toNat_ofNat_of_valid (by omega) (isSurrogate_of_lt (by omega))
  simp only [String.utf8EncodeChar, hchar, show a.toNat ≤ 127 by omega, if_true, UInt8.ofNat_toNat]

theorem utf8EncodeChar_two {a b : UInt8} (hge : 0xC2 ≤ a.toNat) (hlt : a.toNat < 0xE0)
    (hb : isTail b = true) : String.utf8EncodeChar (Char.ofNat (twoBytes a b)) = [a, b] := by
  simp only [isTail, Bool.and_eq_true, decide_eq_true_eq] at hb
  have hvalue : twoBytes a b = (a.toNat - 0xC0) * 0x40 + (b.toNat - 0x80) := by
    rw [twoBytes, tailBits]
    omega
  have hchar : (Char.ofNat (twoBytes a b)).val.toNat = twoBytes a b :=
    toNat_ofNat_of_valid (by omega) (isSurrogate_of_lt (by omega))
  simp only [String.utf8EncodeChar, hchar, show ¬ twoBytes a b ≤ 127 by omega,
    show twoBytes a b ≤ 2047 by omega, if_false, if_true]
  rw [ofNat_eq_of_toNat (a := a) (by omega), ofNat_eq_of_toNat (a := b) (by omega)]

theorem utf8EncodeChar_three {a b c : UInt8} (hge : 0xE0 ≤ a.toNat) (hlt : a.toNat < 0xF0)
    (hb : isTail b = true) (hc : isTail c = true) (hbig : 0x800 ≤ threeBytes a b c)
    (hsur : isSurrogate (threeBytes a b c) = false) :
    String.utf8EncodeChar (Char.ofNat (threeBytes a b c)) = [a, b, c] := by
  simp only [isTail, Bool.and_eq_true, decide_eq_true_eq] at hb hc
  have hvalue : threeBytes a b c
      = ((a.toNat - 0xE0) * 0x40 + (b.toNat - 0x80)) * 0x40 + (c.toNat - 0x80) := by
    rw [threeBytes, tailBits, tailBits]
    omega
  have hchar : (Char.ofNat (threeBytes a b c)).val.toNat = threeBytes a b c :=
    toNat_ofNat_of_valid (by omega) hsur
  simp only [String.utf8EncodeChar, hchar, show ¬ threeBytes a b c ≤ 127 by omega,
    show ¬ threeBytes a b c ≤ 2047 by omega, show threeBytes a b c ≤ 65535 by omega, if_false,
    if_true]
  rw [ofNat_eq_of_toNat (a := a) (by omega), ofNat_eq_of_toNat (a := b) (by omega),
    ofNat_eq_of_toNat (a := c) (by omega)]

theorem utf8EncodeChar_four {a b c d : UInt8} (hge : 0xF0 ≤ a.toNat) (hlt : a.toNat < 0xF8)
    (hb : isTail b = true) (hc : isTail c = true) (hd : isTail d = true)
    (hbig : 0x10000 ≤ fourBytes a b c d) (hsmall : fourBytes a b c d < 0x110000) :
    String.utf8EncodeChar (Char.ofNat (fourBytes a b c d)) = [a, b, c, d] := by
  simp only [isTail, Bool.and_eq_true, decide_eq_true_eq] at hb hc hd
  have hvalue : fourBytes a b c d
      = (((a.toNat - 0xF0) * 0x40 + (b.toNat - 0x80)) * 0x40 + (c.toNat - 0x80)) * 0x40
        + (d.toNat - 0x80) := by
    rw [fourBytes, tailBits, tailBits, tailBits]
    omega
  have hsur : isSurrogate (fourBytes a b c d) = false := by
    simp [isSurrogate]
    omega
  have hchar : (Char.ofNat (fourBytes a b c d)).val.toNat = fourBytes a b c d :=
    toNat_ofNat_of_valid hsmall hsur
  simp only [String.utf8EncodeChar, hchar, show ¬ fourBytes a b c d ≤ 127 by omega,
    show ¬ fourBytes a b c d ≤ 2047 by omega, show ¬ fourBytes a b c d ≤ 65535 by omega, if_false]
  rw [ofNat_eq_of_toNat (a := a) (by omega), ofNat_eq_of_toNat (a := b) (by omega),
    ofNat_eq_of_toNat (a := c) (by omega), ofNat_eq_of_toNat (a := d) (by omega)]

/-- Bytes are read as standard UTF-8 only if they are the bytes of the text. -/
theorem eq_of_decodeUtf8? {bytes : List UInt8} {cs : List Char} (h : decodeUtf8? bytes = some cs) :
    bytes = cs.flatMap String.utf8EncodeChar := by
  fun_induction decodeUtf8? bytes generalizing cs with
  | case1 =>
    cases h
    rfl
  | case2 a rest ha ih =>
    obtain ⟨ds, hds, rfl⟩ := Option.map_eq_some_iff.mp h
    rw [List.flatMap_cons, utf8EncodeChar_one ha, ← ih hds, List.singleton_append]
  | case4 a ha b rest htwo ih =>
    obtain ⟨ds, hds, rfl⟩ := Option.map_eq_some_iff.mp h
    simp only [Bool.and_eq_true, decide_eq_true_eq] at htwo
    rw [List.flatMap_cons, utf8EncodeChar_two htwo.1.1 htwo.1.2 htwo.2, ← ih hds, List.cons_append,
      List.singleton_append]
  | case6 a ha b htwo c rest n hthree =>
    rename_i ih
    obtain ⟨ds, hds, rfl⟩ := Option.map_eq_some_iff.mp h
    simp only [Bool.and_eq_true, decide_eq_true_eq, Bool.not_eq_true'] at hthree
    obtain ⟨⟨⟨⟨⟨hge, hlt⟩, hb⟩, hc⟩, hbig⟩, hsur⟩ := hthree
    rw [List.flatMap_cons, utf8EncodeChar_three hge hlt hb hc hbig hsur, ← ih hds]
    rfl
  | case8 a ha b htwo c m hthree d rest n hfour =>
    rename_i ih
    obtain ⟨ds, hds, rfl⟩ := Option.map_eq_some_iff.mp h
    simp only [Bool.and_eq_true, decide_eq_true_eq] at hfour
    obtain ⟨⟨⟨⟨⟨⟨hge, hlt⟩, hb⟩, hc⟩, hd⟩, hbig⟩, hsmall⟩ := hfour
    rw [List.flatMap_cons, utf8EncodeChar_four hge hlt hb hc hd hbig hsmall, ← ih hds]
    rfl
  | case3 | case5 | case7 | case9 => cases h

/-- Bytes are read as a text exactly if they are its bytes in standard UTF-8. -/
theorem decodeUtf8?_eq_some_iff {bytes : List UInt8} {s : String} :
    decodeUtf8? bytes = some s.toList ↔ bytes = utf8 s := by
  constructor
  · exact eq_of_decodeUtf8?
  · rintro rfl
    exact decodeUtf8?_flatMap s.toList

/-! ## Texts as written -/

/-- The three bytes of a number of 16 bits. -/
def threeByteForm (n : Nat) : List UInt8 :=
  [UInt8.ofNat (0xE0 + n / 0x1000), UInt8.ofNat (0x80 + n / 0x40 % 0x40),
    UInt8.ofNat (0x80 + n % 0x40)]

/-- The bytes of a character in a text constant: the character 0 takes two bytes, a character that
UTF-16 writes in two units takes three bytes for each, and all others have their bytes of standard
UTF-8. -/
def writtenChar (c : Char) : List UInt8 :=
  if c.toNat = 0 then [0xC0, 0x80]
  else if c.toNat < 0x10000 then String.utf8EncodeChar c
  else
    let high := 0xD800 + (c.toNat - 0x10000) / 0x400
    let low := 0xDC00 + (c.toNat - 0x10000) % 0x400
    threeByteForm high ++ threeByteForm low

/-- The bytes of a text constant. -/
def written (s : String) : List UInt8 := s.toList.flatMap writtenChar

theorem unitBytes_eq_threeByteForm {u : UInt16} (h : 0x800 ≤ u.toNat) :
    unitBytes u = threeByteForm u.toNat := by
  rw [unitBytes, if_neg (by omega), if_neg (by omega), threeByteForm]

theorem unitBytes_eq_utf8EncodeChar {c : Char} (hpos : c.toNat ≠ 0) (hlt : c.toNat < 0x10000) :
    unitBytes (UInt16.ofNat c.toNat) = String.utf8EncodeChar c := by
  have hval : c.val.toNat = c.toNat := rfl
  have hunit := toNat_ofNat_unit hlt
  by_cases hone : c.toNat ≤ 127
  · simp only [unitBytes, hunit, String.utf8EncodeChar, hval, hone,
      show 0 < c.toNat ∧ c.toNat < 0x80 by omega, and_self, if_true]
  · by_cases htwo : c.toNat ≤ 2047
    · simp only [unitBytes, hunit, String.utf8EncodeChar, hval, hone, htwo,
        show ¬ (0 < c.toNat ∧ c.toNat < 0x80) by omega, show c.toNat < 0x800 by omega, if_true,
        if_false]
      rw [show c.toNat / 64 % 32 + 192 = 0xC0 + c.toNat / 0x40 by omega, Nat.add_comm (c.toNat % 64)]
    · simp only [unitBytes, hunit, String.utf8EncodeChar, hval, hone, htwo,
        show ¬ (0 < c.toNat ∧ c.toNat < 0x80) by omega, show ¬ c.toNat < 0x800 by omega,
        show c.toNat ≤ 65535 by omega, if_true, if_false]
      rw [show c.toNat / 4096 % 16 + 224 = 0xE0 + c.toNat / 0x1000 by omega,
        Nat.add_comm (c.toNat / 64 % 64), Nat.add_comm (c.toNat % 64)]

theorem writtenChar_eq (c : Char) : writtenChar c = modifiedUtf8 (charUnits c) := by
  have hlt := char_toNat_lt c
  rw [writtenChar, charUnits, modifiedUtf8]
  split
  · next hzero =>
    rw [if_pos (by omega), hzero]
    rfl
  · next hpos =>
    split
    · next hsmall => rw [List.flatMap_singleton, unitBytes_eq_utf8EncodeChar hpos hsmall]
    · have hhigh := toNat_ofNat_unit (n := 0xD800 + (c.toNat - 0x10000) / 0x400) (by omega)
      have hlow := toNat_ofNat_unit (n := 0xDC00 + (c.toNat - 0x10000) % 0x400) (by omega)
      rw [List.flatMap_cons, List.flatMap_singleton, unitBytes_eq_threeByteForm (by omega),
        unitBytes_eq_threeByteForm (by omega), hhigh, hlow]

theorem written_eq (s : String) : written s = modifiedUtf8 (utf16 s) := by
  rw [written, modifiedUtf8, utf16, List.flatMap_assoc]
  exact congrArg (List.flatMap · s.toList) (funext writtenChar_eq)

/-- Whether a text constant writes the character as standard UTF-8 does. -/
def isPlain (c : Char) : Bool := c.toNat ≠ 0 && c.toNat < 0x10000

theorem isPlain_iff {c : Char} : isPlain c = true ↔ c.toNat ≠ 0 ∧ c.toNat < 0x10000 := by
  simp [isPlain]

theorem decodeUtf8?_threeByteForm {n : Nat} (hge : 0xD800 ≤ n) (hlt : n < 0xE000)
    (rest : List UInt8) : decodeUtf8? (threeByteForm n ++ rest) = none := by
  have hvalue : threeBytes (UInt8.ofNat (0xE0 + n / 0x1000)) (UInt8.ofNat (0x80 + n / 0x40 % 0x40))
      (UInt8.ofNat (0x80 + n % 0x40)) = n := by
    simp only [threeBytes, tailBits, toNat_ofNat_byte (n := 0xE0 + n / 0x1000) (by omega),
      toNat_ofNat_byte (n := 0x80 + n / 0x40 % 0x40) (by omega),
      toNat_ofNat_byte (n := 0x80 + n % 0x40) (by omega)]
    omega
  have hlead := toNat_ofNat_byte (n := 0xE0 + n / 0x1000) (by omega)
  refine decodeUtf8?_of_surrogate rest (by omega) (by omega) ?_
  rw [hvalue]
  simp [isSurrogate, hge, hlt]

theorem decodeUtf8?_writtenChar (c : Char) (rest : List UInt8) :
    decodeUtf8? (writtenChar c ++ rest)
      = if isPlain c then (decodeUtf8? rest).map (c :: ·) else none := by
  have hlt := char_toNat_lt c
  rw [writtenChar]
  split
  · next hzero =>
    rw [if_neg fun hplain => (isPlain_iff.mp hplain).1 hzero]
    exact decodeUtf8?_of_lead _ (by decide) (by decide)
  · next hpos =>
    split
    · next hsmall => rw [if_pos (isPlain_iff.mpr ⟨hpos, hsmall⟩), decodeUtf8?_utf8EncodeChar]
    · next hbig =>
      rw [if_neg fun hplain => hbig (isPlain_iff.mp hplain).2, List.append_assoc]
      exact decodeUtf8?_threeByteForm (by omega) (by omega) _

/-- Which of the two ways a text constant is read. -/
theorem decodeUtf8?_written (s : String) :
    decodeUtf8? (written s) = if s.toList.all isPlain then some s.toList else none := by
  rw [written]
  induction s.toList with
  | nil => rfl
  | cons c cs ih =>
    rw [List.flatMap_cons, decodeUtf8?_writtenChar, ih]
    cases hc : isPlain c <;> cases hcs : cs.all isPlain <;> simp [hc, hcs]

/-- A text constant is read as the text that was written.  It is read as standard UTF-8 exactly if all its
characters are written so, and reading it unit by unit gives the same text. -/
theorem decodeModifiedUtf8_written (s : String) :
    decodeModifiedUtf8 (written s) = .ok s ∧
      (decodeUtf8? (written s) = if s.toList.all isPlain then some s.toList else none) ∧
      (units? (written s)).bind decodeUtf16? = some s.toList := by
  refine ⟨?_, decodeUtf8?_written s, ?_⟩
  · rw [written_eq, decodeModifiedUtf8_modifiedUtf8]
  · rw [written_eq, units?_of_sequences (sequences_modifiedUtf8 _), Option.bind_some,
      decodeUtf16?_eq_some_iff]

/-! ## Other bytes -/

theorem twoBytes_lt (a b : UInt8) : twoBytes a b < 0x10000 := by
  rw [twoBytes, tailBits]
  omega

theorem threeBytes_lt (a b c : UInt8) : threeBytes a b c < 0x10000 := by
  rw [threeBytes, tailBits, tailBits]
  omega

theorem sequences_of_units? {bytes : List UInt8} {numbers : List Nat}
    (h : units? bytes = some numbers) :
    ∃ units, Sequences (fun _ => true) bytes units ∧ numbers = units.map UInt16.toNat := by
  fun_induction units? bytes generalizing numbers with
  | case1 =>
    cases h
    exact ⟨[], .nil, rfl⟩
  | case2 a rest ha ih =>
    obtain ⟨more, hmore, rfl⟩ := Option.map_eq_some_iff.mp h
    obtain ⟨units, hunits, rfl⟩ := ih hmore
    have hvalue := toNat_ofNat_unit (n := a.toNat) (by omega)
    exact ⟨_, .one ha hvalue hunits, by rw [List.map_cons, hvalue]⟩
  | case5 a _ hge b rest hlt ih =>
    obtain ⟨more, hmore, rfl⟩ := Option.map_eq_some_iff.mp h
    obtain ⟨units, hunits, rfl⟩ := ih hmore
    have hvalue := toNat_ofNat_unit (twoBytes_lt a b)
    exact ⟨_, .two (by omega) hlt rfl hvalue hunits, by rw [List.map_cons, hvalue]⟩
  | case7 a _ _ b hge hlt c rest ih =>
    obtain ⟨more, hmore, rfl⟩ := Option.map_eq_some_iff.mp h
    obtain ⟨units, hunits, rfl⟩ := ih hmore
    have hvalue := toNat_ofNat_unit (threeBytes_lt a b c)
    exact ⟨_, .three (by omega) hlt rfl rfl hvalue hunits, by rw [List.map_cons, hvalue]⟩
  | case3 | case4 | case6 | case8 => cases h

/-- The bytes are read unit by unit as a text exactly if they are sequences of its units, whatever
follows a first byte. -/
theorem decodeUtf16?_units?_eq_some_iff {bytes : List UInt8} {s : String} :
    (units? bytes).bind decodeUtf16? = some s.toList ↔ Sequences (fun _ => true) bytes (utf16 s) := by
  constructor
  · intro h
    obtain ⟨numbers, hnumbers, hchars⟩ := Option.bind_eq_some_iff.mp h
    obtain ⟨units, hunits, rfl⟩ := sequences_of_units? hnumbers
    exact decodeUtf16?_eq_some_iff.mp hchars ▸ hunits
  · intro h
    rw [units?_of_sequences h, Option.bind_some]
    exact decodeUtf16?_eq_some_iff.mpr rfl

/-- The bytes are those of some text in standard UTF-8. -/
def IsUtf8 (bytes : List UInt8) : Prop := ∃ s, bytes = utf8 s

/-- The bytes are sequences of one, two and three bytes, with bytes `10xxxxxx` after the first ones. -/
def IsModifiedUtf8 (bytes : List UInt8) : Prop := ∃ units, Sequences isTail bytes units

theorem isUtf8_iff {bytes : List UInt8} : IsUtf8 bytes ↔ ∃ cs, decodeUtf8? bytes = some cs := by
  constructor
  · rintro ⟨s, hs⟩
    exact ⟨_, decodeUtf8?_eq_some_iff.mpr hs⟩
  · rintro ⟨cs, hcs⟩
    exact ⟨String.ofList cs, decodeUtf8?_eq_some_iff.mp (by rwa [String.toList_ofList])⟩

theorem decodeModifiedUtf8_eq_ok_iff {bytes : List UInt8} {s : String} :
    decodeModifiedUtf8 bytes = .ok s ↔
      bytes = utf8 s ∨ ¬ IsUtf8 bytes ∧ Sequences (fun _ => true) bytes (utf16 s) := by
  have hofList : ∀ cs : List Char, String.ofList cs = s ↔ cs = s.toList := fun cs =>
    ⟨fun h => by rw [← h, String.toList_ofList], fun h => by rw [h, String.ofList_toList]⟩
  rw [decodeModifiedUtf8, ← decodeUtf8?_eq_some_iff, isUtf8_iff, ← decodeUtf16?_units?_eq_some_iff]
  cases decodeUtf8? bytes with
  | some cs => simp [hofList]
  | none =>
    rw [Option.none_or]
    cases (units? bytes).bind decodeUtf16? with
    | none => simp
    | some cs => simp [hofList]

/-- The byte `10xxxxxx` with the same last six bits. -/
def asTail (b : UInt8) : UInt8 := UInt8.ofNat (0x80 + tailBits b)

theorem toNat_asTail (b : UInt8) : (asTail b).toNat = 0x80 + tailBits b := by
  rw [asTail, toNat_ofNat_byte]
  rw [tailBits]
  omega

theorem isTail_asTail (b : UInt8) : isTail (asTail b) = true := by
  have hbits : tailBits b < 0x40 := Nat.mod_lt _ (by decide)
  rw [isTail, toNat_asTail]
  simp
  omega

theorem tailBits_asTail (b : UInt8) : tailBits (asTail b) = tailBits b := by
  have hbits : tailBits b < 0x40 := Nat.mod_lt _ (by decide)
  rw [tailBits, toNat_asTail]
  omega

/-- The bytes differ at most in that some of them have become `10xxxxxx`. -/
def Mends (mended bytes : List UInt8) : Prop :=
  List.Forall₂ (fun m b => m = b ∨ m = asTail b) mended bytes

/-- Bytes that stand where `10xxxxxx` should are read as if they did. -/
theorem Sequences.exists_mended {tail : UInt8 → Bool} {bytes : List UInt8} {units : List UInt16}
    (h : Sequences tail bytes units) : ∃ mended, Mends mended bytes ∧ Sequences isTail mended units := by
  induction h with
  | nil => exact ⟨[], .nil, .nil⟩
  | one ha hvalue _ ih =>
    obtain ⟨mended, hmends, hmended⟩ := ih
    exact ⟨_ :: mended, .cons (.inl rfl) hmends, .one ha hvalue hmended⟩
  | @two a b _ _ _ hge hlt _ hvalue _ ih =>
    obtain ⟨mended, hmends, hmended⟩ := ih
    refine ⟨a :: asTail b :: mended, .cons (.inl rfl) (.cons (.inr rfl) hmends),
      .two hge hlt (isTail_asTail b) ?_ hmended⟩
    rw [hvalue, twoBytes, twoBytes, tailBits_asTail]
  | @three a b c _ _ _ hge hlt _ _ hvalue _ ih =>
    obtain ⟨mended, hmends, hmended⟩ := ih
    refine ⟨a :: asTail b :: asTail c :: mended,
      .cons (.inl rfl) (.cons (.inr rfl) (.cons (.inr rfl) hmends)),
      .three hge hlt (isTail_asTail b) (isTail_asTail c) ?_ hmended⟩
    rw [hvalue, threeBytes, threeBytes, tailBits_asTail, tailBits_asTail]

/-- Bytes are refused exactly if they are neither standard UTF-8 nor sequences of the units of a text,
where any byte may follow the first one of a sequence.  What is read from bytes that are not standard
UTF-8 is what modified UTF-8 says once these bytes have become `10xxxxxx`. -/
theorem decodeModifiedUtf8_refuses_iff (bytes : List UInt8) :
    (∀ s, decodeModifiedUtf8 bytes = .ok s ↔
        bytes = utf8 s ∨ ¬ IsUtf8 bytes ∧ Sequences (fun _ => true) bytes (utf16 s)) ∧
      (decodeModifiedUtf8 bytes = .error .invalidModifiedUtf8 ↔
        ¬ IsUtf8 bytes ∧ ∀ s, ¬ Sequences (fun _ => true) bytes (utf16 s)) ∧
      ∀ s, ¬ IsUtf8 bytes → decodeModifiedUtf8 bytes = .ok s →
        ∃ mended, Mends mended bytes ∧ IsModifiedUtf8 mended ∧ decodeModifiedUtf8 mended = .ok s := by
  have hok : ∀ s, decodeModifiedUtf8 bytes = .ok s ↔
      bytes = utf8 s ∨ ¬ IsUtf8 bytes ∧ Sequences (fun _ => true) bytes (utf16 s) :=
    fun _ => decodeModifiedUtf8_eq_ok_iff
  have herror : decodeModifiedUtf8 bytes = .error .invalidModifiedUtf8 ↔
      ∀ s, decodeModifiedUtf8 bytes ≠ .ok s := by
    rw [decodeModifiedUtf8]
    split <;> simp
  refine ⟨hok, ?_, ?_⟩
  · rw [herror]
    constructor
    · intro h
      have hutf8 : ¬ IsUtf8 bytes := by
        rintro ⟨s, hs⟩
        exact h s ((hok s).mpr (.inl hs))
      exact ⟨hutf8, fun s hs => h s ((hok s).mpr (.inr ⟨hutf8, hs⟩))⟩
    · rintro ⟨hutf8, hsequences⟩ s hs
      rcases (hok s).mp hs with hs | ⟨-, hs⟩
      · exact hutf8 ⟨s, hs⟩
      · exact hsequences s hs
  · intro s hutf8 hs
    rcases (hok s).mp hs with hs | ⟨-, hs⟩
    · exact absurd ⟨s, hs⟩ hutf8
    · obtain ⟨mended, hmends, hmended⟩ := hs.exists_mended
      exact ⟨mended, hmends, ⟨_, hmended⟩, decodeModifiedUtf8_of_sequences hmended⟩

theorem letterAfterLead_not_isUtf8 : ¬ IsUtf8 [0xC3, 0x41] := by
  rw [isUtf8_iff]
  rintro ⟨cs, hcs⟩
  cases hcs

/-- A letter where `10xxxxxx` should stand is read as if it did. -/
theorem letterAfterLead_mended :
    ¬ IsUtf8 [0xC3, 0x41] ∧ decodeModifiedUtf8 [0xC3, 0x41] = .ok "Á" ∧
      ∃ mended, Mends mended [0xC3, 0x41] ∧ IsModifiedUtf8 mended ∧
        decodeModifiedUtf8 mended = .ok "Á" :=
  ⟨letterAfterLead_not_isUtf8, rfl,
    (decodeModifiedUtf8_refuses_iff [0xC3, 0x41]).2.2 "Á" letterAfterLead_not_isUtf8 rfl⟩

/-- Bytes that are neither standard nor modified UTF-8 need not be refused. -/
theorem letterAfterLead_read :
    ¬ ∀ bytes, ¬ IsUtf8 bytes → ¬ IsModifiedUtf8 bytes →
      decodeModifiedUtf8 bytes = .error .invalidModifiedUtf8 := by
  intro hrefused
  have hmodified : ¬ IsModifiedUtf8 [0xC3, 0x41] := by
    rintro ⟨units, hunits⟩
    cases hunits with
    | one ha => exact absurd ha (by decide)
    | two _ _ hb => exact absurd hb (by decide)
  have hread : decodeModifiedUtf8 [0xC3, 0x41] = .ok "Á" := by rfl
  rw [hrefused _ letterAfterLead_not_isUtf8 hmodified] at hread
  cases hread

end JavaSema.ClassFile
