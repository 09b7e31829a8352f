import JavaSema.ClassFile.ModifiedUtf8

/-!
# The written form of text constants

A text constant is a list of UTF-16 units, each of which is written in one, two or three bytes.  This
module gives that written form and says what is read from it.

There are four groups.

* UTF-16.  `utf16` gives the units of a text, and `decodeUtf16?_eq_some_iff` says that reading units
  is the inverse.  Units with a half of a surrogate pair alone are those of no text.
* Sequences.  `Sequences` says how bytes fall apart at the first bytes of sequences, and which units
  they stand for.
* Modified UTF-8.  `modifiedUtf8` gives the bytes of a list of units, which are such sequences.
* Reading.  `decodeModifiedUtf8_modifiedUtf8` says that the bytes of units are read as the text that
  has these units, and refused if there is none.
-/

namespace JavaSema.ClassFile

open Text

/-! ## UTF-16 -/

/-- The UTF-16 units of a character. -/
def charUnits (c : Char) : List UInt16 :=
  if c.toNat < 0x10000 then [UInt16.ofNat c.toNat]
  else
    [UInt16.ofNat (0xD800 + (c.toNat - 0x10000) / 0x400),
      UInt16.ofNat (0xDC00 + (c.toNat - 0x10000) % 0x400)]

/-- The UTF-16 units of a text. -/
def utf16 (s : String) : List UInt16 := s.toList.flatMap charUnits

theorem char_toNat_lt (c : Char) : c.toNat < 0x110000 := by
  have hvalid := c.valid
  simp only [UInt32.isValidChar, Nat.isValidChar] at hvalid
  show c.val.toNat < 0x110000
  omega

theorem isSurrogate_toNat (c : Char) : isSurrogate c.toNat = false := by
  have hvalid := c.valid
  simp only [UInt32.isValidChar, Nat.isValidChar] at hvalid
  rw [isSurrogate, Bool.and_eq_false_iff, decide_eq_false_iff_not, decide_eq_false_iff_not]
  show ¬ 0xD800 ≤ c.val.toNat ∨ ¬ c.val.toNat < 0xE000
  omega

theorem isSurrogate_of_lt {n : Nat} (h : n < 0xD800) : isSurrogate n = false := by
  simp [isSurrogate]
  omega

theorem toNat_ofNat_of_valid {n : Nat} (hlt : n < 0x110000) (hsur : isSurrogate n = false) :
    (Char.ofNat n).toNat = n := by
  have hvalid : n.isValidChar := by
    simp [isSurrogate] at hsur
    simp only [Nat.isValidChar]
    omega
  rw [Char.ofNat, dif_pos hvalid]
  rfl

theorem toNat_ofNat_unit {n : Nat} (h : n < 0x10000) : (UInt16.ofNat n).toNat = n := by
  simp
  omega

theorem decodeUtf16?_single {n : Nat} (h : isSurrogate n = false) (rest : List Nat) :
    decodeUtf16? (n :: rest) = (decodeUtf16? rest).map (Char.ofNat n :: ·) := by
  rw [decodeUtf16?.eq_def]
  simp [h]

theorem decodeUtf16?_charUnits (c : Char) (rest : List Nat) :
    decodeUtf16? ((charUnits c).map UInt16.toNat ++ rest) = (decodeUtf16? rest).map (c :: ·) := by
  have hlt := char_toNat_lt c
  have hsur := isSurrogate_toNat c
  by_cases hsmall : c.toNat < 0x10000
  · rw [charUnits, if_pos hsmall, List.map_cons, List.map_nil, List.singleton_append,
      toNat_ofNat_unit hsmall, decodeUtf16?_single hsur, Char.ofNat_toNat]
  · have hhigh := toNat_ofNat_unit (n := 0xD800 + (c.toNat - 0x10000) / 0x400) (by omega)
    have hlow := toNat_ofNat_unit (n := 0xDC00 + (c.toNat - 0x10000) % 0x400) (by omega)
    rw [charUnits, if_neg hsmall]
    simp only [List.map_cons, List.map_nil, List.cons_append, List.nil_append, hhigh, hlow]
    have hfirst : isSurrogate (0xD800 + (c.toNat - 0x10000) / 0x400) = true := by
      simp [isSurrogate]
      omega
    have hpair : (decide (0xD800 + (c.toNat - 0x10000) / 0x400 < 0xDC00)
        && decide (0xDC00 ≤ 0xDC00 + (c.toNat - 0x10000) % 0x400)
        && decide (0xDC00 + (c.toNat - 0x10000) % 0x400 < 0xE000)) = true := by
      simp
      omega
    have hsum : 0x10000 + (0xD800 + (c.toNat - 0x10000) / 0x400 - 0xD800) * 0x400
        + (0xDC00 + (c.toNat - 0x10000) % 0x400 - 0xDC00) = c.toNat := by omega
    rw [decodeUtf16?.eq_def]
    simp only [hfirst, Bool.not_true, Bool.false_eq_true, if_false, hpair, if_true, hsum,
      Char.ofNat_toNat]

theorem decodeUtf16?_flatMap (cs : List Char) :
    decodeUtf16? ((cs.flatMap charUnits).map UInt16.toNat) = some cs := by
  induction cs with
  | nil => rfl
  | cons c cs ih =>
    rw [List.flatMap_cons, List.map_append, decodeUtf16?_charUnits, ih]
    rfl

/-- Units are read as a text only if they are its units. -/
theorem eq_of_decodeUtf16? {units : List UInt16} {cs : List Char}
    (h : decodeUtf16? (units.map UInt16.toNat) = some cs) : units = cs.flatMap charUnits := by
  -- A pair of surrogates takes two units off the front, so the length goes down by one or two.
  induction hlength : units.length using Nat.strongRecOn generalizing units cs with
  | ind n ih =>
    cases units with
    | nil =>
      simp [decodeUtf16?] at h
      simp [h]
    | cons u units =>
      have hu := u.toNat_lt
      rw [List.map_cons, decodeUtf16?.eq_def] at h
      dsimp only at h
      split at h
      · next hsur =>
        obtain ⟨ds, hds, rfl⟩ := Option.map_eq_some_iff.mp h
        have hrest := ih units.length (by simp at hlength; omega) hds rfl
        have hchar : (Char.ofNat u.toNat).toNat = u.toNat :=
          toNat_ofNat_of_valid (by omega) (by simpa using hsur)
        rw [List.flatMap_cons, charUnits, hchar, if_pos (by omega), ← hrest]
        simp
      · next hsur =>
        cases units with
        | nil => simp at h
        | cons v units =>
          simp only [List.map_cons] at h
          split at h
          · next hpair =>
            obtain ⟨ds, hds, rfl⟩ := Option.map_eq_some_iff.mp h
            have hrest := ih units.length (by simp at hlength; omega) hds rfl
            simp [isSurrogate] at hsur hpair
            have hchar : (Char.ofNat (0x10000 + (u.toNat - 0xD800) * 0x400
                + (v.toNat - 0xDC00))).toNat
                = 0x10000 + (u.toNat - 0xD800) * 0x400 + (v.toNat - 0xDC00) := by
              apply toNat_ofNat_of_valid (by omega)
              simp [isSurrogate]
              omega
            have hhigh : 0xD800 + (0x10000 + (u.toNat - 0xD800) * 0x400 + (v.toNat - 0xDC00)
                - 0x10000) / 0x400 = u.toNat := by omega
            have hlow : 0xDC00 + (0x10000 + (u.toNat - 0xD800) * 0x400 + (v.toNat - 0xDC00)
                - 0x10000) % 0x400 = v.toNat := by omega
            rw [List.flatMap_cons, charUnits, hchar, if_neg (by omega), hhigh, hlow, ← hrest]
            simp
          · simp at h

/-- Units are read as a text exactly if they are its units. -/
theorem decodeUtf16?_eq_some_iff {units : List UInt16} {s : String} :
    decodeUtf16? (units.map UInt16.toNat) = some s.toList ↔ units = utf16 s := by
  constructor
  · exact eq_of_decodeUtf16?
  · rintro rfl
    exact decodeUtf16?_flatMap s.toList

/-! ## Sequences -/

/-- The bytes are one sequence after the other, each with a first byte that says how many bytes it
has, and the units are the numbers written there.  `tail` says what may follow a first byte. -/
inductive Sequences (tail : UInt8 → Bool) : List UInt8 → List UInt16 → Prop where
  | nil : Sequences tail [] []
  | one {a : UInt8} {u : UInt16} {bytes : List UInt8} {units : List UInt16} : a.toNat < 0x80 →
      u.toNat = a.toNat → Sequences tail bytes units → Sequences tail (a :: bytes) (u :: units)
  | two {a b : UInt8} {u : UInt16} {bytes : List UInt8} {units : List UInt16} : 0xC0 ≤ a.toNat →
      a.toNat < 0xE0 → tail b = true → u.toNat = twoBytes a b → Sequences tail bytes units →
      Sequences tail (a :: b :: bytes) (u :: units)
  | three {a b c : UInt8} {u : UInt16} {bytes : List UInt8} {units : List UInt16} :
      0xE0 ≤ a.toNat → a.toNat < 0xF0 → tail b = true → tail c = true →
      u.toNat = threeBytes a b c → Sequences tail bytes units →
      Sequences tail (a :: b :: c :: bytes) (u :: units)

theorem units?_of_sequences {tail : UInt8 → Bool} {bytes : List UInt8} {units : List UInt16}
    (h : Sequences tail bytes units) : units? bytes = some (units.map UInt16.toNat) := by
  induction h with
  | nil => rfl
  | one ha hvalue _ ih =>
    rw [units?.eq_def]
    simp only [ha, if_true, ih, Option.map_some, List.map_cons, hvalue]
  | @two a b u bytes units hge hlt _ hvalue _ ih =>
    rw [units?.eq_def]
    simp only [show ¬ a.toNat < 0x80 by omega, show ¬ a.toNat < 0xC0 by omega, hlt, if_true,
      if_false, ih, Option.map_some, List.map_cons, hvalue]
  | @three a b c u bytes units hge hlt _ _ hvalue _ ih =>
    rw [units?.eq_def]
    simp only [show ¬ a.toNat < 0x80 by omega, show ¬ a.toNat < 0xC0 by omega,
      show ¬ a.toNat < 0xE0 by omega, hlt, if_true, if_false, ih, Option.map_some, List.map_cons,
      hvalue]

/-! ## Modified UTF-8 -/

/-- The bytes of a UTF-16 unit.  The unit 0 takes two bytes. -/
def unitBytes (u : UInt16) : List UInt8 :=
  let n := u.toNat
  if 0 < n ∧ n < 0x80 then [UInt8.ofNat n]
  else if n < 0x800 then [UInt8.ofNat (0xC0 + n / 0x40), UInt8.ofNat (0x80 + n % 0x40)]
  else
    [UInt8.ofNat (0xE0 + n / 0x1000), UInt8.ofNat (0x80 + n / 0x40 % 0x40),
      UInt8.ofNat (0x80 + n % 0x40)]

/-- The bytes of a list of UTF-16 units. -/
def modifiedUtf8 (units : List UInt16) : List UInt8 := units.flatMap unitBytes

theorem toNat_ofNat_byte {n : Nat} (h : n < 0x100) : (UInt8.ofNat n).toNat = n := by
  simp
  omega

theorem isTail_of_toNat {b : UInt8} {n : Nat} (h : b.toNat = 0x80 + n % 0x40) :
    isTail b = true := by
  rw [isTail, h]
  simp
  omega

/-- The bytes of a unit are one sequence. -/
theorem sequences_unitBytes (u : UInt16) {bytes : List UInt8} {units : List UInt16}
    (h : Sequences isTail bytes units) : Sequences isTail (unitBytes u ++ bytes) (u :: units) := by
  have hu := u.toNat_lt
  by_cases hone : 0 < u.toNat ∧ u.toNat < 0x80
  · have ha := toNat_ofNat_byte (n := u.toNat) (by omega)
    rw [unitBytes, if_pos hone]
    exact .one (by omega) ha.symm h
  · by_cases htwo : u.toNat < 0x800
    · have ha := toNat_ofNat_byte (n := 0xC0 + u.toNat / 0x40) (by omega)
      have hb := toNat_ofNat_byte (n := 0x80 + u.toNat % 0x40) (by omega)
      rw [unitBytes, if_neg hone, if_pos htwo]
      refine .two (by omega) (by omega) (isTail_of_toNat hb) ?_ h
      rw [twoBytes, tailBits, ha, hb]
      omega
    · have ha := toNat_ofNat_byte (n := 0xE0 + u.toNat / 0x1000) (by omega)
      have hb := toNat_ofNat_byte (n := 0x80 + u.toNat / 0x40 % 0x40) (by omega)
      have hc := toNat_ofNat_byte (n := 0x80 + u.toNat % 0x40) (by omega)
      rw [unitBytes, if_neg hone, if_neg htwo]
      refine .three (by omega) (by omega) (isTail_of_toNat hb) (isTail_of_toNat hc) ?_ h
      rw [threeBytes, tailBits, tailBits, ha, hb, hc]
      omega

theorem sequences_modifiedUtf8 (units : List UInt16) :
    Sequences isTail (modifiedUtf8 units) units := by
  induction units with
  | nil => exact .nil
  | cons u units ih =>
    rw [modifiedUtf8, List.flatMap_cons]
    exact sequences_unitBytes u ih

/-! ## Reading -/

theorem decodeUtf8?_one {a : UInt8} (rest : List UInt8) (hlt : a.toNat < 0x80) :
    decodeUtf8? (a :: rest) = (decodeUtf8? rest).map (Char.ofNat a.toNat :: ·) := by
  rw [decodeUtf8?.eq_def]
  simp [hlt]

theorem decodeUtf8?_of_lead {a : UInt8} (rest : List UInt8) (hge : 0x80 ≤ a.toNat)
    (hlt : a.toNat < 0xC2) : decodeUtf8? (a :: rest) = none := by
  rw [decodeUtf8?.eq_def]
  grind

theorem decodeUtf8?_two {a b : UInt8} (rest : List UInt8) (hge : 0xC2 ≤ a.toNat)
    (hlt : a.toNat < 0xE0) (htail : isTail b = true) :
    decodeUtf8? (a :: b :: rest) = (decodeUtf8? rest).map (Char.ofNat (twoBytes a b) :: ·) := by
  rw [decodeUtf8?.eq_def]
  grind

theorem decodeUtf8?_three {a b c : UInt8} (rest : List UInt8) (hge : 0xE0 ≤ a.toNat)
    (hlt : a.toNat < 0xF0) (htail : isTail b = true) (htail' : isTail c = true)
    (hbig : 0x800 ≤ threeBytes a b c) (hsur : isSurrogate (threeBytes a b c) = false) :
    decodeUtf8? (a :: b :: c :: rest)
      = (decodeUtf8? rest).map (Char.ofNat (threeBytes a b c) :: ·) := by
  rw [decodeUtf8?.eq_def]
  grind

theorem decodeUtf8?_of_small {a b c : UInt8} (rest : List UInt8) (hge : 0xE0 ≤ a.toNat)
    (hlt : a.toNat < 0xF0) (hsmall : threeBytes a b c < 0x800) :
    decodeUtf8? (a :: b :: c :: rest) = none := by
  rw [decodeUtf8?.eq_def]
  grind

theorem decodeUtf8?_of_surrogate {a b c : UInt8} (rest : List UInt8) (hge : 0xE0 ≤ a.toNat)
    (hlt : a.toNat < 0xF0) (hsur : isSurrogate (threeBytes a b c) = true) :
    decodeUtf8? (a :: b :: c :: rest) = none := by
  rw [decodeUtf8?.eq_def]
  grind

/-- Sequences that are also standard UTF-8 stand for the same text. -/
theorem decodeUtf16?_of_decodeUtf8? {bytes : List UInt8} {units : List UInt16}
    (h : Sequences isTail bytes units) {cs : List Char} (hcs : decodeUtf8? bytes = some cs) :
    decodeUtf16? (units.map UInt16.toNat) = some cs := by
  induction h generalizing cs with
  | nil => simpa [decodeUtf8?, decodeUtf16?] using hcs
  | @one a u bytes units ha hvalue _ ih =>
    rw [decodeUtf8?_one _ ha, ← hvalue] at hcs
    obtain ⟨ds, hds, rfl⟩ := Option.map_eq_some_iff.mp hcs
    rw [List.map_cons, decodeUtf16?_single (isSurrogate_of_lt (by omega)), ih hds, Option.map_some]
  -- Standard UTF-8 writes no number in more bytes than it needs, and no half of a surrogate pair.
  | @two a b u bytes units hge hlt hb hvalue _ ih =>
    by_cases hlead : a.toNat < 0xC2
    · rw [decodeUtf8?_of_lead _ (by omega) hlead] at hcs
      cases hcs
    · rw [decodeUtf8?_two _ (by omega) hlt hb, ← hvalue] at hcs
      obtain ⟨ds, hds, rfl⟩ := Option.map_eq_some_iff.mp hcs
      have hsmall : u.toNat < 0x800 := by
        rw [hvalue, twoBytes, tailBits]
        omega
      rw [List.map_cons, decodeUtf16?_single (isSurrogate_of_lt (by omega)), ih hds,
        Option.map_some]
  | @three a b c u bytes units hge hlt hb hc hvalue _ ih =>
    by_cases hbig : 0x800 ≤ u.toNat
    · cases hsur : isSurrogate u.toNat with
      | true =>
        rw [decodeUtf8?_of_surrogate _ hge hlt (hvalue ▸ hsur)] at hcs
        cases hcs
      | false =>
        rw [decodeUtf8?_three _ hge hlt hb hc (hvalue ▸ hbig) (hvalue ▸ hsur), ← hvalue] at hcs
        obtain ⟨ds, hds, rfl⟩ := Option.map_eq_some_iff.mp hcs
        rw [List.map_cons, decodeUtf16?_single hsur, ih hds, Option.map_some]
    · rw [decodeUtf8?_of_small _ hge hlt (by omega)] at hcs
      cases hcs

/-- Both ways of reading sequences come to the text that has their units. -/
theorem decode_of_sequences {bytes : List UInt8} {units : List UInt16}
    (h : Sequences isTail bytes units) :
    (decodeUtf8? bytes).or ((units? bytes).bind decodeUtf16?)
      = decodeUtf16? (units.map UInt16.toNat) := by
  rw [units?_of_sequences h, Option.bind_some]
  cases hutf8 : decodeUtf8? bytes with
  | none => rw [Option.none_or]
  | some cs => rw [Option.some_or, decodeUtf16?_of_decodeUtf8? h hutf8]

/-- Sequences of the units of a text are read as this text. -/
theorem decodeModifiedUtf8_of_sequences {bytes : List UInt8} {s : String}
    (h : Sequences isTail bytes (utf16 s)) : decodeModifiedUtf8 bytes = .ok s := by
  rw [decodeModifiedUtf8, decode_of_sequences h, decodeUtf16?_eq_some_iff.mpr rfl]
  exact congrArg Except.ok String.ofList_toList

/-- The bytes of units are read as the text with these units. -/
theorem decodeModifiedUtf8_modifiedUtf8 (s : String) :
    decodeModifiedUtf8 (modifiedUtf8 (utf16 s)) = .ok s :=
  decodeModifiedUtf8_of_sequences (sequences_modifiedUtf8 (utf16 s))

/-- The bytes of units that are those of no text are refused. -/
theorem decodeModifiedUtf8_error {units : List UInt16} (h : ∀ s, units ≠ utf16 s) :
    decodeModifiedUtf8 (modifiedUtf8 units) = .error .invalidModifiedUtf8 := by
  have hnone : decodeUtf16? (units.map UInt16.toNat) = none := by
    cases hdecode : decodeUtf16? (units.map UInt16.toNat) with
    | none => rfl
    | some cs =>
      have hunits : units = utf16 (String.ofList cs) :=
        decodeUtf16?_eq_some_iff.mp (by simpa using hdecode)
      exact absurd hunits (h _)
  rw [decodeModifiedUtf8, decode_of_sequences (sequences_modifiedUtf8 units), hnone]

end JavaSema.ClassFile
