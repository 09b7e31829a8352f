import JavaSema.Proofs.Text
import JavaSema.Source.Builder
import Mathlib.Data.List.TakeDrop
import Mathlib.Data.List.TakeWhile

/-!
# Types read back from their text

The types that are read from texts are those that can be written, and the text of such a type is read as
this type.

There are six groups.

* `AsWritten` says which types can be written.
* Characters: what the words of a type consist of, and what can follow them.
* Words, segments and dimensions are read from their texts.
* The text of a type is read as the type, by induction over `AsWritten`.
* What is read can be written, by induction on the budget.
* The nodes of a type have its shape.
-/

namespace JavaSema.Source.TypeTree

/-! ## Types that can be written -/

/-- A word of identifier characters. -/
structure IsWord (name : String) : Prop where
  ne_empty : name ≠ ""
  chars : ∀ c ∈ name.toList, isIdentifierChar c = true

/-- A word that is a type by itself. -/
def IsKeyword (name : String) : Prop :=
  name = "void" ∨ name = "var" ∨ ∃ p : Primitive, name = p.keyword

/-- Words, of which the first is no type by itself. -/
structure IsTypeName (name : QualifiedName) : Prop where
  words : ∀ s ∈ name.segments, IsWord s
  first : ∃ s ∈ name.segments.head?, ¬ IsKeyword s

/-- A type that dimensions can follow. -/
def IsElement : TypeTree → Prop
  | void | inferred | primitive _ | named _ _ => True
  | _ => False

/-- The type can be written: names consist of words, and arrays have dimensions and an element that
these can follow. -/
inductive AsWritten : TypeTree → Prop where
  | void : AsWritten void
  | inferred : AsWritten inferred
  | primitive (p : Primitive) : AsWritten (primitive p)
  | named {name : QualifiedName} {args : Option (List TypeTree)} : IsTypeName name →
      (∀ ts ∈ args, ∀ t ∈ ts, AsWritten t) → AsWritten (named name args)
  | array {element : TypeTree} {dims : Nat} : AsWritten element → element.IsElement → 0 < dims →
      AsWritten (array element dims)
  | wild : AsWritten wild
  | wildUpper {bound : TypeTree} : AsWritten bound → AsWritten (wildUpper bound)
  | wildLower {bound : TypeTree} : AsWritten bound → AsWritten (wildLower bound)

/-! ## Characters -/

theorem letterOrNumberRanges_apart :
    ∀ r ∈ Text.letterOrNumberRanges, ∀ q ∈ Text.blankRanges, r.2 < q.1 ∨ q.2 < r.1 := by
  decide +kernel

theorem isBlank_of_isAlphanum {n : Nat} (h : n < 128) :
    (Char.ofNat n).isAlphanum = true → Text.isBlank (Char.ofNat n) = false := by
  revert n
  decide +kernel

/-- No identifier character is white space. -/
theorem isBlank_of_isIdentifierChar {c : Char} (h : isIdentifierChar c = true) :
    Text.isBlank c = false := by
  rw [isIdentifierChar, Bool.or_eq_true, Bool.or_eq_true, decide_eq_true_eq, decide_eq_true_eq] at h
  rcases h with (h | rfl) | rfl
  · rw [Text.isLetterOrNumber] at h
    split at h
    · next hascii =>
      rw [← Char.ofNat_toNat c] at h ⊢
      exact isBlank_of_isAlphanum hascii h
    · obtain ⟨r, hr, hc⟩ := List.any_eq_true.mp h
      simp only [Bool.and_eq_true, decide_eq_true_eq] at hc
      rw [Text.isBlank, List.any_eq_false]
      intro q hq
      have hapart := letterOrNumberRanges_apart r hr q hq
      simp only [Bool.and_eq_true, decide_eq_true_eq]
      omega
  · decide
  · decide

theorem isWord_of_all {name : String} (hne : name ≠ "")
    (hchars : name.toList.all isIdentifierChar = true) : IsWord name :=
  ⟨hne, List.all_eq_true.mp hchars⟩

theorem IsWord.exists_cons {name : String} (h : IsWord name) :
    ∃ c s, name.toList = c :: s ∧ isIdentifierChar c = true := by
  obtain ⟨c, s, hname⟩ :=
    List.exists_cons_of_ne_nil (String.toList_eq_nil_iff.not.mpr h.ne_empty)
  exact ⟨c, s, hname, h.chars c (by simp [hname])⟩

theorem IsTypeName.exists_cons {name : QualifiedName} (h : IsTypeName name) :
    ∃ first more, name = ⟨first :: more⟩ ∧ IsWord first ∧ ¬ IsKeyword first
      ∧ ∀ n ∈ more, IsWord n := by
  obtain ⟨_ | ⟨first, more⟩⟩ := name
  · obtain ⟨s, hs, -⟩ := h.first
    cases hs
  · obtain ⟨s, hs, hkeyword⟩ := h.first
    obtain rfl : first = s := Option.some.inj hs
    exact ⟨first, more, rfl, h.words first List.mem_cons_self, hkeyword,
      fun n hn => h.words n (List.mem_cons_of_mem _ hn)⟩

/-- The text that is left starts with one of the marks, if there is any. -/
def Follows (marks rest : List Char) : Prop := ∀ c ∈ rest.head?, c ∈ marks

section Characters

variable {c d : Char} {marks s rest : List Char}

theorem trimStartChars_cons (h : Text.isBlank c = false) : Text.trimStartChars (c :: s) = c :: s :=
  List.dropWhile_cons_of_neg (by simp [h])

theorem trimStartChars_blank : Text.trimStartChars (' ' :: s) = Text.trimStartChars s :=
  List.dropWhile_cons_of_pos (by decide)

theorem eat_self (h : Text.isBlank c = false) : eat c (c :: s) = some s := by
  rw [eat, trimStartChars_cons h]
  exact if_pos rfl

theorem eat_blank : eat c (' ' :: s) = eat c s := by
  rw [eat, trimStartChars_blank, eat]

theorem eat_of_ne (h : Text.isBlank d = false) (hne : d ≠ c) : eat c (d :: s) = none := by
  rw [eat, trimStartChars_cons h]
  exact if_neg hne

/-- The marks are no white space, and the character is none of them. -/
def excludes (c : Char) (marks : List Char) : Bool :=
  marks.all fun d => !Text.isBlank d && d != c

theorem ne_of_excludes (hmarks : excludes c marks = true) (h : Follows marks (d :: s)) :
    Text.isBlank d = false ∧ d ≠ c := by
  have hd := List.all_eq_true.mp hmarks d (h d rfl)
  simpa using hd

theorem eat_of_follows (hmarks : excludes c marks = true) (h : Follows marks rest) :
    eat c rest = none := by
  cases rest with
  | nil => rfl
  | cons d rest =>
    obtain ⟨hblank, hne⟩ := ne_of_excludes hmarks h
    exact eat_of_ne hblank hne

theorem eat_of_isIdentifierChar (hd : isIdentifierChar d = true) (hc : isIdentifierChar c = false) :
    eat c (d :: s) = none := by
  refine eat_of_ne (isBlank_of_isIdentifierChar hd) ?_
  rintro rfl
  exact Bool.false_ne_true (hc.symm.trans hd)

theorem follows_cons (h : c ∈ marks) : Follows marks (c :: rest) := by
  intro d hd
  obtain rfl : c = d := Option.some.inj hd
  exact h

/-- No word of a type goes on with the marks. -/
theorem isIdentifierChar_of_follows (hmarks : marks.any isIdentifierChar = false)
    (h : Follows marks rest) : ∀ c ∈ rest.head?, isIdentifierChar c = false := by
  intro c hc
  simpa using List.any_eq_false.mp hmarks c (h c hc)

end Characters

/-! ## Reading the parts of a text -/

/-- The text of the segments after the first one. -/
def segmentsText (names : List String) : List Char := names.flatMap fun name => '.' :: name.toList

theorem toList_toDotted (first : String) (more : List String) :
    (QualifiedName.toDotted ⟨first :: more⟩).toList = first.toList ++ segmentsText more := by
  rw [QualifiedName.toDotted]
  induction more generalizing first with
  | nil => simp [segmentsText]
  | cons name more ih =>
    rw [Text.join_cons_cons, String.toList_append, String.toList_append, ih]
    simp [segmentsText]

theorem length_le_segmentsText (names : List String) :
    names.length ≤ (segmentsText names).length := by
  induction names with
  | nil => exact Nat.le_refl 0
  | cons name names ih =>
    rw [segmentsText, List.flatMap_cons, ← segmentsText, List.length_append, List.length_cons,
      List.length_cons]
    omega

theorem length_brackets (n : Nat) : (brackets n).toList.length = 2 * n := by
  induction n with
  | zero => rfl
  | succ n ih =>
    rw [brackets, String.toList_append, List.length_append, ih]
    exact Nat.add_comm 2 (2 * n)

section Parts

variable {rest : List Char}

/-- A word is read up to the first character that is not part of it. -/
theorem identifier_word {name : String} (hword : IsWord name)
    (hrest : ∀ c ∈ rest.head?, isIdentifierChar c = false) :
    identifier (name.toList ++ rest) = .ok (name, rest) := by
  have hspan : (name.toList ++ rest).span isIdentifierChar = (name.toList, rest) := by
    rw [List.span_eq_takeWhile_dropWhile, List.takeWhile_append_of_pos hword.chars,
      List.dropWhile_append_of_pos hword.chars]
    cases rest with
    | nil => simp
    | cons c rest => simp [hrest c rfl]
  obtain ⟨c, cs, hname, hc⟩ := hword.exists_cons
  rw [identifier]
  rw [hname] at hspan ⊢
  rw [List.cons_append] at hspan ⊢
  rw [trimStartChars_cons (isBlank_of_isIdentifierChar hc), hspan]
  show Except.ok (String.ofList (c :: cs), rest) = _
  rw [← hname, String.ofList_toList]

theorem segments_segmentsText {names : List String} (hwords : ∀ n ∈ names, IsWord n)
    (hrest : Follows ['<', '[', ',', '>'] rest) {budget : Nat} (hbudget : names.length ≤ budget) :
    segments budget (segmentsText names ++ rest) = .ok (names, rest) := by
  induction names generalizing budget with
  | nil =>
    cases budget with
    | zero => rfl
    | succ budget =>
      have hnone : eat '.' rest = none := eat_of_follows rfl hrest
      show segments (budget + 1) rest = _
      rw [segments, hnone]
  | cons name names ih =>
    obtain ⟨budget, rfl⟩ := Nat.exists_eq_add_of_le' (Nat.le_trans (Nat.succ_pos _) hbudget)
    have htext : segmentsText (name :: names) ++ rest
        = '.' :: (name.toList ++ (segmentsText names ++ rest)) := by
      simp [segmentsText]
    have hnext : ∀ c ∈ (segmentsText names ++ rest).head?, isIdentifierChar c = false := by
      cases names with
      | nil => exact isIdentifierChar_of_follows rfl hrest
      | cons n names =>
        intro c hc
        obtain rfl : '.' = c := Option.some.inj hc
        decide
    have hmore := ih (fun n hn => hwords n (List.mem_cons_of_mem _ hn))
      (Nat.le_of_succ_le_succ hbudget)
    rw [htext, segments, eat_self (by decide)]
    show (identifier _ >>= _) = _
    rw [Text.bind_of_ok (identifier_word (hwords name List.mem_cons_self) hnext)]
    exact Text.bind_of_ok hmore

theorem dimensions_brackets (hrest : Follows [',', '>'] rest) {n budget : Nat}
    (hbudget : n ≤ budget) :
    dimensions budget ((brackets n).toList ++ rest) = .ok (n, rest) := by
  induction n generalizing budget with
  | zero =>
    cases budget with
    | zero => rfl
    | succ budget =>
      have hnone : eat '[' rest = none := eat_of_follows rfl hrest
      show dimensions (budget + 1) rest = _
      rw [dimensions, hnone]
  | succ n ih =>
    obtain ⟨budget, rfl⟩ := Nat.exists_eq_add_of_le' (Nat.le_trans (Nat.succ_pos _) hbudget)
    have htext : (brackets (n + 1)).toList ++ rest
        = '[' :: ']' :: ((brackets n).toList ++ rest) := by
      rw [brackets, String.toList_append]
      rfl
    rw [htext, dimensions, eat_self (by decide)]
    dsimp only
    rw [eat_self (by decide)]
    exact Text.bind_of_ok (ih (Nat.le_of_succ_le_succ hbudget))

end Parts

/-! ## Reading the text of a type -/

/-- Reads a type without its dimensions, and no wildcard. -/
def readElement (budget : Nat) (s : List Char) : Parse (TypeTree × List Char) := do
  let (first, rest) ← identifier s
  if first == "void" then pure (void, rest)
  else if first == "var" then pure (inferred, rest)
  else
    match Primitive.ofKeyword? first with
    | some p => pure (primitive p, rest)
    | none => do
      let (more, rest) ← segments rest.length rest
      let (args, rest) ← parseArgs budget rest
      pure (named ⟨first :: more⟩ args, rest)

/-- What is no wildcard is an element with dimensions. -/
theorem parseType_succ {s : List Char} (h : eat '?' s = none) (budget : Nat) :
    parseType (budget + 1) s = (do
      let (element, rest) ← readElement budget s
      let (dims, rest) ← dimensions rest.length rest
      return (element.withDimensions dims, rest)) := by
  rw [parseType, h, readElement, bind_assoc]
  refine bind_congr fun ⟨first, rest⟩ => ?_
  dsimp only
  -- A keyword or a name: what reads it comes before the dimensions.
  split
  · rfl
  · split
    · rfl
    · cases Primitive.ofKeyword? first with
      | some p => rfl
      | none =>
        dsimp only
        rw [bind_assoc]
        exact bind_congr fun more => (bind_assoc _ _ _).symm

theorem identifier_blank (s : List Char) : identifier (' ' :: s) = identifier s := by
  rw [identifier, trimStartChars_blank, identifier]

/-- White space before a type is passed over. -/
theorem parseType_blank (budget : Nat) (s : List Char) :
    parseType budget (' ' :: s) = parseType budget s := by
  cases budget with
  | zero => rw [parseType, parseType, trimStartChars_blank]
  | succ budget => rw [parseType, parseType, eat_blank, identifier_blank]

theorem parseArgList_blank (budget : Nat) (s : List Char) :
    parseArgList budget (' ' :: s) = parseArgList budget s := by
  cases budget with
  | zero => rw [parseArgList, parseArgList, trimStartChars_blank]
  | succ budget => rw [parseArgList, parseArgList, parseType_blank]

theorem isWord_keyword (p : Primitive) : IsWord p.keyword := by
  cases p <;> exact isWord_of_all (by decide) rfl

/-- A word that is no type by itself is a name, with what follows it. -/
theorem readElement_named {first : String} {more : List String} {args : Option (List TypeTree)}
    {s afterName rest : List Char} {budget : Nat} (hfirst : IsWord first)
    (hkeyword : ¬ IsKeyword first) (hnext : ∀ c ∈ s.head?, isIdentifierChar c = false)
    (hmore : segments s.length s = .ok (more, afterName))
    (hargs : parseArgs budget afterName = .ok (args, rest)) :
    readElement budget (first.toList ++ s) = .ok (named ⟨first :: more⟩ args, rest) := by
  rw [IsKeyword, not_or, not_or, not_exists] at hkeyword
  obtain ⟨hvoid, hvar, hprimitive⟩ := hkeyword
  have hnone : Primitive.ofKeyword? first = none := by
    cases hword : Primitive.ofKeyword? first with
    | none => rfl
    | some p => exact absurd (Primitive.ofKeyword?_eq_some_iff.mp hword) (hprimitive p)
  rw [readElement, Text.bind_of_ok (identifier_word hfirst hnext)]
  dsimp only
  rw [if_neg (by simpa using hvoid), if_neg (by simpa using hvar), hnone]
  dsimp only
  rw [Text.bind_of_ok hmore]
  exact Text.bind_of_ok hargs

/-- The text of the type is read where another argument or the end follows.  A budget of three for each
character is enough: one for a type, one for its arguments and one for their list. -/
def Reads (t : TypeTree) : Prop :=
  ∀ (budget : Nat) (rest : List Char), 3 * t.text.toList.length ≤ budget → Follows [',', '>'] rest →
    parseType budget (t.text.toList ++ rest) = .ok (t, rest)

/-- The text of the type is read where dimensions, another argument or the end follows. -/
def ReadsElement (t : TypeTree) : Prop :=
  ∀ (budget : Nat) (rest : List Char), 3 * t.text.toList.length ≤ budget + 1 →
    Follows ['[', ',', '>'] rest → readElement budget (t.text.toList ++ rest) = .ok (t, rest)

theorem readsElement_void : ReadsElement void := by
  intro budget rest _ hrest
  have hnext := isIdentifierChar_of_follows rfl hrest
  show readElement budget ("void".toList ++ rest) = _
  rw [readElement, Text.bind_of_ok (identifier_word (isWord_of_all (by decide) rfl) hnext)]
  rfl

theorem readsElement_inferred : ReadsElement inferred := by
  intro budget rest _ hrest
  have hnext := isIdentifierChar_of_follows rfl hrest
  show readElement budget ("var".toList ++ rest) = _
  rw [readElement, Text.bind_of_ok (identifier_word (isWord_of_all (by decide) rfl) hnext)]
  rfl

theorem readsElement_primitive (p : Primitive) : ReadsElement (primitive p) := by
  intro budget rest _ hrest
  have hnext := isIdentifierChar_of_follows rfl hrest
  show readElement budget (p.keyword.toList ++ rest) = _
  rw [readElement, Text.bind_of_ok (identifier_word (isWord_keyword p) hnext)]
  cases p <;> rfl

/-- The text of an element starts with a word. -/
theorem AsWritten.exists_text_word {t : TypeTree} (h : t.AsWritten) (helement : t.IsElement) :
    ∃ c s, t.text.toList = c :: s ∧ isIdentifierChar c = true := by
  cases h with
  | void => exact ⟨_, _, rfl, by decide⟩
  | inferred => exact ⟨_, _, rfl, by decide⟩
  | primitive p => cases p <;> exact ⟨_, _, rfl, by decide⟩
  | named hname _ =>
    obtain ⟨first, more, rfl, hfirst, -⟩ := hname.exists_cons
    obtain ⟨c, s, htext, hc⟩ := hfirst.exists_cons
    exact ⟨c, _, by rw [text, String.toList_append, toList_toDotted, htext]; rfl, hc⟩
  | array | wild | wildUpper | wildLower => exact helement.elim

theorem AsWritten.exists_text_cons {t : TypeTree} (h : t.AsWritten) :
    ∃ c s, t.text.toList = c :: s ∧ (c = '?' ∨ isIdentifierChar c = true) := by
  by_cases helement : t.IsElement
  · obtain ⟨c, s, htext, hc⟩ := h.exists_text_word helement
    exact ⟨c, s, htext, .inr hc⟩
  · cases h with
    | array h hword _ =>
      obtain ⟨c, s, htext, hc⟩ := h.exists_text_word hword
      exact ⟨c, _, by rw [text, String.toList_append, htext]; rfl, .inr hc⟩
    | wild => exact ⟨_, _, rfl, .inl rfl⟩
    | wildUpper _ => exact ⟨_, _, by rw [text, String.toList_append]; rfl, .inl rfl⟩
    | wildLower _ => exact ⟨_, _, by rw [text, String.toList_append]; rfl, .inl rfl⟩
    | void | inferred | primitive | named => exact absurd trivial helement

theorem toList_argsText (ts : List TypeTree) :
    (argsText (some ts)).toList = '<' :: ((listText ts).toList ++ ['>']) := by
  simp [argsText]

section Arguments

variable {budget : Nat} {rest : List Char}

theorem parseArgList_listText {ts : List TypeTree} (hne : ts ≠ []) (hts : ∀ t ∈ ts, Reads t)
    (hbudget : 3 * (listText ts).toList.length + 1 ≤ budget) :
    parseArgList budget ((listText ts).toList ++ '>' :: rest) = .ok (ts, rest) := by
  induction ts generalizing budget with
  | nil => exact absurd rfl hne
  | cons t ts ih =>
    obtain ⟨budget, rfl⟩ := Nat.exists_eq_add_of_le' (Nat.le_trans (Nat.le_add_left 1 _) hbudget)
    have ht : Reads t := hts t List.mem_cons_self
    cases ts with
    | nil =>
      have hread : parseType budget (t.text.toList ++ '>' :: rest) = .ok (t, '>' :: rest) :=
        ht _ _ (Nat.le_of_succ_le_succ hbudget) (follows_cons (by decide))
      show parseArgList (budget + 1) (t.text.toList ++ '>' :: rest) = _
      rw [parseArgList, Text.bind_of_ok hread]
      dsimp only
      rw [eat_self (by decide)]
      rfl
    | cons u ts =>
      have htext : (listText (t :: u :: ts)).toList
          = t.text.toList ++ ',' :: ' ' :: (listText (u :: ts)).toList := by
        simp [listText]
      rw [htext, List.length_append, List.length_cons, List.length_cons] at hbudget
      have hread := ht budget (',' :: ' ' :: ((listText (u :: ts)).toList ++ '>' :: rest))
        (by omega) (follows_cons (by decide))
      have hmore : parseArgList budget ((listText (u :: ts)).toList ++ '>' :: rest)
          = .ok (u :: ts, rest) :=
        ih (List.cons_ne_nil u ts) (fun v hv => hts v (List.mem_cons_of_mem _ hv)) (by omega)
      rw [htext, List.append_assoc, List.cons_append, List.cons_append, parseArgList,
        Text.bind_of_ok hread]
      dsimp only
      -- A comma and a blank stand before the next argument.
      rw [eat_of_ne (by decide) (by decide), eat_self (by decide)]
      dsimp only
      rw [parseArgList_blank]
      exact Text.bind_of_ok hmore

/-- The text of arguments does not start with the closing bracket. -/
theorem eat_listText {ts : List TypeTree} (hne : ts ≠ []) (hts : ∀ t ∈ ts, AsWritten t) :
    eat '>' ((listText ts).toList ++ rest) = none := by
  obtain ⟨t, ts, rfl⟩ := List.exists_cons_of_ne_nil hne
  obtain ⟨c, s, htext, hc⟩ := (hts t List.mem_cons_self).exists_text_cons
  have hlist : ∃ s', (listText (t :: ts)).toList = c :: s' := by
    cases ts with
    | nil => exact ⟨s, htext⟩
    | cons u ts =>
      refine ⟨s ++ ", ".toList ++ (listText (u :: ts)).toList, ?_⟩
      rw [listText, String.toList_append, String.toList_append, htext, List.cons_append,
        List.cons_append]
  obtain ⟨s', hs'⟩ := hlist
  rw [hs', List.cons_append]
  rcases hc with rfl | hc
  · exact eat_of_ne (by decide) (by decide)
  · exact eat_of_isIdentifierChar hc (by decide)

theorem parseArgs_argsText {args : Option (List TypeTree)}
    (hwritten : ∀ ts ∈ args, ∀ t ∈ ts, AsWritten t) (hreads : ∀ ts ∈ args, ∀ t ∈ ts, Reads t)
    (hbudget : 3 * (argsText args).toList.length ≤ budget + 4)
    (hrest : Follows ['[', ',', '>'] rest) :
    parseArgs budget ((argsText args).toList ++ rest) = .ok (args, rest) := by
  cases args with
  | none =>
    show parseArgs budget rest = _
    cases budget with
    | zero => rfl
    | succ budget => rw [parseArgs, eat_of_follows rfl hrest]
  | some ts =>
    rw [toList_argsText, List.length_cons, List.length_append, List.length_singleton] at hbudget
    obtain ⟨budget, rfl⟩ : ∃ b, budget = b + 1 := ⟨budget - 1, by omega⟩
    rw [toList_argsText, List.cons_append, List.append_assoc, List.singleton_append, parseArgs,
      eat_self (by decide)]
    dsimp only
    cases ts with
    | nil => rfl
    | cons t ts =>
      have hne := List.cons_ne_nil t ts
      have hlist : parseArgList budget ((listText (t :: ts)).toList ++ '>' :: rest)
          = .ok (t :: ts, rest) :=
        parseArgList_listText hne (hreads (t :: ts) rfl) (by omega)
      rw [eat_listText hne (hwritten (t :: ts) rfl)]
      exact Text.bind_of_ok hlist

end Arguments

theorem readsElement_named {name : QualifiedName} {args : Option (List TypeTree)}
    (hname : IsTypeName name) (hwritten : ∀ ts ∈ args, ∀ t ∈ ts, AsWritten t)
    (hreads : ∀ ts ∈ args, ∀ t ∈ ts, Reads t) : ReadsElement (named name args) := by
  intro budget rest hbudget hrest
  obtain ⟨first, more, rfl, hfirst, hkeyword, hmore⟩ := hname.exists_cons
  have htext : (named ⟨first :: more⟩ args).text.toList
      = first.toList ++ (segmentsText more ++ (argsText args).toList) := by
    rw [text, String.toList_append, toList_toDotted, List.append_assoc]
  rw [htext, List.length_append, List.length_append] at hbudget
  -- The name pays for the calls that lead to the arguments.
  have hlength : 0 < first.toList.length := by
    obtain ⟨c, cs, hc, -⟩ := hfirst.exists_cons
    simp [hc]
  have hnext : Follows ['<', '[', ',', '>'] ((argsText args).toList ++ rest) := by
    cases args with
    | none => exact fun c hc => List.mem_cons_of_mem _ (hrest c hc)
    | some ts =>
      rw [toList_argsText]
      exact follows_cons (by decide)
  have hmoreNext : Follows ['.', '<', '[', ',', '>']
      (segmentsText more ++ ((argsText args).toList ++ rest)) := by
    cases more with
    | nil => exact fun c hc => List.mem_cons_of_mem _ (hnext c hc)
    | cons n more => exact follows_cons (by decide)
  have hlong : more.length ≤ (segmentsText more ++ ((argsText args).toList ++ rest)).length :=
    Nat.le_trans (length_le_segmentsText more) (by simp)
  have hargs : parseArgs budget ((argsText args).toList ++ rest) = .ok (args, rest) :=
    parseArgs_argsText hwritten hreads (by omega) hrest
  rw [htext, List.append_assoc, List.append_assoc]
  exact readElement_named hfirst hkeyword (isIdentifierChar_of_follows rfl hmoreNext)
    (segments_segmentsText hmore hnext hlong) hargs

/-- The text of an element is read up to its dimensions. -/
theorem parseType_dims {t : TypeTree} (h : t.AsWritten) (helement : t.IsElement)
    (hread : ReadsElement t) {n budget : Nat} {rest : List Char}
    (hbudget : 3 * t.text.toList.length ≤ budget) (hrest : Follows [',', '>'] rest) :
    parseType budget (t.text.toList ++ ((brackets n).toList ++ rest))
      = .ok (t.withDimensions n, rest) := by
  obtain ⟨c, s, htext, hc⟩ := h.exists_text_word helement
  have hmark : eat '?' (t.text.toList ++ ((brackets n).toList ++ rest)) = none := by
    rw [htext]
    exact eat_of_isIdentifierChar hc (by decide)
  have hlength : t.text.toList.length = s.length + 1 := congrArg List.length htext
  obtain ⟨budget, rfl⟩ : ∃ b, budget = b + 1 := ⟨budget - 1, by omega⟩
  have hnext : Follows ['[', ',', '>'] ((brackets n).toList ++ rest) := by
    cases n with
    | zero => exact fun c hc => List.mem_cons_of_mem _ (hrest c hc)
    | succ n =>
      rw [brackets, String.toList_append]
      exact follows_cons (by decide)
  have hlong : n ≤ ((brackets n).toList ++ rest).length := by
    rw [List.length_append, length_brackets]
    omega
  rw [parseType_succ hmark, Text.bind_of_ok (hread _ _ hbudget hnext)]
  exact Text.bind_of_ok (dimensions_brackets hrest hlong)

theorem ReadsElement.reads {t : TypeTree} (hread : ReadsElement t) (h : t.AsWritten)
    (helement : t.IsElement) : Reads t :=
  fun _ _ hbudget hrest => parseType_dims h helement hread hbudget hrest (n := 0)

theorem reads_array {t : TypeTree} (h : t.AsWritten) (helement : t.IsElement)
    (hread : ReadsElement t) {n : Nat} (hn : 0 < n) : Reads (array t n) := by
  intro budget rest hbudget hrest
  rw [text, String.toList_append, List.length_append] at hbudget
  rw [text, String.toList_append, List.append_assoc,
    parseType_dims h helement hread (by omega) hrest, withDimensions, if_neg (Nat.ne_of_gt hn)]

/-- A word does not come next if a mark does. -/
theorem eatWord_of_follows {c : Char} {word : String} {marks cs rest : List Char}
    (hword : word.toList = c :: cs) (hmarks : excludes c marks = true) (h : Follows marks rest) :
    eatWord word rest = none := by
  rw [eatWord, hword]
  cases rest with
  | nil => rfl
  | cons d rest =>
    obtain ⟨hblank, hne⟩ := ne_of_excludes hmarks h
    rw [trimStartChars_cons hblank, Text.stripStartChars?, if_neg hne.symm]

theorem reads_wild : Reads wild := by
  intro budget rest hbudget hrest
  obtain ⟨budget, rfl⟩ := Nat.exists_eq_add_of_le' (Nat.le_trans (by decide : 1 ≤ 3) hbudget)
  have hextends : eatWord "extends" rest = none := eatWord_of_follows rfl rfl hrest
  have hsuper : eatWord "super" rest = none := eatWord_of_follows rfl rfl hrest
  show parseType (budget + 1) ('?' :: rest) = _
  rw [parseType, eat_self (by decide)]
  dsimp only
  rw [hextends, hsuper]

theorem parseType_extends (budget : Nat) (s : List Char) :
    parseType (budget + 1) ("? extends ".toList ++ s) = (do
      let (bound, rest) ← parseType budget s
      return (wildUpper bound, rest)) := by
  have hword : eatWord "extends" (" extends ".toList ++ s) = some (' ' :: s) := rfl
  show parseType (budget + 1) ('?' :: (" extends ".toList ++ s)) = _
  rw [parseType, eat_self (by decide)]
  dsimp only
  rw [hword]
  dsimp only
  rw [parseType_blank]

theorem parseType_super (budget : Nat) (s : List Char) :
    parseType (budget + 1) ("? super ".toList ++ s) = (do
      let (bound, rest) ← parseType budget s
      return (wildLower bound, rest)) := by
  have hother : eatWord "extends" (" super ".toList ++ s) = none := rfl
  have hword : eatWord "super" (" super ".toList ++ s) = some (' ' :: s) := rfl
  show parseType (budget + 1) ('?' :: (" super ".toList ++ s)) = _
  rw [parseType, eat_self (by decide)]
  dsimp only
  rw [hother, hword]
  dsimp only
  rw [parseType_blank]

/-- A bound is read after the words that announce it. -/
theorem reads_bounded {start : String} {wildcard : TypeTree → TypeTree} {bound : TypeTree}
    (htext : (wildcard bound).text = start ++ bound.text) (hstart : 0 < start.toList.length)
    (hstep : ∀ budget s, parseType (budget + 1) (start.toList ++ s) = (do
      let (t, rest) ← parseType budget s
      return (wildcard t, rest)))
    (h : Reads bound) : Reads (wildcard bound) := by
  intro budget rest hbudget hrest
  rw [htext, String.toList_append, List.length_append] at hbudget
  obtain ⟨budget, rfl⟩ : ∃ b, budget = b + 1 := ⟨budget - 1, by omega⟩
  rw [htext, String.toList_append, List.append_assoc, hstep]
  exact Text.bind_of_ok (h budget rest (by omega) hrest)

theorem AsWritten.reads {t : TypeTree} (h : t.AsWritten) :
    (t.IsElement → ReadsElement t) ∧ Reads t := by
  induction h with
  | void => exact ⟨fun _ => readsElement_void, readsElement_void.reads .void trivial⟩
  | inferred =>
    exact ⟨fun _ => readsElement_inferred, readsElement_inferred.reads .inferred trivial⟩
  | primitive p =>
    have hread := readsElement_primitive p
    exact ⟨fun _ => hread, hread.reads (.primitive p) trivial⟩
  | named hname hargs ih =>
    have hread := readsElement_named hname hargs fun ts hts t ht => (ih ts hts t ht).2
    exact ⟨fun _ => hread, hread.reads (.named hname hargs) trivial⟩
  | array h helement hdims ih =>
    exact ⟨False.elim, reads_array h helement (ih.1 helement) hdims⟩
  | wild => exact ⟨False.elim, reads_wild⟩
  | wildUpper _ ih => exact ⟨False.elim, reads_bounded rfl (by decide) parseType_extends ih.2⟩
  | wildLower _ ih => exact ⟨False.elim, reads_bounded rfl (by decide) parseType_super ih.2⟩

/-- Each type that can be written is read from its text. -/
theorem AsWritten.parse_text {t : TypeTree} (h : t.AsWritten) : parse t.text = .ok t := by
  have hread := h.reads.2 (parseBudget t.text.toList) []
    (Nat.le_add_right _ 3) (fun c hc => nomatch hc)
  rw [List.append_nil] at hread
  have hchars : parseChars t.text.toList = .ok t := by
    rw [parseChars, Text.bind_of_ok hread]
    rfl
  rw [parse, hchars]

/-! ## Types that are read -/

theorem isWord_of_identifier {s rest : List Char} {name : String}
    (h : identifier s = .ok (name, rest)) : IsWord name := by
  rw [identifier, List.span_eq_takeWhile_dropWhile] at h
  cases hword : (Text.trimStartChars s).takeWhile isIdentifierChar with
  | nil =>
    rw [hword] at h
    cases h
  | cons c cs =>
    rw [hword] at h
    cases h
    refine ⟨by simp, fun d hd => ?_⟩
    rw [String.toList_ofList, ← hword] at hd
    exact List.mem_takeWhile_imp hd

theorem isWord_of_segments {budget : Nat} {s rest : List Char} {names : List String}
    (h : segments budget s = .ok (names, rest)) : ∀ n ∈ names, IsWord n := by
  induction budget generalizing s names with
  | zero =>
    cases h
    exact fun n hn => nomatch hn
  | succ budget ih =>
    rw [segments] at h
    split at h
    · cases h
      exact fun n hn => nomatch hn
    · obtain ⟨⟨name, s'⟩, hname, h⟩ := Text.ok_of_bind h
      obtain ⟨⟨more, rest'⟩, hmore, h⟩ := Text.ok_of_bind h
      cases h
      exact List.forall_mem_cons.mpr ⟨isWord_of_identifier hname, ih hmore⟩

theorem AsWritten.withDimensions {t : TypeTree} (h : t.AsWritten) (helement : t.IsElement)
    (dims : Nat) : (t.withDimensions dims).AsWritten := by
  rw [TypeTree.withDimensions]
  split
  · exact h
  · next hdims => exact .array h helement (Nat.pos_of_ne_zero hdims)

/-- What the parsers read with a budget can be written. -/
structure OnlyWritten (budget : Nat) : Prop where
  type : ∀ {s t rest}, parseType budget s = .ok (t, rest) → t.AsWritten
  args : ∀ {s args rest}, parseArgs budget s = .ok (args, rest) →
    ∀ ts ∈ args, ∀ t ∈ ts, t.AsWritten
  argList : ∀ {s ts rest}, parseArgList budget s = .ok (ts, rest) → ∀ t ∈ ts, t.AsWritten

namespace OnlyWritten

variable {budget : Nat} {s rest : List Char}

/-- Only a word that is no type by itself becomes a name. -/
theorem element (ih : OnlyWritten budget) {t : TypeTree}
    (h : readElement budget s = .ok (t, rest)) : t.AsWritten ∧ t.IsElement := by
  obtain ⟨⟨first, afterFirst⟩, hfirst, h⟩ := Text.ok_of_bind h
  dsimp only at h
  by_cases hvoid : first = "void"
  · rw [if_pos (by simpa using hvoid)] at h
    cases h
    exact ⟨.void, trivial⟩
  by_cases hvar : first = "var"
  · rw [if_neg (by simpa using hvoid), if_pos (by simpa using hvar)] at h
    cases h
    exact ⟨.inferred, trivial⟩
  rw [if_neg (by simpa using hvoid), if_neg (by simpa using hvar)] at h
  cases hword : Primitive.ofKeyword? first with
  | some p =>
    rw [hword] at h
    cases h
    exact ⟨.primitive p, trivial⟩
  | none =>
    rw [hword] at h
    obtain ⟨⟨more, afterMore⟩, hmore, h⟩ := Text.ok_of_bind h
    obtain ⟨⟨args, afterArgs⟩, hargs, h⟩ := Text.ok_of_bind h
    cases h
    have hwords := List.forall_mem_cons.mpr ⟨isWord_of_identifier hfirst, isWord_of_segments hmore⟩
    have hkeyword : ¬ IsKeyword first := by
      rintro (h | h | ⟨p, hp⟩)
      · exact hvoid h
      · exact hvar h
      · exact Option.some_ne_none p ((Primitive.ofKeyword?_eq_some_iff.mpr hp).symm.trans hword)
    exact ⟨.named ⟨hwords, first, rfl, hkeyword⟩ (ih.args hargs), trivial⟩

theorem succ_type (ih : OnlyWritten budget) {t : TypeTree}
    (h : parseType (budget + 1) s = .ok (t, rest)) : t.AsWritten := by
  cases hmark : eat '?' s with
  | none =>
    rw [parseType_succ hmark] at h
    obtain ⟨⟨element, s'⟩, helement, h⟩ := Text.ok_of_bind h
    obtain ⟨⟨dims, rest'⟩, -, h⟩ := Text.ok_of_bind h
    cases h
    obtain ⟨hwritten, hword⟩ := ih.element helement
    exact hwritten.withDimensions hword dims
  | some afterMark =>
    rw [parseType, hmark] at h
    dsimp only at h
    split at h
    · obtain ⟨⟨bound, rest'⟩, hbound, h⟩ := Text.ok_of_bind h
      cases h
      exact .wildUpper (ih.type hbound)
    · obtain ⟨⟨bound, rest'⟩, hbound, h⟩ := Text.ok_of_bind h
      cases h
      exact .wildLower (ih.type hbound)
    · cases h
      exact .wild

theorem succ_args (ih : OnlyWritten budget) {args : Option (List TypeTree)}
    (h : parseArgs (budget + 1) s = .ok (args, rest)) : ∀ ts ∈ args, ∀ t ∈ ts, t.AsWritten := by
  rw [parseArgs] at h
  split at h
  · cases h
    exact fun ts hts => nomatch hts
  · split at h
    · cases h
      rintro ts ⟨rfl⟩ t ht
      cases ht
    · obtain ⟨⟨ts, rest'⟩, hts, h⟩ := Text.ok_of_bind h
      cases h
      rintro ts ⟨rfl⟩
      exact ih.argList hts

theorem succ_argList (ih : OnlyWritten budget) {ts : List TypeTree}
    (h : parseArgList (budget + 1) s = .ok (ts, rest)) : ∀ t ∈ ts, t.AsWritten := by
  rw [parseArgList] at h
  obtain ⟨⟨t, afterType⟩, ht, h⟩ := Text.ok_of_bind h
  dsimp only at h
  split at h
  · cases h
    exact List.forall_mem_singleton.mpr (ih.type ht)
  · split at h
    · obtain ⟨⟨ts', rest'⟩, hts, h⟩ := Text.ok_of_bind h
      cases h
      exact List.forall_mem_cons.mpr ⟨ih.type ht, ih.argList hts⟩
    · cases h

end OnlyWritten

theorem onlyWritten (budget : Nat) : OnlyWritten budget := by
  induction budget with
  | zero =>
    refine ⟨fun h => ?_, fun h => ?_, fun h => ?_⟩
    · cases h
    · cases h
      exact fun ts hts => nomatch hts
    · cases h
  | succ budget ih => exact ⟨ih.succ_type, ih.succ_args, ih.succ_argList⟩

/-- Each type that is read can be written. -/
theorem asWritten_of_parse {s : String} {t : TypeTree} (h : parse s = .ok t) : t.AsWritten := by
  rw [parse] at h
  split at h
  · next u hu =>
    cases h
    obtain ⟨⟨u', rest⟩, hread, hrest⟩ := Text.ok_of_bind hu
    dsimp only at hrest
    split at hrest
    · cases hrest
      exact (onlyWritten _).type hread
    · cases hrest
  · cases h

/-! ## Nodes -/

mutual

/-- The nodes that are made for a type have its shape. -/
theorem tree_type : ∀ (t : TypeTree) (b : Builder), ((Builder.type t).run b).1.tree = t
  | void, _ | inferred, _ | primitive _, _ | named _ none, _ | wild, _ => rfl
  | named name (some args), b =>
    congrArg (fun ts => named name (some ts)) (listTree_types args b)
  | array element dims, b => congrArg (array · dims) (tree_type element b)
  | wildUpper bound, b => congrArg wildUpper (tree_type bound b)
  | wildLower bound, b => congrArg wildLower (tree_type bound b)

theorem listTree_types : ∀ (ts : List TypeTree) (b : Builder),
    TypeRef.listTree ((Builder.types ts).run b).1 = ts
  | [], _ => rfl
  | t :: ts, b =>
    congrArg₂ List.cons (tree_type t b) (listTree_types ts ((Builder.type t).run b).2)

end

/-- A type that is read can be written, and the text of its node is read as the same type.  Each type
that can be written is read from some text. -/
theorem parse_text_of_parse :
    (∀ s t, parse s = .ok t → t.AsWritten ∧ ∀ b : Builder,
      ((Builder.type t).run b).1.tree = t ∧ parse ((Builder.type t).run b).1.text = .ok t)
      ∧ ∀ t, t.AsWritten → ∃ s, parse s = .ok t := by
  refine ⟨fun s t h => ⟨asWritten_of_parse h, fun b => ?_⟩, fun t h => ⟨t.text, h.parse_text⟩⟩
  have htree := tree_type t b
  refine ⟨htree, ?_⟩
  rw [TypeRef.text, htree]
  exact (asWritten_of_parse h).parse_text

/-- White space between the words does not matter. -/
theorem spacedType_read_again :
    ∃ t, parse "java . util.Map<String,?  extends List <int[ ]>> [][]" = .ok t
      ∧ t.text = "java.util.Map<String, ? extends List<int[]>>[][]"
      ∧ parse ((Builder.type t).run {}).1.text = .ok t
      ∧ ∃ s, parse s = .ok t := by
  have hread : (parse "java . util.Map<String,?  extends List <int[ ]>> [][]").toOption.map text
      = some "java.util.Map<String, ? extends List<int[]>>[][]" := by
    decide +kernel
  cases ht : parse "java . util.Map<String,?  extends List <int[ ]>> [][]" with
  | error e =>
    rw [ht] at hread
    cases hread
  | ok t =>
    rw [ht] at hread
    obtain ⟨hwritten, hnodes⟩ := parse_text_of_parse.1 _ _ ht
    exact ⟨t, rfl, Option.some.inj hread, (hnodes {}).2, parse_text_of_parse.2 _ hwritten⟩

end JavaSema.Source.TypeTree
