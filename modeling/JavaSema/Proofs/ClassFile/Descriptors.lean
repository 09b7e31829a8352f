import JavaSema.ClassDef.Generic
import JavaSema.Proofs.Text

/-!
# Descriptors are read exactly

A text is read as a descriptor just if it is the printed form of one whose class names can be told from
the rest of the text, and then as that descriptor.

There are three groups.

* Each reader gives back what was printed, and nothing else: field types, results, parameters.
* Whole descriptors, and the errors, which quote what was left of the text.
* The types that descriptors denote: an array has the dimensions of its descriptor.
-/

namespace JavaSema.ClassFile

/-! ## Readers -/

/-- The class names are not empty and hold no semicolon. -/
def FieldType.WellNamed : FieldType → Prop
  | .base _ => True
  | .object internal => internal ≠ "" ∧ ';' ∉ internal.toList
  | .array t => t.WellNamed

/-- The class names of the result are not empty and hold no semicolon. -/
def ReturnType.WellNamed : ReturnType → Prop
  | .void => True
  | .value t => t.WellNamed

/-- The class names of the parameters and of the result are not empty and hold no semicolon. -/
structure MethodDescriptor.WellNamed (d : MethodDescriptor) : Prop where
  params : ∀ t ∈ d.params, t.WellNamed
  returnType : d.returnType.WellNamed

theorem FieldType.parseChars_print {t : FieldType} (h : t.WellNamed) (rest : List Char) :
    parseChars (t.print ++ rest) = .ok (t, rest) := by
  induction t with
  | base p => rw [print, List.singleton_append, parseChars, Primitive.ofLetter?_eq_some_iff.mpr rfl]
  | object internal =>
    obtain ⟨hne, hnot⟩ := h
    obtain ⟨c, cs, hname⟩ := List.exists_cons_of_ne_nil (l := internal.toList) (by simpa using hne)
    rw [hname] at hnot
    have hletter : Primitive.ofLetter? 'L' = none := rfl
    have hsplit : Text.splitFirstChars? ';' (c :: cs ++ ';' :: rest) = some (c :: cs, rest) :=
      Text.splitFirstChars?_eq_some.mpr ⟨rfl, hnot⟩
    have hinternal : String.ofList (c :: cs) = internal := by rw [← hname, String.ofList_toList]
    rw [print, hname, List.cons_append, List.cons_append, List.append_assoc, List.singleton_append,
      parseChars]
    simp only [hletter, hsplit, hinternal, if_true]
  | array t ih =>
    rw [print, List.cons_append, parseChars]
    simp [Primitive.ofLetter?, ih h]

/-- What is read as a field type is its printed form. -/
theorem FieldType.print_of_parseChars {s rest : List Char} {t : FieldType}
    (h : parseChars s = .ok (t, rest)) : t.WellNamed ∧ s = t.print ++ rest := by
  fun_induction parseChars s generalizing t rest with
  | case2 c s p hletter =>
    cases h
    exact ⟨trivial, by rw [print, List.singleton_append, Primitive.ofLetter?_eq_some_iff.mp hletter]⟩
  | case3 s n ns after hsplit =>
    cases h
    obtain ⟨rfl, hnot⟩ := Text.splitFirstChars?_eq_some.mp hsplit
    refine ⟨⟨fun hempty => ?_, by rwa [String.toList_ofList]⟩, by simp [print]⟩
    have hchars := congrArg String.toList hempty
    rw [String.toList_ofList] at hchars
    cases hchars
  | case5 s u after hread _ _ ih =>
    cases h
    obtain ⟨hu, hprint⟩ := ih hread
    exact ⟨hu, by rw [hprint, print, List.cons_append]⟩
  | case1 | case4 | case6 | case7 => cases h

/-- Reads what a method returns. -/
def ReturnType.parseChars : List Char → Except Error (ReturnType × List Char)
  | 'V' :: after => pure (.void, after)
  | s => do
    let (t, after) ← FieldType.parseChars s
    pure (.value t, after)

theorem FieldType.print_eq_cons (t : FieldType) : ∃ c cs, t.print = c :: cs ∧ c ≠ ')' ∧ c ≠ 'V' := by
  cases t with
  | base p => exact ⟨p.letter, [], rfl, by cases p <;> decide⟩
  | object internal => exact ⟨'L', _, rfl, by decide⟩
  | array t => exact ⟨'[', _, rfl, by decide⟩

theorem ReturnType.parseChars_print {r : ReturnType} (h : r.WellNamed) (rest : List Char) :
    parseChars (r.print ++ rest) = .ok (r, rest) := by
  cases r with
  | void => rfl
  | value t =>
    obtain ⟨c, cs, hprint, -, hc⟩ := t.print_eq_cons
    have hread := FieldType.parseChars_print h rest
    rw [print, parseChars.eq_def]
    rw [hprint] at hread ⊢
    split
    · next heq => exact absurd (List.cons.inj heq).1 hc
    · rw [hread]
      rfl

theorem ReturnType.print_of_parseChars {s rest : List Char} {r : ReturnType}
    (h : parseChars s = .ok (r, rest)) : r.WellNamed ∧ s = r.print ++ rest := by
  rw [parseChars.eq_def] at h
  split at h
  · cases h
    exact ⟨trivial, rfl⟩
  · obtain ⟨⟨t, after⟩, hread, hgives⟩ := Text.ok_of_bind h
    cases hgives
    exact FieldType.print_of_parseChars hread

theorem MethodDescriptor.parseParams_cons {whole : String} {c : Char} {s after rest : List Char}
    {t : FieldType} {ts : List FieldType} (hc : c ≠ ')')
    (ht : FieldType.parseChars (c :: s) = .ok (t, after))
    (hts : parseParams whole after = .ok (ts, rest)) :
    parseParams whole (c :: s) = .ok (t :: ts, rest) := by
  rw [parseParams.eq_def]
  split
  · next heq => cases heq
  · next heq => exact absurd (List.cons.inj heq).1 hc
  · next heq =>
    obtain ⟨rfl, rfl⟩ := List.cons.inj heq
    split
    · next hread =>
      rw [ht] at hread
      cases hread
    · next hread =>
      rw [ht] at hread
      cases hread
      rw [hts]

theorem MethodDescriptor.parseParams_print (whole : String) {ts : List FieldType}
    (h : ∀ t ∈ ts, t.WellNamed) (rest : List Char) :
    parseParams whole (ts.flatMap FieldType.print ++ ')' :: rest) = .ok (ts, rest) := by
  induction ts with
  | nil => rw [List.flatMap_nil, List.nil_append, parseParams]
  | cons t ts ih =>
    obtain ⟨ht, hts⟩ := List.forall_mem_cons.mp h
    obtain ⟨c, cs, hprint, hc, -⟩ := t.print_eq_cons
    have hread := FieldType.parseChars_print ht (ts.flatMap FieldType.print ++ ')' :: rest)
    rw [List.flatMap_cons, List.append_assoc]
    rw [hprint, List.cons_append] at hread ⊢
    exact parseParams_cons hc hread (ih hts)

theorem MethodDescriptor.print_of_parseParams {whole : String} {s rest : List Char}
    {ts : List FieldType} (h : parseParams whole s = .ok (ts, rest)) :
    (∀ t ∈ ts, t.WellNamed) ∧ s = ts.flatMap FieldType.print ++ ')' :: rest := by
  fun_induction parseParams whole s generalizing ts rest with
  | case2 rest =>
    cases h
    exact ⟨nofun, rfl⟩
  | case4 c s hc t after hread us final hparams ih =>
    cases h
    obtain ⟨ht, hprint⟩ := FieldType.print_of_parseChars hread
    obtain ⟨hus, hafter⟩ := ih hparams
    exact ⟨List.forall_mem_cons.mpr ⟨ht, hus⟩,
      by rw [hprint, hafter, List.flatMap_cons, List.append_assoc]⟩
  | case1 | case3 | case5 => cases h

/-! ## Whole descriptors -/

theorem MethodDescriptor.parse_eq {text : String} {s : List Char} (h : text.toList = '(' :: s) :
    parse text = (do
      let (params, rest) ← parseParams text s
      let (returnType, rest) ← ReturnType.parseChars rest
      if rest.isEmpty then pure { params, returnType } else throw (.invalidDescriptor text)) := by
  rw [parse, h]
  refine bind_congr fun (_, rest) => ?_
  dsimp only
  rw [ReturnType.parseChars.eq_def]
  split <;> simp only [bind_assoc, pure_bind]

/-- The text is refused as an invalid descriptor, and what was left of it is quoted. -/
def Quotes (s : List Char) (e : Error) : Prop :=
  ∃ quoted : String, quoted.toList <:+ s ∧ e = .invalidDescriptor quoted

/-- On this text the reader gives just the well-named descriptor that prints as the text, and quotes
what was left of the text if there is none. -/
structure DescribedExactly {α : Type} (parse : String → Except Error α) (WellNamed : α → Prop)
    (print : α → List Char) (text : String) : Prop where
  ok_iff : ∀ a, parse text = .ok a ↔ WellNamed a ∧ print a = text.toList
  refuses : (¬ ∃ a, WellNamed a ∧ print a = text.toList) →
    ∃ e, parse text = .error e ∧ Quotes text.toList e

theorem Quotes.of_suffix {s t : List Char} {e : Error} (h : Quotes s e) (hst : s <:+ t) :
    Quotes t e := by
  obtain ⟨quoted, hquoted, rfl⟩ := h
  exact ⟨quoted, hquoted.trans hst, rfl⟩

theorem quotes_self (text : String) : Quotes text.toList (.invalidDescriptor text) :=
  ⟨text, List.suffix_refl _, rfl⟩

theorem FieldType.quotes_of_parseChars {s : List Char} {e : Error} (h : parseChars s = .error e) :
    Quotes s e := by
  fun_induction parseChars s generalizing e with
  | case2 | case3 | case5 => cases h
  | case6 s e' hread _ _ ih =>
    cases h
    exact (ih hread).of_suffix (List.suffix_cons _ _)
  | case1 | case4 | case7 =>
    cases h
    exact ⟨_, by simp, rfl⟩

theorem ReturnType.quotes_of_parseChars {s : List Char} {e : Error} (h : parseChars s = .error e) :
    Quotes s e := by
  rw [parseChars.eq_def] at h
  split at h
  · cases h
  · rcases Text.error_of_bind h with h | ⟨_, -, h⟩
    · exact FieldType.quotes_of_parseChars h
    · cases h

theorem MethodDescriptor.quotes_of_parseParams {whole : String} {s : List Char} {e : Error}
    (h : parseParams whole s = .error e) (hs : s <:+ whole.toList) : Quotes whole.toList e := by
  fun_induction parseParams whole s generalizing e with
  | case1 =>
    cases h
    exact quotes_self whole
  | case2 => cases h
  | case3 c s hc e' hread =>
    cases h
    exact (FieldType.quotes_of_parseChars hread).of_suffix hs
  | case4 => cases h
  | case5 c s hc t after hread e' hparams ih =>
    cases h
    have hafter := (FieldType.print_of_parseChars hread).2 ▸ List.suffix_append t.print after
    exact ih hparams (hafter.trans hs)

theorem FieldType.parse_eq_ok_iff {text : String} {t : FieldType} :
    parse text = .ok t ↔ t.WellNamed ∧ t.print = text.toList := by
  constructor
  · intro h
    rw [parse] at h
    split at h
    · next hread =>
      cases h
      obtain ⟨ht, hprint⟩ := print_of_parseChars hread
      exact ⟨ht, by rw [hprint, List.append_nil]⟩
    · cases h
    · cases h
  · rintro ⟨ht, hprint⟩
    have hread := parseChars_print ht []
    rw [List.append_nil, hprint] at hread
    rw [parse, hread]

theorem FieldType.quotes_of_parse {text : String} {e : Error} (h : parse text = .error e) :
    Quotes text.toList e := by
  rw [parse] at h
  split at h
  · cases h
  · cases h
    exact quotes_self text
  · next hread =>
    cases h
    exact quotes_of_parseChars hread

theorem MethodDescriptor.parse_of_not_parenthesis {text : String} (h : text.toList.head? ≠ some '(') :
    parse text = .error (.invalidDescriptor text) := by
  rw [parse]
  split
  · next heq => exact absurd (congrArg List.head? heq) h
  · rfl

theorem MethodDescriptor.parse_eq_ok_iff {text : String} {d : MethodDescriptor} :
    parse text = .ok d ↔ d.WellNamed ∧ d.print = text.toList := by
  constructor
  · intro h
    by_cases hhead : text.toList.head? = some '('
    · obtain ⟨s, htext⟩ := List.head?_eq_some_iff.mp hhead
      rw [parse_eq htext] at h
      obtain ⟨⟨params, mid⟩, hparams, h⟩ := Text.ok_of_bind h
      obtain ⟨⟨returnType, rest⟩, hreturn, h⟩ := Text.ok_of_bind h
      dsimp only at h
      split at h
      · next hend =>
        cases h
        obtain ⟨hps, rfl⟩ := print_of_parseParams hparams
        obtain ⟨hr, rfl⟩ := ReturnType.print_of_parseChars hreturn
        rw [List.isEmpty_iff.mp hend, List.append_nil] at htext
        exact ⟨⟨hps, hr⟩, htext.symm⟩
      · cases h
    · rw [parse_of_not_parenthesis hhead] at h
      cases h
  · rintro ⟨hd, hprint⟩
    have htext : text.toList = '(' :: (d.params.flatMap FieldType.print ++ ')' :: d.returnType.print) :=
      hprint.symm
    have hparams := parseParams_print text hd.params d.returnType.print
    have hreturn := ReturnType.parseChars_print hd.returnType []
    rw [List.append_nil] at hreturn
    rw [parse_eq htext, Text.bind_of_ok hparams]
    dsimp only
    rw [Text.bind_of_ok hreturn]
    rfl

theorem MethodDescriptor.quotes_of_parse {text : String} {e : Error} (h : parse text = .error e) :
    Quotes text.toList e := by
  by_cases hhead : text.toList.head? = some '('
  · obtain ⟨s, htext⟩ := List.head?_eq_some_iff.mp hhead
    have hs : s <:+ text.toList := htext ▸ List.suffix_cons _ _
    rw [parse_eq htext] at h
    rcases Text.error_of_bind h with h | ⟨⟨params, mid⟩, hparams, h⟩
    · exact quotes_of_parseParams h hs
    have hmid : mid <:+ text.toList := by
      refine List.IsSuffix.trans ?_ hs
      rw [(print_of_parseParams hparams).2]
      exact (List.suffix_cons _ _).trans (List.suffix_append _ _)
    rcases Text.error_of_bind h with h | ⟨⟨returnType, rest⟩, -, h⟩
    · exact (ReturnType.quotes_of_parseChars h).of_suffix hmid
    dsimp only at h
    split at h
    · cases h
    · cases h
      exact quotes_self text
  · rw [parse_of_not_parenthesis hhead] at h
    cases h
    exact quotes_self text

/-- A reader that accepts the printed forms only, and quotes the text in its errors, reads exactly. -/
theorem describedExactly {α : Type} {parse : String → Except Error α} {WellNamed : α → Prop}
    {print : α → List Char} {text : String}
    (hok : ∀ {a}, parse text = .ok a ↔ WellNamed a ∧ print a = text.toList)
    (herror : ∀ {e}, parse text = .error e → Quotes text.toList e) :
    DescribedExactly parse WellNamed print text := by
  refine ⟨fun _ => hok, fun hnone => ?_⟩
  cases hread : parse text with
  | ok a => exact absurd ⟨a, hok.mp hread⟩ hnone
  | error e => exact ⟨e, rfl, herror hread⟩

/-! ## Types -/

theorem FieldType.element_ne_array (t u : FieldType) : t.element ≠ .array u := by
  induction t with
  | base | object => nofun
  | array t ih => exact ih

theorem ofDescriptor_eq_arrayOf (t : FieldType) :
    JType.ofDescriptor t = (JType.ofDescriptor t.element).arrayOf t.dimensions := by
  induction t with
  | base | object => rfl
  | array t ih =>
    have hdims : t.dimensions + 1 = 1 + t.dimensions := Nat.add_comm _ _
    rw [JType.ofDescriptor, ih, FieldType.element, FieldType.dimensions, ← hdims]
    rfl

theorem dims_ofDescriptor_element (t : FieldType) : (JType.ofDescriptor t.element).dims = 0 := by
  induction t with
  | base | object => rfl
  | array t ih => exact ih

/-- A text is accepted as the descriptor of a field or a method just if it is the printed form of one
with well-formed class names, and this is what is read; every other text is refused as an invalid
descriptor.  The type of a field has the dimensions of its descriptor over the type of the element, which
is no array. -/
theorem parse_describedExactly (text : String) :
    DescribedExactly FieldType.parse FieldType.WellNamed FieldType.print text ∧
      DescribedExactly MethodDescriptor.parse MethodDescriptor.WellNamed MethodDescriptor.print
        text ∧
      ∀ t : FieldType, (∀ u, t.element ≠ .array u) ∧ (JType.ofDescriptor t.element).dims = 0 ∧
        JType.ofDescriptor t = (JType.ofDescriptor t.element).arrayOf t.dimensions ∧
        (JType.ofDescriptor t).dims = t.dimensions := by
  refine ⟨describedExactly FieldType.parse_eq_ok_iff FieldType.quotes_of_parse,
    describedExactly MethodDescriptor.parse_eq_ok_iff MethodDescriptor.quotes_of_parse, fun t => ?_⟩
  have helement := dims_ofDescriptor_element t
  have harray := ofDescriptor_eq_arrayOf t
  refine ⟨t.element_ne_array, helement, harray, ?_⟩
  rw [harray, JType.arrayOf, helement, Nat.zero_add]

end JavaSema.ClassFile
