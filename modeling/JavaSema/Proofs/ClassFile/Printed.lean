import JavaSema.Proofs.ClassFile.Grammar
import Mathlib.Data.List.TakeDrop

/-!
# Printed signatures are read back

Each reader of generic signatures, on the printed form of a well-formed tree and whatever text may
stand behind it, gives the tree and leaves that text.

There are three groups.

* Names and packages.  An identifier is read up to the first character that ends one.
* Types, by recursion on the tree.  A type of `n` characters needs a budget of `4 * n` calls.
* Type parameters and whole signatures.
-/

namespace JavaSema.ClassFile

/-! ### Names -/

/-- No identifier goes on with this text. -/
def EndsIdentifier (rest : List Char) : Prop := ∀ c ∈ rest.head?, endsIdentifier c = true

theorem endsIdentifier_cons {c : Char} (h : endsIdentifier c = true) (rest : List Char) :
    EndsIdentifier (c :: rest) := by
  rintro _ ⟨⟩
  exact h

theorem IsIdentifier.toList_eq_cons {name : String} (h : IsIdentifier name) :
    ∃ c cs, name.toList = c :: cs ∧ endsIdentifier c = false := by
  rcases hname : name.toList with _ | ⟨c, cs⟩
  · exact absurd (String.toList_eq_nil_iff.mp hname) h.ne_empty
  · exact ⟨c, cs, rfl, h.not_ends c (by rw [hname]; exact List.mem_cons_self)⟩

theorem IsIdentifier.length_pos {name : String} (h : IsIdentifier name) : 0 < name.toList.length := by
  obtain ⟨c, cs, hname, -⟩ := h.toList_eq_cons
  rw [hname]
  exact Nat.succ_pos _

theorem parseIdentifier_print {name : String} {rest : List Char} (h : IsIdentifier name)
    (hrest : EndsIdentifier rest) : parseIdentifier (name.toList ++ rest) = some (name, rest) := by
  have hspan : (name.toList ++ rest).span (fun c => !endsIdentifier c) = (name.toList, rest) := by
    rw [List.span_eq_takeWhile_dropWhile,
      List.takeWhile_append_of_pos fun c hc => by rw [h.not_ends c hc]; rfl,
      List.dropWhile_append_of_pos fun c hc => by rw [h.not_ends c hc]; rfl]
    cases rest with
    | nil => simp
    | cons c rest => simp [hrest c rfl]
  obtain ⟨c, cs, hname, -⟩ := h.toList_eq_cons
  rw [parseIdentifier, hspan, hname]
  show some (String.ofList (c :: cs), rest) = _
  rw [← hname, String.ofList_toList]

/-- A package that stands in front is read part by part. -/
theorem parsePackage_inside {package : String} (h : IsPackage package) :
    ∃ parts ≤ (printPackage package).length, ∀ fuel s,
      parsePackage (fuel + parts) "" (printPackage package ++ s) = parsePackage fuel package s := by
  induction h with
  | unnamed => exact ⟨0, Nat.zero_le _, fun _ _ => rfl⟩
  | @inside package name _ hname ih =>
    obtain ⟨parts, hparts, hread⟩ := ih
    refine ⟨parts + 1, ?_, fun fuel s => ?_⟩
    · rw [printPackage_inside hname]
      simp only [List.length_append, List.length_singleton]
      omega
    · rw [printPackage_inside hname, List.append_assoc, List.append_assoc, Nat.add_comm parts,
        ← Nat.add_assoc, hread, parsePackage, List.singleton_append,
        parseIdentifier_print hname (endsIdentifier_cons rfl s)]
      rfl

theorem parsePackage_print {package name : String} {rest : List Char}
    (hpackage : IsPackage package) (hname : IsIdentifier name) (hrest : EndsIdentifier rest)
    (hslash : rest.head? ≠ some '/') :
    parsePackage ((printPackage package ++ name.toList ++ rest).length + 1) ""
        (printPackage package ++ name.toList ++ rest)
      = some (package, name, rest) := by
  obtain ⟨parts, hparts, hread⟩ := parsePackage_inside hpackage
  obtain ⟨left, hleft⟩ : ∃ left,
      (printPackage package ++ name.toList ++ rest).length + 1 = left + 1 + parts :=
    ⟨(printPackage package ++ name.toList ++ rest).length - parts, by
      simp only [List.length_append]
      omega⟩
  rw [hleft, List.append_assoc, hread, parsePackage, parseIdentifier_print hname hrest]
  dsimp only [Option.bind_eq_bind, Option.bind_some]
  split
  · exact absurd rfl hslash
  · rfl

/-! ### Types -/

theorem parseType_base (p : Primitive) (b : Nat) (rest : List Char) :
    parseType (b + 1) ((TypeSig.base p).print ++ rest) = some (.base p, rest) := by
  rw [TypeSig.print]
  cases p <;> rfl

/-- A type that is not primitive is read as a reference. -/
theorem parseType_reference {t : TypeSig} (h : t.IsReference) (b : Nat) (rest : List Char) :
    parseType (b + 1) (t.print ++ rest) = parseReference b (t.print ++ rest) := by
  obtain ⟨c, cs, hprint, rfl | rfl | rfl⟩ := h.print_eq_cons <;> rw [hprint] <;> rfl

theorem parseType_of_parseReference {t : TypeSig} {b : Nat} {rest : List Char}
    (h : t.IsReference → parseReference b (t.print ++ rest) = some (t, rest)) :
    parseType (b + 1) (t.print ++ rest) = some (t, rest) := by
  rcases t.eq_base_or_isReference with ⟨p, rfl⟩ | href
  · exact parseType_base p b rest
  · rw [parseType_reference href, h href]

/-- Arguments in brackets are read as a list up to the closing bracket. -/
theorem parseArgs_of_parseArgList {args : List ArgSig} {b : Nat} {rest : List Char}
    (hrest : rest.head? ≠ some '<')
    (h : parseArgList b (args.flatMap ArgSig.print ++ '>' :: rest) = some (args, rest)) :
    parseArgs (b + 1) (printArgsOpt args ++ rest) = some (args, rest) := by
  cases args with
  | nil =>
    show parseArgs (b + 1) rest = _
    rw [parseArgs.eq_def]
    dsimp only
    split
    · exact absurd rfl hrest
    · rfl
  | cons a as =>
    rw [printArgsOpt, List.append_assoc]
    exact h

/-- What follows the arguments of a class is the next class or the end of the class type. -/
theorem printInner_eq_cons (inner : List SegmentSig) (rest : List Char) :
    ∃ c cs, (inner.flatMap fun s => '.' :: s.print) ++ ';' :: rest = c :: cs ∧
      (c = '.' ∨ c = ';') := by
  cases inner with
  | nil => exact ⟨';', rest, rfl, .inr rfl⟩
  | cons s inner => exact ⟨'.', _, rfl, .inl rfl⟩

/-- What follows the name of a class is no part of it and no slash. -/
theorem printArgsOpt_eq_cons (args : List ArgSig) (inner : List SegmentSig) (rest : List Char) :
    ∃ c cs, printArgsOpt args ++ ((inner.flatMap fun s => '.' :: s.print) ++ ';' :: rest) = c :: cs ∧
      (c = '<' ∨ c = '.' ∨ c = ';') := by
  cases args with
  | nil =>
    obtain ⟨c, cs, h, hc⟩ := printInner_eq_cons inner rest
    exact ⟨c, cs, h, .inr hc⟩
  | cons a args => exact ⟨'<', _, rfl, .inl rfl⟩

theorem endsIdentifier_args (args : List ArgSig) (inner : List SegmentSig) (rest : List Char) :
    EndsIdentifier (printArgsOpt args ++ ((inner.flatMap fun s => '.' :: s.print) ++ ';' :: rest)) := by
  obtain ⟨c, cs, h, rfl | rfl | rfl⟩ := printArgsOpt_eq_cons args inner rest <;> rw [h] <;>
    exact endsIdentifier_cons rfl cs

theorem head?_args_ne (args : List ArgSig) (inner : List SegmentSig) (rest : List Char) :
    (printArgsOpt args ++ ((inner.flatMap fun s => '.' :: s.print) ++ ';' :: rest)).head?
      ≠ some '/' := by
  obtain ⟨c, cs, h, rfl | rfl | rfl⟩ := printArgsOpt_eq_cons args inner rest <;> rw [h] <;> nofun

theorem head?_inner_ne (inner : List SegmentSig) (rest : List Char) :
    ((inner.flatMap fun s => '.' :: s.print) ++ ';' :: rest).head? ≠ some '<' := by
  obtain ⟨c, cs, h, rfl | rfl⟩ := printInner_eq_cons inner rest <;> rw [h] <;> nofun

theorem length_args_le (args : List ArgSig) :
    (args.flatMap ArgSig.print).length ≤ (printArgsOpt args).length := by
  cases args with
  | nil => exact Nat.zero_le _
  | cons a args =>
    rw [printArgsOpt, List.length_append, List.length_cons]
    omega

theorem ArgSig.WellFormed.print_eq_cons {a : ArgSig} (h : a.WellFormed) :
    ∃ c cs, a.print = c :: cs ∧ c ≠ '>' := by
  rcases h with _ | ⟨_, href⟩ | _ | _
  · exact ⟨'*', [], by rw [ArgSig.print], by decide⟩
  · obtain ⟨c, cs, hprint, hc⟩ := href.print_eq_cons
    exact ⟨c, cs, by rw [ArgSig.print, hprint], by rcases hc with rfl | rfl | rfl <;> decide⟩
  · exact ⟨'+', _, by rw [ArgSig.print], by decide⟩
  · exact ⟨'-', _, by rw [ArgSig.print], by decide⟩

mutual

theorem parseReference_print : ∀ (t : TypeSig), t.WellFormed → t.IsReference → ∀ {b : Nat}
    (rest : List Char), 4 * t.print.length ≤ b + 1 →
      parseReference b (t.print ++ rest) = some (t, rest)
  | .ofClass (.mk package segments), .ofClass hc, _, b, rest, hb => by
    rw [TypeSig.print] at hb ⊢
    have hread := parseClassType_print _ hc rest (b := b - 1) (by omega)
    rw [ClassTypeSig.print] at hb hread ⊢
    obtain ⟨b, rfl⟩ : ∃ n, b = n + 1 := ⟨b - 1, by simp at hb; omega⟩
    exact congrArg (· >>= _) hread
  | .var name, .var hname, _, b, rest, hb => by
    rw [TypeSig.print] at hb ⊢
    obtain ⟨b, rfl⟩ : ∃ n, b = n + 1 := ⟨b - 1, by simp at hb; omega⟩
    have hread := parseIdentifier_print hname (endsIdentifier_cons (c := ';') rfl rest)
    rw [List.cons_append, List.cons_append, List.append_assoc, parseReference, List.singleton_append,
      hread]
    rfl
  | .array t, .array ht, _, b, rest, hb => by
    rw [TypeSig.print] at hb ⊢
    simp only [List.length_cons] at hb
    obtain ⟨b, rfl⟩ : ∃ n, b = n + 2 := ⟨b - 2, by omega⟩
    rw [List.cons_append, parseReference, parseType_of_parseReference fun href =>
      parseReference_print t ht href rest (by omega)]
    rfl

theorem parseClassType_print : ∀ (c : ClassTypeSig), c.WellFormed → ∀ {b : Nat}
    (rest : List Char), 4 * c.print.length ≤ b + 2 →
      parseClassType b (c.print ++ rest) = some (c, rest)
  | .mk package [], .mk _ hne _, b, rest, hb => absurd rfl hne
  | .mk package (.mk name args :: inner), .mk hpackage _ hsegments, b, rest, hb => by
    obtain ⟨hname, hargs⟩ := hsegments _ List.mem_cons_self
    have hinner := fun s hs => hsegments s (List.mem_cons_of_mem _ hs)
    rw [ClassTypeSig.print_mk, SegmentSig.print_mk] at hb ⊢
    simp only [List.length_append, List.length_cons, List.length_nil] at hb
    have hpos := hname.length_pos
    obtain ⟨b, rfl⟩ : ∃ n, b = n + 2 := ⟨b - 2, by omega⟩
    have hargsRead := parseArgs_of_parseArgList (b := b) (head?_inner_ne inner rest)
      (parseArgList_print args hargs _ (by have := length_args_le args; omega))
    have hinnerRead := parseSegments_print inner hinner rest (b := b + 1) (by omega)
    have hnameRead := parsePackage_print hpackage hname (endsIdentifier_args args inner rest)
      (head?_args_ne args inner rest)
    simp only [List.append_assoc, List.cons_append, List.nil_append] at hnameRead ⊢
    show (parsePackage _ "" _ >>= _) = _
    rw [hnameRead]
    show (parseArgs (b + 1) _ >>= _) = _
    rw [hargsRead]
    show (parseSegments (b + 1) _ >>= _) = _
    rw [hinnerRead]
    rfl

theorem parseSegments_print : ∀ (inner : List SegmentSig), (∀ s ∈ inner, s.WellFormed) → ∀ {b : Nat}
    (rest : List Char), 4 * (inner.flatMap fun s => '.' :: s.print).length < b →
      parseSegments b ((inner.flatMap fun s => '.' :: s.print) ++ ';' :: rest)
        = some (inner, ';' :: rest)
  | [], _, b, rest, hb => by
    obtain ⟨b, rfl⟩ : ∃ n, b = n + 1 := ⟨b - 1, by omega⟩
    rfl
  | .mk name args :: inner, h, b, rest, hb => by
    obtain ⟨hname, hargs⟩ := h _ List.mem_cons_self
    have hinner := fun s hs => h s (List.mem_cons_of_mem _ hs)
    simp only [List.flatMap_cons, SegmentSig.print_mk, List.length_append, List.length_cons] at hb ⊢
    have hpos := hname.length_pos
    obtain ⟨b, rfl⟩ : ∃ n, b = n + 2 := ⟨b - 2, by omega⟩
    have hargsRead := parseArgs_of_parseArgList (b := b) (head?_inner_ne inner rest)
      (parseArgList_print args hargs _ (by have := length_args_le args; omega))
    have hinnerRead := parseSegments_print inner hinner rest (b := b + 1) (by omega)
    have hnameRead := parseIdentifier_print hname (endsIdentifier_args args inner rest)
    simp only [List.append_assoc, List.cons_append]
    show (parseIdentifier _ >>= _) = _
    rw [hnameRead]
    show (parseArgs (b + 1) _ >>= _) = _
    rw [hargsRead]
    show (parseSegments (b + 1) _ >>= _) = _
    rw [hinnerRead]
    rfl

theorem parseArgList_print : ∀ (args : List ArgSig), (∀ a ∈ args, a.WellFormed) → ∀ {b : Nat}
    (rest : List Char), 4 * (args.flatMap ArgSig.print).length + 4 ≤ b →
      parseArgList b (args.flatMap ArgSig.print ++ '>' :: rest) = some (args, rest)
  | [], _, b, rest, hb => by
    obtain ⟨b, rfl⟩ : ∃ n, b = n + 1 := ⟨b - 1, by omega⟩
    rfl
  | a :: args, h, b, rest, hb => by
    have ha := h a List.mem_cons_self
    have hargs := fun a ha => h a (List.mem_cons_of_mem _ ha)
    rw [List.flatMap_cons, List.length_append] at hb
    obtain ⟨c, cs, hprint, hc⟩ := ha.print_eq_cons
    have hpos : 0 < a.print.length := by rw [hprint]; exact Nat.succ_pos _
    obtain ⟨b, rfl⟩ : ∃ n, b = n + 1 := ⟨b - 1, by omega⟩
    have haRead := parseArg_print a ha (args.flatMap ArgSig.print ++ '>' :: rest) (b := b) (by omega)
    have hargsRead := parseArgList_print args hargs rest (b := b) (by omega)
    have hhead : (a.print ++ (args.flatMap ArgSig.print ++ '>' :: rest)).head? ≠ some '>' := by
      rw [hprint]
      exact fun h => hc (Option.some.inj h)
    rw [List.flatMap_cons, List.append_assoc, parseArgList_step hhead, haRead]
    show (parseArgList b _ >>= _) = _
    rw [hargsRead]
    rfl

theorem parseArg_print : ∀ (a : ArgSig), a.WellFormed → ∀ {b : Nat} (rest : List Char),
    4 * a.print.length ≤ b → parseArg b (a.print ++ rest) = some (a, rest)
  | .any, _, b, rest, hb => by
    rw [ArgSig.print] at hb ⊢
    obtain ⟨b, rfl⟩ : ∃ n, b = n + 1 := ⟨b - 1, by simp at hb; omega⟩
    rfl
  | .exact t, .exact ht href, b, rest, hb => by
    rw [ArgSig.print] at hb ⊢
    have hread := parseReference_print t ht href rest (b := b - 1) (by omega)
    obtain ⟨c, cs, hprint, hc⟩ := href.print_eq_cons
    rw [hprint] at hb hread ⊢
    obtain ⟨b, rfl⟩ : ∃ n, b = n + 1 := ⟨b - 1, by simp at hb; omega⟩
    obtain rfl | rfl | rfl := hc <;> exact congrArg (· >>= _) hread
  | .upper t, .upper ht href, b, rest, hb => by
    rw [ArgSig.print, List.length_cons] at hb
    obtain ⟨b, rfl⟩ : ∃ n, b = n + 1 := ⟨b - 1, by omega⟩
    rw [ArgSig.print, List.cons_append, parseArg, parseReference_print t ht href rest (by omega)]
    rfl
  | .lower t, .lower ht href, b, rest, hb => by
    rw [ArgSig.print, List.length_cons] at hb
    obtain ⟨b, rfl⟩ : ∃ n, b = n + 1 := ⟨b - 1, by omega⟩
    rw [ArgSig.print, List.cons_append, parseArg, parseReference_print t ht href rest (by omega)]
    rfl

end

/-- The budget of a text is enough for a type at its front. -/
theorem parseReference_budget {t : TypeSig} (h : t.WellFormedReference) (rest : List Char) :
    parseReference (budget (t.print ++ rest)) (t.print ++ rest) = some (t, rest) :=
  parseReference_print t h.1 h.2 rest (by simp only [budget, List.length_append]; omega)

theorem parseType_budget {t : TypeSig} (h : t.WellFormed) (rest : List Char) :
    parseType (budget (t.print ++ rest)) (t.print ++ rest) = some (t, rest) :=
  parseType_of_parseReference fun href =>
    parseReference_print t h href rest (by simp only [List.length_append]; omega)

theorem parseClassType_budget {c : ClassTypeSig} (h : c.WellFormed) (rest : List Char) :
    parseClassType (budget (c.print ++ rest)) (c.print ++ rest) = some (c, rest) :=
  parseClassType_print c h rest (by simp only [budget, List.length_append]; omega)

/-! ### Signatures -/

theorem length_le_flatMap {α : Type} {f : α → List Char} (h : ∀ a, f a ≠ []) (l : List α) :
    l.length ≤ (l.flatMap f).length := by
  induction l with
  | nil => exact Nat.zero_le _
  | cons a l ih =>
    have ha := List.length_pos_iff.mpr (h a)
    rw [List.flatMap_cons, List.length_append, List.length_cons]
    omega

/-- The characters of a text are enough rounds for the items at its front. -/
theorem length_lt_append {α : Type} {f : α → List Char} (h : ∀ a, f a ≠ []) (l : List α)
    (rest : List Char) : l.length < (l.flatMap f ++ rest).length + 1 := by
  have hle := length_le_flatMap h l
  rw [List.length_append]
  omega

theorem parseInterfaceBounds_print {ts : List TypeSig} {rest : List Char}
    (h : ∀ t ∈ ts, t.WellFormedReference) (hrest : rest.head? ≠ some ':') :
    ∀ {fuel : Nat}, ts.length < fuel →
      parseInterfaceBounds fuel ((ts.flatMap fun t => ':' :: t.print) ++ rest) = some (ts, rest) := by
  induction ts with
  | nil =>
    intro fuel hfuel
    obtain ⟨fuel, rfl⟩ : ∃ n, fuel = n + 1 := ⟨fuel - 1, by omega⟩
    rw [List.flatMap_nil, List.nil_append, parseInterfaceBounds.eq_def]
    dsimp only
    split
    · exact absurd rfl hrest
    · rfl
  | cons t ts ih =>
    intro fuel hfuel
    obtain ⟨fuel, rfl⟩ : ∃ n, fuel = n + 1 := ⟨fuel - 1, by omega⟩
    have hread := parseReference_budget (h t List.mem_cons_self)
      ((ts.flatMap fun t => ':' :: t.print) ++ rest)
    rw [List.flatMap_cons, List.cons_append, List.cons_append, List.append_assoc, parseInterfaceBounds,
      hread]
    show (parseInterfaceBounds fuel _ >>= _) = _
    rw [ih (fun u hu => h u (List.mem_cons_of_mem _ hu)) (Nat.lt_of_succ_lt_succ hfuel)]
    rfl

theorem parseClassTypes_print {cs : List ClassTypeSig} (h : ∀ c ∈ cs, c.WellFormed) :
    ∀ {fuel : Nat}, cs.length ≤ fuel → parseClassTypes fuel (cs.flatMap ClassTypeSig.print) = some cs := by
  induction cs with
  | nil => exact fun _ => by rw [List.flatMap_nil, parseClassTypes]
  | cons c cs ih =>
    intro fuel hfuel
    obtain ⟨fuel, rfl⟩ : ∃ n, fuel = n + 1 := ⟨fuel - 1, by rw [List.length_cons] at hfuel; omega⟩
    have hread := parseClassType_budget (h c List.mem_cons_self) (cs.flatMap ClassTypeSig.print)
    obtain ⟨ds, hprint⟩ := c.print_eq_cons
    rw [List.flatMap_cons]
    rw [hprint, List.cons_append] at hread ⊢
    rw [parseClassTypes, hread]
    show (parseClassTypes fuel _ >>= _) = _
    rw [ih (fun u hu => h u (List.mem_cons_of_mem _ hu)) (Nat.le_of_succ_le_succ hfuel)]
    rfl

theorem parseThrows_print {ts : List TypeSig} (h : ∀ t ∈ ts, t.WellFormedReference) :
    ∀ {fuel : Nat}, ts.length ≤ fuel →
      parseThrows fuel (ts.flatMap fun t => '^' :: t.print) = some ts := by
  induction ts with
  | nil => exact fun _ => by rw [List.flatMap_nil, parseThrows]
  | cons t ts ih =>
    intro fuel hfuel
    obtain ⟨fuel, rfl⟩ : ∃ n, fuel = n + 1 := ⟨fuel - 1, by rw [List.length_cons] at hfuel; omega⟩
    have hread := parseReference_budget (h t List.mem_cons_self)
      (ts.flatMap fun t => '^' :: t.print)
    rw [List.flatMap_cons, List.cons_append, parseThrows, if_pos rfl, hread]
    show (parseThrows fuel _ >>= _) = _
    rw [ih (fun u hu => h u (List.mem_cons_of_mem _ hu)) (Nat.le_of_succ_le_succ hfuel)]
    rfl

theorem parseParamTypes_print {ts : List TypeSig} (h : ∀ t ∈ ts, t.WellFormed) (rest : List Char) :
    ∀ {fuel : Nat}, ts.length < fuel →
      parseParamTypes fuel (ts.flatMap TypeSig.print ++ ')' :: rest) = some (ts, rest) := by
  induction ts with
  | nil =>
    intro fuel hfuel
    obtain ⟨fuel, rfl⟩ : ∃ n, fuel = n + 1 := ⟨fuel - 1, by omega⟩
    rfl
  | cons t ts ih =>
    intro fuel hfuel
    obtain ⟨fuel, rfl⟩ : ∃ n, fuel = n + 1 := ⟨fuel - 1, by omega⟩
    have hread := parseType_budget (h t List.mem_cons_self) (ts.flatMap TypeSig.print ++ ')' :: rest)
    have hhead : (t.print ++ (ts.flatMap TypeSig.print ++ ')' :: rest)).head? ≠ some ')' := by
      obtain ⟨c, cs, hprint, hc, -⟩ := t.print_eq_cons
      rw [hprint]
      exact fun h => hc (Option.some.inj h)
    rw [List.flatMap_cons, List.append_assoc, parseParamTypes_step hhead, hread]
    show (parseParamTypes fuel _ >>= _) = _
    rw [ih (fun u hu => h u (List.mem_cons_of_mem _ hu)) (Nat.lt_of_succ_lt_succ hfuel)]
    rfl

theorem parseClassBound_print {bound : Option TypeSig} {rest : List Char}
    (h : ∀ t ∈ bound, t.WellFormedReference)
    (hrest : bound = none → ∀ c ∈ rest.head?, c ≠ 'L' ∧ c ≠ 'T' ∧ c ≠ '[') :
    parseClassBound ((bound.map TypeSig.print).getD [] ++ rest) = some (bound, rest) := by
  cases bound with
  | none =>
    show parseClassBound rest = _
    rw [parseClassBound.eq_def]
    split
    · exact absurd rfl (hrest rfl _ rfl).1
    · exact absurd rfl (hrest rfl _ rfl).2.1
    · exact absurd rfl (hrest rfl _ rfl).2.2
    · rfl
  | some t =>
    have hread := parseReference_budget (h t rfl) rest
    obtain ⟨c, cs, hprint, hc⟩ := (h t rfl).2.print_eq_cons
    show parseClassBound (t.print ++ rest) = _
    rw [hprint] at hread ⊢
    obtain rfl | rfl | rfl := hc <;> exact congrArg (· >>= _) hread

theorem parseReturnType_print {type : Option TypeSig} (h : ∀ t ∈ type, t.WellFormed)
    (rest : List Char) :
    parseReturnType ((type.map TypeSig.print).getD ['V'] ++ rest) = some (type, rest) := by
  cases type with
  | none => rfl
  | some t =>
    obtain ⟨c, cs, hprint, -, hc⟩ := t.print_eq_cons
    have hread := parseType_budget (h t rfl) rest
    show parseReturnType (t.print ++ rest) = _
    rw [hprint] at hread ⊢
    rw [parseReturnType.eq_def]
    split
    · next h => exact absurd (List.cons.inj h).1 hc
    · exact congrArg (· >>= _) hread

/-- What follows a type parameter cannot be read as one more bound of it. -/
theorem head?_typeParams {ps : List TypeParamSig} (h : ∀ p ∈ ps, p.WellFormed) (rest : List Char) :
    ∃ c cs, ps.flatMap TypeParamSig.print ++ '>' :: rest = c :: cs ∧
      (c = '>' ∧ ps = [] ∨ endsIdentifier c = false ∧ ∃ q ∈ ps.head?, c ∈ q.name.toList.head?) := by
  cases ps with
  | nil => exact ⟨'>', rest, rfl, .inl ⟨rfl, rfl⟩⟩
  | cons q ps =>
    obtain ⟨c, cs, hname, hc⟩ := (h q List.mem_cons_self).name.toList_eq_cons
    rw [List.flatMap_cons, List.append_assoc, q.print_append, hname]
    exact ⟨c, _, rfl, .inr ⟨hc, q, rfl, by rw [hname]; rfl⟩⟩

theorem parseTypeParamList_print {ps : List TypeParamSig} (h : TypeParamsWellFormed ps)
    (rest : List Char) : ∀ {fuel : Nat}, ps.length < fuel →
      parseTypeParamList fuel (ps.flatMap TypeParamSig.print ++ '>' :: rest) = some (ps, rest) := by
  induction ps with
  | nil =>
    intro fuel hfuel
    obtain ⟨fuel, rfl⟩ : ∃ n, fuel = n + 1 := ⟨fuel - 1, by omega⟩
    rfl
  | cons p ps ih =>
    intro fuel hfuel
    obtain ⟨fuel, rfl⟩ : ∃ n, fuel = n + 1 := ⟨fuel - 1, by omega⟩
    have hp := h.each p List.mem_cons_self
    have hps : TypeParamsWellFormed ps :=
      ⟨fun q hq => h.each q (List.mem_cons_of_mem _ hq), h.chain.tail⟩
    have hrest := ih hps (Nat.lt_of_succ_lt_succ hfuel)
    obtain ⟨c, cs, htail, hc⟩ := head?_typeParams hps.each rest
    rw [List.flatMap_cons, List.append_assoc, p.print_append]
    rw [htail] at hrest ⊢
    have hcolon : (c :: cs).head? ≠ some ':' := by
      rintro ⟨⟩
      rcases hc with ⟨hc, -⟩ | ⟨hc, -⟩ <;> cases hc
    have hbound : p.classBound = none → ∀ d ∈
        ((p.interfaceBounds.flatMap fun t => ':' :: t.print) ++ c :: cs).head?,
          d ≠ 'L' ∧ d ≠ 'T' ∧ d ≠ '[' := by
      intro hnone d hd
      rcases hinterfaces : p.interfaceBounds with _ | ⟨t, ts⟩
      · -- a parameter without bounds: the next name tells
        rw [hinterfaces] at hd
        cases hd
        rcases hc with ⟨rfl, -⟩ | ⟨hc, q, hq, hcq⟩
        · decide
        · have hnext := (h.chain.rel_head? hq) (by rw [TypeParamSig.bounds, hnone, hinterfaces]; rfl) _ hcq
          exact ⟨hnext.1, hnext.2, by rintro rfl; cases hc⟩
      · rw [hinterfaces] at hd
        cases hd
        decide
    have hhead : (p.name.toList ++ ':' :: ((p.classBound.map TypeSig.print).getD []
        ++ ((p.interfaceBounds.flatMap fun t => ':' :: t.print) ++ c :: cs))).head? ≠ some '>' := by
      obtain ⟨d, ds, hname, hd⟩ := hp.name.toList_eq_cons
      rw [hname]
      rintro ⟨⟩
      cases hd
    rw [parseTypeParamList_step hhead,
      parseIdentifier_print hp.name (endsIdentifier_cons rfl _)]
    show (parseClassBound _ >>= _) = _
    rw [parseClassBound_print (fun t ht => hp.bounds t (p.mem_bounds.mpr (.inl ht))) hbound]
    show (parseInterfaceBounds _ _ >>= _) = _
    rw [parseInterfaceBounds_print (fun t ht => hp.bounds t (p.mem_bounds.mpr (.inr ht))) hcolon
      (length_lt_append (fun _ => List.cons_ne_nil _ _) ..)]
    show (parseTypeParamList fuel _ >>= _) = _
    rw [hrest]
    rfl

theorem parseTypeParams_print {ps : List TypeParamSig} (h : TypeParamsWellFormed ps) {rest : List Char}
    (hrest : rest.head? ≠ some '<') :
    parseTypeParams (printTypeParams ps ++ rest) = some (ps, rest) := by
  cases ps with
  | nil =>
    show parseTypeParams rest = _
    rw [parseTypeParams.eq_def]
    split
    · exact absurd rfl hrest
    · rfl
  | cons p ps =>
    rw [printTypeParams, List.append_assoc]
    exact parseTypeParamList_print h rest (length_lt_append TypeParamSig.print_ne_nil ..)

/-- The printed form of a well-formed class signature is read back. -/
theorem ClassSig.parseChars?_print {s : ClassSig} (h : s.WellFormed) :
    ClassSig.parseChars? s.print = some s := by
  obtain ⟨hparams, hsuper, hinterfaces⟩ := h
  obtain ⟨cs, hprint⟩ := s.superclass.print_eq_cons
  have hsuperRead := parseClassType_budget hsuper (s.interfaces.flatMap ClassTypeSig.print)
  rw [ClassSig.print, List.append_assoc, ClassSig.parseChars?,
    parseTypeParams_print hparams (by rw [hprint]; nofun)]
  show (parseClassType _ _ >>= _) = _
  rw [hsuperRead]
  show (parseClassTypes _ _ >>= _) = _
  rw [parseClassTypes_print hinterfaces (length_le_flatMap ClassTypeSig.print_ne_nil _)]
  rfl

/-- The printed form of a well-formed method signature is read back. -/
theorem MethodSig.parseChars?_print {s : MethodSig} (h : s.WellFormed) :
    MethodSig.parseChars? s.print = some s := by
  obtain ⟨htypeParams, hparams, hreturn, hthrows⟩ := h
  rw [MethodSig.parseChars?_eq, MethodSig.print]
  simp only [List.append_assoc, List.cons_append]
  rw [parseTypeParams_print htypeParams (by nofun)]
  show (parseParamTypes _ _ >>= _) = _
  rw [parseParamTypes_print hparams _ (length_lt_append TypeSig.print_ne_nil ..)]
  show (parseReturnType _ >>= _) = _
  rw [parseReturnType_print hreturn]
  show (parseThrows _ _ >>= _) = _
  rw [parseThrows_print hthrows (length_le_flatMap (fun _ => List.cons_ne_nil _ _) _)]
  rfl

/-- The printed form of a well-formed type that is not primitive is read back. -/
theorem TypeSig.parseChars?_print {t : TypeSig} (h : t.WellFormedReference) :
    TypeSig.parseChars? t.print = some t := by
  have hread := parseReference_budget h []
  rw [List.append_nil] at hread
  rw [TypeSig.parseChars?, hread]

end JavaSema.ClassFile
