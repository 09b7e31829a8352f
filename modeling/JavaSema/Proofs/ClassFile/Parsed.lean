import JavaSema.Proofs.ClassFile.Printed
import Mathlib.Data.List.Infix

/-!
# Signatures are read exactly

A text in which no angle brackets are empty is read as a signature just if it is the printed form of a
well-formed tree, and then as that tree.

There are three groups.

* `Sound` says that what a reader gives is well-formed and prints as what was taken.  It holds of the
  mutually recursive readers by induction on the budget.
* The loops around them, and whole signatures.
* The three kinds of signatures, and the thrown array that the standard grammar does not allow.
-/

namespace JavaSema.ClassFile

/-! ### Types -/

/-- No angle brackets with nothing between stand in the text. -/
def NoEmptyBrackets (s : List Char) : Prop := ¬ ['<', '>'] <:+: s

theorem NoEmptyBrackets.rest {front rest : List Char} (h : NoEmptyBrackets (front ++ rest)) :
    NoEmptyBrackets rest :=
  fun hempty => h (hempty.trans (List.suffix_append front rest).isInfix)

theorem NoEmptyBrackets.tail {c : Char} {rest : List Char} (h : NoEmptyBrackets (c :: rest)) :
    NoEmptyBrackets rest :=
  fun hempty => h (hempty.trans (List.suffix_cons c rest).isInfix)

/-- What the reader gives is well-formed, and printed it is what the reader took. -/
def Sound {α : Type} (WellFormed : α → Prop) (print : α → List Char)
    (r : List Char → Option (α × List Char)) : Prop :=
  ∀ ⦃s a rest⦄, NoEmptyBrackets s → r s = some (a, rest) → WellFormed a ∧ s = print a ++ rest

theorem eq_cons_of_expectChar {c : Char} {s rest : List Char} (h : expectChar c s = some rest) :
    s = c :: rest := by
  cases s with
  | nil => cases h
  | cons d s =>
    rw [expectChar] at h
    split at h
    · next hd =>
      cases h
      rw [hd]
    · cases h

theorem sound_parseIdentifier : Sound IsIdentifier String.toList parseIdentifier := by
  intro s name rest _ h
  rw [parseIdentifier, List.span_eq_takeWhile_dropWhile] at h
  split at h
  · cases h
  · next c cs rest' hspan =>
    cases h
    obtain ⟨htake, hdrop⟩ := Prod.mk.inj hspan
    rw [String.toList_ofList, ← htake, ← hdrop, List.takeWhile_append_dropWhile]
    refine ⟨⟨?_, fun d hd => ?_⟩, rfl⟩
    · rw [htake]
      simp
    · rw [String.toList_ofList] at hd
      simpa using List.all_eq_true.mp List.all_takeWhile d hd

theorem sound_parsePackage {fuel : Nat} : ∀ {package : String} {s : List Char}
    {package' name : String} {rest : List Char}, IsPackage package → NoEmptyBrackets s →
      parsePackage fuel package s = some (package', name, rest) →
      IsPackage package' ∧ IsIdentifier name ∧
        printPackage package ++ s = printPackage package' ++ (name.toList ++ rest) := by
  induction fuel with
  | zero => nofun
  | succ fuel ih =>
    intro package s package' name rest hpackage hs h
    obtain ⟨⟨first, mid⟩, hfirst, hrest⟩ := Option.bind_eq_some_iff.mp h
    obtain ⟨hname, rfl⟩ := sound_parseIdentifier hs hfirst
    dsimp only at hrest
    split at hrest
    · obtain ⟨hpackage', hlast, hprint⟩ := ih (hpackage.inside hname) hs.rest.tail hrest
      refine ⟨hpackage', hlast, ?_⟩
      rw [← hprint]
      show _ = printPackage (packageInside package first) ++ _
      rw [printPackage_inside hname, List.append_assoc, List.append_assoc]
      rfl
    · cases hrest
      exact ⟨hpackage, hname, rfl⟩

/-- All mutually recursive readers are sound with this budget. -/
structure ParsersSound (b : Nat) : Prop where
  reference : Sound TypeSig.WellFormedReference TypeSig.print (parseReference b)
  type : Sound TypeSig.WellFormed TypeSig.print (parseType b)
  classType : Sound ClassTypeSig.WellFormed ClassTypeSig.print (parseClassType b)
  segments : Sound (∀ s ∈ ·, SegmentSig.WellFormed s) (·.flatMap fun s => '.' :: s.print)
    (parseSegments b)
  args : Sound (∀ a ∈ ·, ArgSig.WellFormed a) printArgsOpt (parseArgs b)
  argList : Sound (∀ a ∈ ·, ArgSig.WellFormed a) (·.flatMap ArgSig.print ++ ['>']) (parseArgList b)
  arg : Sound ArgSig.WellFormed ArgSig.print (parseArg b)

namespace ParsersSound

variable {b : Nat} (ih : ParsersSound b)

include ih

theorem reference_succ :
    Sound TypeSig.WellFormedReference TypeSig.print (parseReference (b + 1)) := by
  intro s t rest hs h
  rw [parseReference.eq_def] at h
  dsimp only at h
  split at h
  · obtain ⟨⟨c, mid⟩, hread, h⟩ := Option.bind_eq_some_iff.mp h
    cases h
    obtain ⟨hc, hprint⟩ := ih.classType hs hread
    exact ⟨⟨.ofClass hc, trivial⟩, by rw [hprint, TypeSig.print]⟩
  · obtain ⟨⟨name, mid⟩, hread, h⟩ := Option.bind_eq_some_iff.mp h
    obtain ⟨after, hsemicolon, h⟩ := Option.bind_eq_some_iff.mp h
    cases h
    obtain ⟨hname, rfl⟩ := sound_parseIdentifier hs.tail hread
    obtain rfl := eq_cons_of_expectChar hsemicolon
    exact ⟨⟨.var hname, trivial⟩, by rw [TypeSig.print]; simp⟩
  · obtain ⟨⟨u, mid⟩, hread, h⟩ := Option.bind_eq_some_iff.mp h
    cases h
    obtain ⟨hu, rfl⟩ := ih.type hs.tail hread
    exact ⟨⟨.array hu, trivial⟩, by rw [TypeSig.print, List.cons_append]⟩
  · cases h

theorem type_succ : Sound TypeSig.WellFormed TypeSig.print (parseType (b + 1)) := by
  intro s t rest hs h
  rw [parseType.eq_def] at h
  dsimp only at h
  split at h
  · cases h
  · next c mid =>
    split at h
    · next p hp =>
      cases h
      exact ⟨.base p, by rw [TypeSig.print, ← Primitive.ofLetter?_eq_some_iff.mp hp]; rfl⟩
    · obtain ⟨⟨ht, -⟩, hprint⟩ := ih.reference hs h
      exact ⟨ht, hprint⟩

theorem classType_succ :
    Sound ClassTypeSig.WellFormed ClassTypeSig.print (parseClassType (b + 1)) := by
  intro s c rest hs h
  obtain ⟨s, hL, h⟩ := Option.bind_eq_some_iff.mp h
  obtain rfl := eq_cons_of_expectChar hL
  obtain ⟨⟨package, name, s₁⟩, hpackageRead, h⟩ := Option.bind_eq_some_iff.mp h
  obtain ⟨⟨args, s₂⟩, hargsRead, h⟩ := Option.bind_eq_some_iff.mp h
  obtain ⟨⟨inner, s₃⟩, hinnerRead, h⟩ := Option.bind_eq_some_iff.mp h
  obtain ⟨s₄, hsemicolon, h⟩ := Option.bind_eq_some_iff.mp h
  cases h
  obtain ⟨hpackage, hname, hprint⟩ := sound_parsePackage .unnamed hs.tail hpackageRead
  obtain rfl : s = printPackage package ++ (name.toList ++ s₁) := hprint
  obtain ⟨hargs, rfl⟩ := ih.args hs.tail.rest.rest hargsRead
  obtain ⟨hinner, rfl⟩ := ih.segments hs.tail.rest.rest.rest hinnerRead
  obtain rfl := eq_cons_of_expectChar hsemicolon
  refine ⟨.mk hpackage (List.cons_ne_nil _ _) ?_, ?_⟩
  · exact List.forall_mem_cons.mpr ⟨.mk hname hargs, hinner⟩
  · rw [ClassTypeSig.print_mk, SegmentSig.print_mk]
    simp

theorem segments_succ : Sound (∀ s ∈ ·, SegmentSig.WellFormed s)
    (·.flatMap fun s => '.' :: s.print) (parseSegments (b + 1)) := by
  intro s segments rest hs h
  rw [parseSegments.eq_def] at h
  dsimp only at h
  split at h
  · obtain ⟨⟨name, s₁⟩, hnameRead, h⟩ := Option.bind_eq_some_iff.mp h
    obtain ⟨⟨args, s₂⟩, hargsRead, h⟩ := Option.bind_eq_some_iff.mp h
    obtain ⟨⟨inner, s₃⟩, hinnerRead, h⟩ := Option.bind_eq_some_iff.mp h
    cases h
    obtain ⟨hname, rfl⟩ := sound_parseIdentifier hs.tail hnameRead
    obtain ⟨hargs, rfl⟩ := ih.args hs.tail.rest hargsRead
    obtain ⟨hinner, rfl⟩ := ih.segments hs.tail.rest.rest hinnerRead
    refine ⟨List.forall_mem_cons.mpr ⟨.mk hname hargs, hinner⟩, ?_⟩
    simp
  · cases h
    exact ⟨nofun, rfl⟩

theorem args_succ : Sound (∀ a ∈ ·, ArgSig.WellFormed a) printArgsOpt (parseArgs (b + 1)) := by
  intro s args rest hs h
  rw [parseArgs.eq_def] at h
  dsimp only at h
  split at h
  · obtain ⟨hargs, rfl⟩ := ih.argList hs.tail h
    refine ⟨hargs, ?_⟩
    cases args with
    | nil => exact absurd ⟨[], rest, rfl⟩ hs
    | cons a args => rfl
  · cases h
    exact ⟨nofun, rfl⟩

theorem argList_succ : Sound (∀ a ∈ ·, ArgSig.WellFormed a) (·.flatMap ArgSig.print ++ ['>'])
    (parseArgList (b + 1)) := by
  intro s args rest hs h
  rw [parseArgList.eq_def] at h
  dsimp only at h
  split at h
  · cases h
    exact ⟨nofun, rfl⟩
  · obtain ⟨⟨a, s₁⟩, haRead, h⟩ := Option.bind_eq_some_iff.mp h
    obtain ⟨⟨as, s₂⟩, hasRead, h⟩ := Option.bind_eq_some_iff.mp h
    cases h
    obtain ⟨ha, rfl⟩ := ih.arg hs haRead
    obtain ⟨has, rfl⟩ := ih.argList hs.rest hasRead
    exact ⟨List.forall_mem_cons.mpr ⟨ha, has⟩, by simp⟩

theorem arg_succ : Sound ArgSig.WellFormed ArgSig.print (parseArg (b + 1)) := by
  intro s a rest hs h
  rw [parseArg.eq_def] at h
  dsimp only at h
  split at h
  · cases h
    exact ⟨.any, by rw [ArgSig.print]; rfl⟩
  · obtain ⟨⟨t, s₁⟩, hread, h⟩ := Option.bind_eq_some_iff.mp h
    cases h
    obtain ⟨⟨ht, href⟩, rfl⟩ := ih.reference hs.tail hread
    exact ⟨.upper ht href, by rw [ArgSig.print, List.cons_append]⟩
  · obtain ⟨⟨t, s₁⟩, hread, h⟩ := Option.bind_eq_some_iff.mp h
    cases h
    obtain ⟨⟨ht, href⟩, rfl⟩ := ih.reference hs.tail hread
    exact ⟨.lower ht href, by rw [ArgSig.print, List.cons_append]⟩
  · obtain ⟨⟨t, s₁⟩, hread, h⟩ := Option.bind_eq_some_iff.mp h
    cases h
    obtain ⟨⟨ht, href⟩, rfl⟩ := ih.reference hs hread
    exact ⟨.exact ht href, by rw [ArgSig.print]⟩

end ParsersSound

theorem parsersSound (b : Nat) : ParsersSound b := by
  induction b with
  | zero => constructor <;> nofun
  | succ b ih => exact ⟨ih.reference_succ, ih.type_succ, ih.classType_succ, ih.segments_succ,
      ih.args_succ, ih.argList_succ, ih.arg_succ⟩

/-! ### Signatures -/

theorem sound_parseInterfaceBounds (fuel : Nat) :
    Sound (∀ t ∈ ·, TypeSig.WellFormedReference t) (·.flatMap fun t => ':' :: t.print)
      (parseInterfaceBounds fuel) := by
  induction fuel with
  | zero => nofun
  | succ fuel ih =>
    intro s ts rest hs h
    rw [parseInterfaceBounds.eq_def] at h
    dsimp only at h
    split at h
    · obtain ⟨⟨t, s₁⟩, htRead, h⟩ := Option.bind_eq_some_iff.mp h
      obtain ⟨⟨us, s₂⟩, husRead, h⟩ := Option.bind_eq_some_iff.mp h
      cases h
      obtain ⟨ht, rfl⟩ := (parsersSound _).reference hs.tail htRead
      obtain ⟨hus, rfl⟩ := ih hs.tail.rest husRead
      exact ⟨List.forall_mem_cons.mpr ⟨ht, hus⟩, by simp⟩
    · cases h
      exact ⟨nofun, rfl⟩

theorem sound_parseParamTypes (fuel : Nat) :
    Sound (∀ t ∈ ·, TypeSig.WellFormed t) (·.flatMap TypeSig.print ++ [')'])
      (parseParamTypes fuel) := by
  induction fuel with
  | zero => nofun
  | succ fuel ih =>
    intro s ts rest hs h
    rw [parseParamTypes.eq_def] at h
    dsimp only at h
    split at h
    · cases h
      exact ⟨nofun, rfl⟩
    · obtain ⟨⟨t, s₁⟩, htRead, h⟩ := Option.bind_eq_some_iff.mp h
      obtain ⟨⟨us, s₂⟩, husRead, h⟩ := Option.bind_eq_some_iff.mp h
      cases h
      obtain ⟨ht, rfl⟩ := (parsersSound _).type hs htRead
      obtain ⟨hus, rfl⟩ := ih hs.rest husRead
      exact ⟨List.forall_mem_cons.mpr ⟨ht, hus⟩, by simp⟩

theorem print_of_parseClassTypes {fuel : Nat} : ∀ {s : List Char} {cs : List ClassTypeSig},
    NoEmptyBrackets s → parseClassTypes fuel s = some cs →
      (∀ c ∈ cs, c.WellFormed) ∧ s = cs.flatMap ClassTypeSig.print := by
  induction fuel with
  | zero =>
    intro s cs _ h
    cases s with
    | nil =>
      cases h
      exact ⟨nofun, rfl⟩
    | cons => cases h
  | succ fuel ih =>
    intro s cs hs h
    cases s with
    | nil =>
      cases h
      exact ⟨nofun, rfl⟩
    | cons d s =>
      obtain ⟨⟨c, s₁⟩, hcRead, h⟩ := Option.bind_eq_some_iff.mp h
      obtain ⟨us, husRead, h⟩ := Option.bind_eq_some_iff.mp h
      cases h
      obtain ⟨hc, hprint⟩ := (parsersSound _).classType hs hcRead
      rw [hprint] at hs ⊢
      obtain ⟨hus, rfl⟩ := ih hs.rest husRead
      exact ⟨List.forall_mem_cons.mpr ⟨hc, hus⟩, rfl⟩

theorem print_of_parseThrows {fuel : Nat} : ∀ {s : List Char} {ts : List TypeSig},
    NoEmptyBrackets s → parseThrows fuel s = some ts →
      (∀ t ∈ ts, t.WellFormedReference) ∧ s = ts.flatMap fun t => '^' :: t.print := by
  induction fuel with
  | zero =>
    intro s ts _ h
    cases s with
    | nil =>
      cases h
      exact ⟨nofun, rfl⟩
    | cons => cases h
  | succ fuel ih =>
    intro s ts hs h
    cases s with
    | nil =>
      cases h
      exact ⟨nofun, rfl⟩
    | cons d s =>
      rw [parseThrows] at h
      split at h
      · next hd =>
        obtain ⟨⟨t, s₁⟩, htRead, h⟩ := Option.bind_eq_some_iff.mp h
        obtain ⟨us, husRead, h⟩ := Option.bind_eq_some_iff.mp h
        cases h
        obtain ⟨ht, rfl⟩ := (parsersSound _).reference hs.tail htRead
        obtain ⟨hus, rfl⟩ := ih hs.tail.rest husRead
        exact ⟨List.forall_mem_cons.mpr ⟨ht, hus⟩, by rw [hd]; rfl⟩
      · cases h

theorem sound_parseClassBound : Sound (∀ t ∈ ·, TypeSig.WellFormedReference t)
    (fun bound => (bound.map TypeSig.print).getD []) parseClassBound := by
  intro s bound rest hs h
  rw [parseClassBound.eq_def] at h
  split at h
  case h_4 =>
    cases h
    exact ⟨nofun, rfl⟩
  all_goals
    obtain ⟨⟨t, s₁⟩, hread, h⟩ := Option.bind_eq_some_iff.mp h
    cases h
    obtain ⟨ht, hprint⟩ := (parsersSound _).reference hs hread
    exact ⟨fun u hu => Option.some.inj hu ▸ ht, hprint⟩

theorem sound_parseReturnType : Sound (∀ t ∈ ·, TypeSig.WellFormed t)
    (fun type => (type.map TypeSig.print).getD ['V']) parseReturnType := by
  intro s type rest hs h
  rw [parseReturnType.eq_def] at h
  split at h
  · cases h
    exact ⟨fun t ht => absurd ht (Option.not_mem_none t), rfl⟩
  · obtain ⟨⟨t, s₁⟩, hread, h⟩ := Option.bind_eq_some_iff.mp h
    cases h
    obtain ⟨ht, hprint⟩ := (parsersSound _).type hs hread
    exact ⟨fun u hu => Option.some.inj hu ▸ ht, hprint⟩

/-- No class bound was read, so none starts there. -/
theorem head?_of_parseClassBound {s rest : List Char} (h : parseClassBound s = some (none, rest)) :
    ∀ c ∈ s.head?, c ≠ 'L' ∧ c ≠ 'T' := by
  rw [parseClassBound.eq_def] at h
  split at h
  case h_4 hL hT _ =>
    intro c hc
    obtain ⟨tail, rfl⟩ := List.head?_eq_some_iff.mp hc
    exact ⟨fun h => hL tail (by rw [h]), fun h => hT tail (by rw [h])⟩
  all_goals
    obtain ⟨⟨t, s₁⟩, -, h⟩ := Option.bind_eq_some_iff.mp h
    cases h

theorem sound_parseTypeParamList (fuel : Nat) :
    Sound TypeParamsWellFormed (·.flatMap TypeParamSig.print ++ ['>'])
      (parseTypeParamList fuel) := by
  induction fuel with
  | zero => nofun
  | succ fuel ih =>
    intro s ps rest hs h
    by_cases hhead : s.head? = some '>'
    · obtain ⟨tail, rfl⟩ := List.head?_eq_some_iff.mp hhead
      cases h
      exact ⟨⟨nofun, .nil⟩, rfl⟩
    · rw [parseTypeParamList_step hhead] at h
      obtain ⟨⟨name, s₁⟩, hnameRead, h⟩ := Option.bind_eq_some_iff.mp h
      obtain ⟨s₂, hcolon, h⟩ := Option.bind_eq_some_iff.mp h
      obtain ⟨⟨classBound, s₃⟩, hboundRead, h⟩ := Option.bind_eq_some_iff.mp h
      obtain ⟨⟨interfaceBounds, s₄⟩, hboundsRead, h⟩ := Option.bind_eq_some_iff.mp h
      obtain ⟨⟨qs, s₅⟩, hqsRead, h⟩ := Option.bind_eq_some_iff.mp h
      cases h
      obtain ⟨hname, rfl⟩ := sound_parseIdentifier hs hnameRead
      obtain rfl := eq_cons_of_expectChar hcolon
      obtain ⟨hbound, rfl⟩ := sound_parseClassBound hs.rest.tail hboundRead
      obtain ⟨hbounds, rfl⟩ := sound_parseInterfaceBounds _ hs.rest.tail.rest hboundsRead
      obtain ⟨hqs, rfl⟩ := ih hs.rest.tail.rest.rest hqsRead
      have hp : (⟨name, classBound, interfaceBounds⟩ : TypeParamSig).WellFormed :=
        ⟨hname, fun t ht => ((TypeParamSig.mem_bounds _).mp ht).elim (hbound t) (hbounds t)⟩
      refine ⟨⟨List.forall_mem_cons.mpr ⟨hp, hqs.each⟩, List.isChain_cons.mpr ⟨?_, hqs.chain⟩⟩, ?_⟩
      · intro q hq hnone c hc
        obtain ⟨hnoBound, rfl⟩ := List.append_eq_nil_iff.mp hnone
        obtain rfl : classBound = none := Option.toList_eq_nil_iff.mp hnoBound
        refine head?_of_parseClassBound hboundRead c ?_
        obtain ⟨qs, rfl⟩ := List.head?_eq_some_iff.mp hq
        obtain ⟨d, ds, hq', -⟩ := (hqs.each q List.mem_cons_self).name.toList_eq_cons
        simpa [TypeParamSig.print, hq'] using hc
      · simp [TypeParamSig.print]

theorem sound_parseTypeParams : Sound TypeParamsWellFormed printTypeParams parseTypeParams := by
  intro s ps rest hs h
  rw [parseTypeParams.eq_def] at h
  split at h
  · obtain ⟨hps, rfl⟩ := sound_parseTypeParamList _ hs.tail h
    refine ⟨hps, ?_⟩
    cases ps with
    | nil => exact absurd ⟨[], rest, rfl⟩ hs
    | cons p ps => rfl
  · cases h
    exact ⟨⟨fun p hp => absurd hp List.not_mem_nil, .nil⟩, rfl⟩

theorem ClassSig.print_of_parseChars? {s : List Char} {c : ClassSig} (hs : NoEmptyBrackets s)
    (h : ClassSig.parseChars? s = some c) : c.WellFormed ∧ c.print = s := by
  obtain ⟨⟨typeParams, s₁⟩, hparamsRead, h⟩ := Option.bind_eq_some_iff.mp h
  obtain ⟨⟨superclass, s₂⟩, hsuperRead, h⟩ := Option.bind_eq_some_iff.mp h
  obtain ⟨interfaces, hinterfacesRead, h⟩ := Option.bind_eq_some_iff.mp h
  cases h
  obtain ⟨hparams, rfl⟩ := sound_parseTypeParams hs hparamsRead
  obtain ⟨hsuper, rfl⟩ := (parsersSound _).classType hs.rest hsuperRead
  obtain ⟨hinterfaces, rfl⟩ := print_of_parseClassTypes hs.rest.rest hinterfacesRead
  exact ⟨⟨hparams, hsuper, hinterfaces⟩, by rw [ClassSig.print, List.append_assoc]⟩

theorem MethodSig.print_of_parseChars? {s : List Char} {m : MethodSig} (hs : NoEmptyBrackets s)
    (h : MethodSig.parseChars? s = some m) : m.WellFormed ∧ m.print = s := by
  rw [MethodSig.parseChars?_eq] at h
  obtain ⟨⟨typeParams, s₁⟩, htypeParamsRead, h⟩ := Option.bind_eq_some_iff.mp h
  obtain ⟨s₂, hparenthesis, h⟩ := Option.bind_eq_some_iff.mp h
  obtain ⟨⟨params, s₃⟩, hparamsRead, h⟩ := Option.bind_eq_some_iff.mp h
  obtain ⟨⟨returnType, s₄⟩, hreturnRead, h⟩ := Option.bind_eq_some_iff.mp h
  obtain ⟨throws, hthrowsRead, h⟩ := Option.bind_eq_some_iff.mp h
  cases h
  obtain ⟨htypeParams, rfl⟩ := sound_parseTypeParams hs htypeParamsRead
  obtain rfl := eq_cons_of_expectChar hparenthesis
  obtain ⟨hparams, rfl⟩ := sound_parseParamTypes _ hs.rest.tail hparamsRead
  obtain ⟨hreturn, rfl⟩ := sound_parseReturnType hs.rest.tail.rest hreturnRead
  obtain ⟨hthrows, rfl⟩ := print_of_parseThrows hs.rest.tail.rest.rest hthrowsRead
  exact ⟨⟨htypeParams, hparams, hreturn, hthrows⟩, by rw [MethodSig.print]; simp⟩

theorem TypeSig.print_of_parseChars? {s : List Char} {t : TypeSig} (hs : NoEmptyBrackets s)
    (h : TypeSig.parseChars? s = some t) : t.WellFormedReference ∧ t.print = s := by
  rw [TypeSig.parseChars?] at h
  split at h
  · next hread =>
    cases h
    obtain ⟨ht, hprint⟩ := (parsersSound _).reference hs hread
    exact ⟨ht, by rw [hprint, List.append_nil]⟩
  · cases h

/-! ### Exactness -/

instance (s : List Char) : Decidable (NoEmptyBrackets s) :=
  inferInstanceAs (Decidable (¬ ['<', '>'] <:+: s))

/-- On this text the reader gives just the well-formed tree that prints as the text, and refuses the
text if there is none. -/
structure ReadsExactly {α : Type} (parse : String → Except Error α) (WellFormed : α → Prop)
    (print : α → List Char) (text : String) : Prop where
  ok_iff : ∀ a, parse text = .ok a ↔ WellFormed a ∧ print a = text.toList
  refuses : (¬ ∃ a, WellFormed a ∧ print a = text.toList) →
    parse text = .error (.invalidSignature text)

/-- A reader that gives all trees back and nothing else reads exactly. -/
theorem readsExactly {α : Type} {parse : String → Except Error α} {chars? : List Char → Option α}
    {WellFormed : α → Prop} {print : α → List Char} {text : String}
    (ok : ∀ {a}, chars? text.toList = some a → parse text = .ok a)
    (refused : chars? text.toList = none → parse text = .error (.invalidSignature text))
    (complete : ∀ {a}, WellFormed a → chars? (print a) = some a)
    (sound : ∀ {a}, chars? text.toList = some a → WellFormed a ∧ print a = text.toList) :
    ReadsExactly parse WellFormed print text := by
  have hok : ∀ a, parse text = .ok a ↔ chars? text.toList = some a := by
    intro a
    rcases hread : chars? text.toList with _ | b
    · rw [refused hread]
      exact ⟨nofun, nofun⟩
    · rw [ok hread, Except.ok.injEq, Option.some.injEq]
  refine ⟨fun a => (hok a).trans ⟨sound, ?_⟩, fun hnone => ?_⟩
  · rintro ⟨ha, hprint⟩
    rw [← hprint]
    exact complete ha
  · rcases hread : chars? text.toList with _ | a
    · exact refused hread
    · exact absurd ⟨a, sound hread⟩ hnone

/-- A text without empty angle brackets is accepted as the signature of a class, a method or a field
just if it is the printed form of a well-formed tree of that kind, and this tree is what is read.  Every
other such text is refused as an invalid signature. -/
theorem parse_readsExactly (text : String) (h : NoEmptyBrackets text.toList) :
    ReadsExactly ClassSig.parse ClassSig.WellFormed ClassSig.print text ∧
      ReadsExactly MethodSig.parse MethodSig.WellFormed MethodSig.print text ∧
      ReadsExactly TypeSig.parse TypeSig.WellFormedReference TypeSig.print text :=
  ⟨readsExactly (fun h => by rw [ClassSig.parse, h]) (fun h => by rw [ClassSig.parse, h])
      ClassSig.parseChars?_print (ClassSig.print_of_parseChars? h),
    readsExactly (fun h => by rw [MethodSig.parse, h]) (fun h => by rw [MethodSig.parse, h])
      MethodSig.parseChars?_print (MethodSig.print_of_parseChars? h),
    readsExactly (fun h => by rw [TypeSig.parse, h]) (fun h => by rw [TypeSig.parse, h])
      TypeSig.parseChars?_print (TypeSig.print_of_parseChars? h)⟩

/-- A method with a type parameter without bounds, one with a bound, and an inner class of a class with
arguments. -/
def entryMethod : String :=
  "<K:V::Ljava/lang/Comparable<-TV;>;>(Ljava/util/Map<TK;[I>.Entry<*>;)TV;"

theorem entryMethod_readsExactly :
    NoEmptyBrackets entryMethod.toList ∧
      (∃ m, MethodSig.parse entryMethod = .ok m ∧ m.WellFormed ∧ m.print = entryMethod.toList) ∧
      ReadsExactly ClassSig.parse ClassSig.WellFormed ClassSig.print entryMethod ∧
      ReadsExactly TypeSig.parse TypeSig.WellFormedReference TypeSig.print entryMethod := by
  have h : NoEmptyBrackets entryMethod.toList := by decide +kernel
  obtain ⟨hclass, hmethod, hfield⟩ := parse_readsExactly entryMethod h
  have hread : (MethodSig.parse entryMethod).toOption.isSome = true := by decide +kernel
  cases hm : MethodSig.parse entryMethod with
  | error e =>
    rw [hm] at hread
    cases hread
  | ok m => exact ⟨h, ⟨m, rfl, (hmethod.ok_iff m).mp hm⟩, hclass, hfield⟩

/-- The well-formed method signatures of the standard grammar, in which only class types and type
variables are thrown. -/
structure MethodSig.Standard (m : MethodSig) : Prop where
  wellFormed : m.WellFormed
  throws : ∀ t ∈ m.throws, ∀ u, t ≠ .array u

/-- A thrown array is accepted, which the standard grammar does not allow. -/
theorem thrownArray_not_readsExactly :
    NoEmptyBrackets "()V^[I".toList ∧
      MethodSig.parse "()V^[I" = .ok ⟨[], [], none, [.array (.base .int)]⟩ ∧
      ¬ ReadsExactly MethodSig.parse MethodSig.Standard MethodSig.print "()V^[I" := by
  refine ⟨by decide, rfl, fun h => ?_⟩
  have hstandard := ((h.ok_iff ⟨[], [], none, [.array (.base .int)]⟩).mp rfl).1
  exact hstandard.throws _ List.mem_cons_self _ rfl

end JavaSema.ClassFile
