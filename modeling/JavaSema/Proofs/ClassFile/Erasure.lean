import JavaSema.ClassDef.Generic
import JavaSema.Proofs.ClassFile.Grammar
import JavaSema.Proofs.Text

/-!
# Erasure of signatures

A class file holds a descriptor beside each signature: its erasure, in which a type variable is
replaced by the erasure of its leftmost bound.  Here the erasure is defined on the trees of signatures
and compared with the types that signatures and descriptors denote.

The bounds of a list of type parameters are converted while its variables stand for the root class.  So
a variable whose leftmost bound is a variable of the same list is taken for the root class itself.

There are four groups.

* `Erases` is the erasure of a type in the lists of type parameters around it, and `OwnBound` finds the
  bound at which the conversion stops.
* Names.  The name of a class in a descriptor is its binary name with slashes.
* Scopes.  `erasure_typeVar_declare` and `typeVar_of_undeclared` say what a variable becomes under a
  list of type parameters.
* The result.  `erasure_ofSignature_iff` compares the erasures of one type, and `erasure_method_iff`
  those of the parameters and the result of a method.
-/

namespace JavaSema

namespace ClassFile

/-! ## Erasure -/

/-- The name of the class as it stands in a descriptor. -/
def ClassTypeSig.internalName (c : ClassTypeSig) : String :=
  String.ofList (printPackage c.package) ++ Text.join "$" (c.segments.map SegmentSig.name)

/-- The type without array dimensions. -/
def TypeSig.element : TypeSig → TypeSig
  | .array t => t.element
  | t => t

theorem TypeSig.element_ne_array (u : TypeSig) : ∀ t : TypeSig, t.element ≠ .array u
  | .base _ | .ofClass _ | .var _ => nofun
  | .array t => element_ne_array u t

/-- The number of array dimensions. -/
def TypeSig.dimensions : TypeSig → Nat
  | .array t => t.dimensions + 1
  | _ => 0

/-- The type parameter of that name; the last one if the list declares it more than once. -/
def declared? (level : List TypeParamSig) (v : String) : Option TypeParamSig :=
  level.reverse.find? fun p => p.name == v

/-- The erasure of a type in the lists of type parameters around it, innermost first. -/
inductive Erases : List (List TypeParamSig) → TypeSig → FieldType → Prop where
  | base {levels} (p : Primitive) : Erases levels (.base p) (.base p)
  | ofClass {levels} (c : ClassTypeSig) : Erases levels (.ofClass c) (.object c.internalName)
  | array {levels t d} : Erases levels t d → Erases levels (.array t) (.array d)
  /-- A variable without bounds erases to the root class. -/
  | unbounded {level outer v p} : declared? level v = some p → p.bounds = [] →
      Erases (level :: outer) (.var v) (.object "java/lang/Object")
  /-- Another variable erases to the erasure of its leftmost bound. -/
  | bounded {level outer v p b bs d} : declared? level v = some p → p.bounds = b :: bs →
      Erases (level :: outer) b d → Erases (level :: outer) (.var v) d
  /-- A variable that the innermost list does not declare is one of the lists around. -/
  | outer {level outer v d} : declared? level v = none → Erases outer (.var v) d →
      Erases (level :: outer) (.var v) d

/-- The leftmost bounds that lead on from the type come to one that is built on a variable of the same
list: the variable `w` of the first of the lists `inner`. -/
inductive OwnBound : List (List TypeParamSig) → TypeSig → List (List TypeParamSig) → String → Prop where
  | array {levels t inner w} : OwnBound levels t inner w → OwnBound levels (.array t) inner w
  /-- The bound is built on a variable of the same list. -/
  | own {level outer v p b bs w} : declared? level v = some p → p.bounds = b :: bs →
      b.element = .var w → (declared? level w).isSome = true →
      OwnBound (level :: outer) (.var v) (level :: outer) w
  /-- The bound is not, but leads on. -/
  | bound {level outer v p b bs inner w} : declared? level v = some p → p.bounds = b :: bs →
      (∀ u, b.element = .var u → declared? level u = none) → OwnBound (level :: outer) b inner w →
      OwnBound (level :: outer) (.var v) inner w
  /-- The variable is one of the lists around. -/
  | outer {level outer v inner w} : declared? level v = none → OwnBound outer (.var v) inner w →
      OwnBound (level :: outer) (.var v) inner w

variable {level : List TypeParamSig} {levels inner outer : List (List TypeParamSig)} {t : TypeSig}
  {d : FieldType} {v w : String}

section

variable {p : TypeParamSig} {b : TypeSig} {bs : List TypeSig}

theorem erases_of_unbounded (hp : declared? level v = some p) (hb : p.bounds = []) :
    Erases (level :: outer) (.var v) d ↔ d = .object "java/lang/Object" := by
  refine ⟨fun h => ?_, fun h => h ▸ .unbounded hp hb⟩
  cases h with
  | unbounded => rfl
  | bounded hp' hb' =>
    cases hp.symm.trans hp'
    cases hb.symm.trans hb'
  | outer hp' => cases hp.symm.trans hp'

theorem erases_of_bounded (hp : declared? level v = some p) (hb : p.bounds = b :: bs) :
    Erases (level :: outer) (.var v) d ↔ Erases (level :: outer) b d := by
  refine ⟨fun h => ?_, .bounded hp hb⟩
  cases h with
  | unbounded hp' hb' =>
    cases hp.symm.trans hp'
    cases hb.symm.trans hb'
  | bounded hp' hb' h =>
    cases hp.symm.trans hp'
    cases hb.symm.trans hb'
    exact h
  | outer hp' => cases hp.symm.trans hp'

theorem erases_of_undeclared (hp : declared? level v = none) :
    Erases (level :: outer) (.var v) d ↔ Erases outer (.var v) d := by
  refine ⟨fun h => ?_, .outer hp⟩
  cases h with
  | unbounded hp' | bounded hp' => cases hp.symm.trans hp'
  | outer _ h => exact h

/-- The two ways on which a variable with a bound leads to one of its list. -/
theorem ownBound_of_bounded (hp : declared? level v = some p) (hb : p.bounds = b :: bs) :
    OwnBound (level :: outer) (.var v) inner w ↔
      (inner = level :: outer ∧ b.element = .var w ∧ (declared? level w).isSome = true) ∨
        (∀ u, b.element = .var u → declared? level u = none) ∧ OwnBound (level :: outer) b inner w := by
  constructor
  · intro h
    cases h with
    | own hp' hb' hw hdeclared =>
      cases hp.symm.trans hp'
      cases hb.symm.trans hb'
      exact .inl ⟨rfl, hw, hdeclared⟩
    | bound hp' hb' hfree h =>
      cases hp.symm.trans hp'
      cases hb.symm.trans hb'
      exact .inr ⟨hfree, h⟩
    | outer hp' => cases hp.symm.trans hp'
  · rintro (⟨rfl, hw, hdeclared⟩ | ⟨hfree, h⟩)
    · exact .own hp hb hw hdeclared
    · exact .bound hp hb hfree h

theorem not_ownBound_of_unbounded (hp : declared? level v = some p) (hb : p.bounds = []) :
    ¬ OwnBound (level :: outer) (.var v) inner w := by
  intro h
  cases h with
  | own hp' hb' | bound hp' hb' =>
    cases hp.symm.trans hp'
    cases hb.symm.trans hb'
  | outer hp' => cases hp.symm.trans hp'

theorem ownBound_of_undeclared (hp : declared? level v = none) :
    OwnBound (level :: outer) (.var v) inner w ↔ OwnBound outer (.var v) inner w := by
  refine ⟨fun h => ?_, .outer hp⟩
  cases h with
  | own hp' | bound hp' => cases hp.symm.trans hp'
  | outer _ h => exact h

end

/-- A type has one erasure. -/
theorem Erases.unique (h : Erases levels t d) {d' : FieldType} (h' : Erases levels t d') : d = d' := by
  induction h generalizing d' with
  | base p => cases h'; rfl
  | ofClass c => cases h'; rfl
  | array _ ih =>
    cases h' with
    | array h' => rw [ih h']
  | unbounded hp hb => exact ((erases_of_unbounded hp hb).mp h').symm
  | bounded hp hb _ ih => exact ih ((erases_of_bounded hp hb).mp h')
  | outer hp _ ih => exact ih ((erases_of_undeclared hp).mp h')

theorem arrayOf_zero_ofDescriptor (d : FieldType) :
    (JType.ofDescriptor d).arrayOf 0 = JType.ofDescriptor d := by
  cases d <;> rfl

/-- What a type erases to is what its element erases to, with the dimensions of the type. -/
theorem Erases.element (h : Erases levels t d) :
    ∃ d', Erases levels t.element d' ∧
      JType.ofDescriptor d = (JType.ofDescriptor d').arrayOf t.dimensions := by
  induction h with
  | array _ ih =>
    obtain ⟨d', hd', hdims⟩ := ih
    refine ⟨d', hd', ?_⟩
    rw [JType.ofDescriptor, hdims]
    rfl
  | base p => exact ⟨_, .base p, rfl⟩
  | ofClass c => exact ⟨_, .ofClass c, rfl⟩
  | unbounded hp hb => exact ⟨_, .unbounded hp hb, rfl⟩
  | bounded hp hb h => exact ⟨_, .bounded hp hb h, (arrayOf_zero_ofDescriptor _).symm⟩
  | outer hp h => exact ⟨_, .outer hp h, (arrayOf_zero_ofDescriptor _).symm⟩

/-- Arrays lead on from their elements. -/
theorem ownBound_element : ∀ {t : TypeSig},
    OwnBound levels t.element inner w ↔ OwnBound levels t inner w
  | .base _ | .ofClass _ | .var _ => Iff.rfl
  | .array t => (ownBound_element (t := t)).trans ⟨.array, fun h => by cases h; assumption⟩

/-- Only type variables lead on. -/
theorem OwnBound.element (h : OwnBound levels t inner w) : ∃ v, t.element = .var v := by
  induction h with
  | array _ ih => exact ih
  | own | bound | outer => exact ⟨_, rfl⟩

/-! ## Names -/

/-- The name in a descriptor is the binary name with slashes. -/
theorem ClassTypeSig.replaceChar_internalName {c : ClassTypeSig} (h : c.WellFormed) :
    Text.replaceChar '/' '.' c.internalName = c.binaryName := by
  cases h with
  | @mk package segments hpackage hne hsegments =>
    have hnames : '/' ∉ (Text.join "$" (segments.map SegmentSig.name)).toList := by
      refine Text.notMem_join (by decide) fun n hn hmem => ?_
      obtain ⟨s, hs, rfl⟩ := List.mem_map.mp hn
      cases hsegments s hs with
      | mk hname =>
        have hends := hname.not_ends _ hmem
        cases hends
    show Text.replaceChar '/' '.' (String.ofList (printPackage package) ++ _) = _
    rw [Text.replaceChar_append, ClassTypeSig.segments, Text.replaceChar_of_notMem _ hnames,
      binaryName]
    refine congrArg (· ++ _) ?_
    rw [Text.isEmpty_replaceChar, ClassTypeSig.package, printPackage]
    cases package.isEmpty with
    | true => rfl
    | false =>
      rw [if_neg Bool.false_ne_true, if_neg Bool.false_ne_true, String.ofList_append,
        Text.replaceChar_append, String.ofList_toList]
      rfl

end ClassFile

open ClassFile

/-! ## Scopes -/

namespace TypeVarScope

/-- The scope inside the lists of type parameters. -/
def within : List (List TypeParamSig) → TypeVarScope
  | [] => {}
  | level :: outer => ((within outer).declare level).2

variable (scope : TypeVarScope) (level : List TypeParamSig) {v : String}

/-- The variables of a list while its bounds are converted: they stand for the root class. -/
def withPlaceholders : TypeVarScope :=
  ⟨scope.params ++ level.map fun p => .of p.name []⟩

/-- A scope with more variables. -/
theorem find?_append (bounds : TypeParamSig → List JType) :
    TypeVarScope.find? ⟨scope.params ++ level.map fun p => .of p.name (bounds p)⟩ v
      = ((declared? level v).map fun p => .of p.name (bounds p)).or (scope.find? v) := by
  rw [TypeVarScope.find?, List.reverse_append, List.find?_append, ← List.map_reverse,
    List.find?_map]
  rfl

theorem find?_withPlaceholders :
    (scope.withPlaceholders level).find? v
      = ((declared? level v).map fun p => .of p.name []).or (scope.find? v) :=
  scope.find?_append level fun _ => []

theorem find?_declare :
    (scope.declare level).2.find? v
      = ((declared? level v).map fun p => .of p.name
          (p.bounds.map (JType.ofSignature (scope.withPlaceholders level)))).or (scope.find? v) :=
  scope.find?_append level fun p => p.bounds.map (JType.ofSignature (scope.withPlaceholders level))

end TypeVarScope

namespace JType

/-- A variable that the list does not declare is one of the scope around. -/
theorem typeVar_of_undeclared {scope : TypeVarScope} {level : List TypeParamSig} {v : String}
    (h : declared? level v = none) :
    (scope.declare level).2.typeVar v = scope.typeVar v ∧
      (scope.withPlaceholders level).typeVar v = scope.typeVar v := by
  simp [TypeVarScope.typeVar, TypeVarScope.find?_declare, TypeVarScope.find?_withPlaceholders, h]

/-- A variable of the list is erased to the root class while the bounds of the list are converted. -/
theorem erasure_placeholder {scope : TypeVarScope} {level : List TypeParamSig} {v : String}
    (h : (declared? level v).isSome = true) :
    ((scope.withPlaceholders level).typeVar v).erasure = .object := by
  obtain ⟨p, hp⟩ := Option.isSome_iff_exists.mp h
  rw [TypeVarScope.typeVar, TypeVarScope.find?_withPlaceholders, hp]
  rfl

/-- The erasure of a variable that the list declares. -/
theorem erasure_typeVar_declare {scope : TypeVarScope} {level : List TypeParamSig} {v : String}
    {p : TypeParamSig} (h : declared? level v = some p) :
    ((scope.declare level).2.typeVar v).erasure
      = match p.bounds with
        | [] => .object
        | b :: _ => (JType.ofSignature (scope.withPlaceholders level) b).erasure := by
  rw [TypeVarScope.typeVar, TypeVarScope.find?_declare, h, Option.map_some, Option.some_or]
  show (TypeParam.of p.name (p.bounds.map _)).asType.erasure = _
  cases p.bounds <;> rfl

theorem erasure_ofClassSignature (scope : TypeVarScope) (c : ClassTypeSig) :
    (JType.ofClassSignature scope c).erasure = .ofClass c.binaryName := by
  obtain ⟨package, segments⟩ := c
  rw [JType.ofClassSignature]
  split <;> rfl

theorem erasure_arrayOf (t : JType) (n : Nat) : (t.arrayOf n).erasure = t.erasure.arrayOf n := rfl

theorem erasure_ofDescriptor (d : FieldType) : (JType.ofDescriptor d).erasure = JType.ofDescriptor d := by
  induction d with
  | base p => rfl
  | object internal => rfl
  | array d ih => exact congrArg (arrayOf · 1) ih

theorem erasure_ofSignature (scope : TypeVarScope) : ∀ t : TypeSig,
    (JType.ofSignature scope t).erasure
      = (JType.ofSignature scope t.element).erasure.arrayOf t.dimensions
  | .base p => rfl
  | .ofClass c => rfl
  | .var v => rfl
  | .array t => by
    show ((JType.ofSignature scope t).arrayOf 1).erasure = _
    rw [erasure_arrayOf, erasure_ofSignature scope t]
    rfl

/-- The erasures of types with as many dimensions are those of the elements. -/
theorem arrayOf_erasure_inj {s t : JType} {n : Nat} :
    s.erasure.arrayOf n = t.erasure.arrayOf n ↔ s.erasure = t.erasure := by
  simp [arrayOf, erasure]

/-- The erasure of a type looks at the scope for the variable that it is built on only. -/
theorem erasure_congr {scope scope' : TypeVarScope} {t : TypeSig}
    (h : ∀ v, t.element = .var v → scope.typeVar v = scope'.typeVar v) :
    (JType.ofSignature scope t).erasure = (JType.ofSignature scope' t).erasure := by
  rw [erasure_ofSignature scope t, erasure_ofSignature scope' t]
  cases helement : t.element with
  | base p => rfl
  | ofClass c =>
    simp only [JType.ofSignature, erasure_ofClassSignature]
  | var v =>
    simp only [JType.ofSignature, h v helement]
  | array u => exact absurd helement (TypeSig.element_ne_array u t)

end JType

/-! ## The result -/

/-- Wherever a leftmost bound on the way from the type is built on a variable of its own list, that
variable erases to the root class. -/
def SeesBounds (levels : List (List TypeParamSig)) (t : TypeSig) : Prop :=
  ∀ inner w d, OwnBound levels t inner w → Erases inner (.var w) d → JType.ofDescriptor d = .object

variable {level : List TypeParamSig} {levels outer : List (List TypeParamSig)} {v : String}
  {p : TypeParamSig} {b : TypeSig} {bs : List TypeSig}

/-- Where no type variable stands, no bound is lost. -/
theorem seesBounds_of_element {t : TypeSig} (h : ∀ v, t.element ≠ .var v) : SeesBounds levels t := by
  intro inner w d hown
  obtain ⟨v, hv⟩ := hown.element
  exact absurd hv (h v)

theorem seesBounds_array {t : TypeSig} : SeesBounds levels (.array t) ↔ SeesBounds levels t := by
  simp only [SeesBounds, ← ownBound_element (t := .array t), TypeSig.element, ownBound_element]

/-- A variable of the lists around is looked at there. -/
theorem seesBounds_of_undeclared (hp : declared? level v = none) :
    SeesBounds (level :: outer) (.var v) ↔ SeesBounds outer (.var v) :=
  forall₃_congr fun _ _ _ => imp_congr_left (ownBound_of_undeclared hp)

theorem seesBounds_of_unbounded (hp : declared? level v = some p) (hb : p.bounds = []) :
    SeesBounds (level :: outer) (.var v) :=
  fun _ _ _ hown => absurd hown (not_ownBound_of_unbounded hp hb)

/-- The bound is lost unless the variable that it is built on erases to the root class. -/
theorem seesBounds_of_own (hp : declared? level v = some p) (hb : p.bounds = b :: bs) {w : String}
    (hw : b.element = .var w) (hdeclared : (declared? level w).isSome = true) {d : FieldType}
    (hd : Erases (level :: outer) (.var w) d) :
    SeesBounds (level :: outer) (.var v) ↔ JType.ofDescriptor d = .object := by
  constructor
  · intro hsees
    exact hsees _ w d (.own hp hb hw hdeclared) hd
  · intro hroot inner u d' hown hd'
    rcases (ownBound_of_bounded hp hb).mp hown with ⟨rfl, hu, -⟩ | ⟨hfree, -⟩
    · cases hw.symm.trans hu
      rwa [← hd.unique hd']
    · rw [hfree w hw] at hdeclared
      cases hdeclared

/-- A bound that is not built on a variable of its list leads on. -/
theorem seesBounds_of_free (hp : declared? level v = some p) (hb : p.bounds = b :: bs)
    (hfree : ∀ w, b.element = .var w → declared? level w = none) :
    SeesBounds (level :: outer) (.var v) ↔ SeesBounds (level :: outer) b := by
  refine forall₃_congr fun inner w d => imp_congr_left ⟨fun hown => ?_, .bound hp hb hfree⟩
  rcases (ownBound_of_bounded hp hb).mp hown with ⟨-, hw, hdeclared⟩ | ⟨-, hown⟩
  · rw [hfree w hw] at hdeclared
    cases hdeclared
  · exact hown

theorem wellFormed_of_declared? (h : ∀ p ∈ level, p.WellFormed) (hp : declared? level v = some p)
    (hb : p.bounds = b :: bs) : b.WellFormed := by
  have hmem := List.mem_reverse.mp (List.mem_of_find?_eq_some hp)
  exact ((h p hmem).bounds b (hb ▸ List.mem_cons_self)).1

/-- The type that a signature denotes erases to the type that its erasure denotes exactly if no leftmost
bound that counts is lost. -/
theorem erasure_ofSignature_iff (hlevels : ∀ level ∈ levels, ∀ p ∈ level, p.WellFormed) {t : TypeSig}
    (ht : t.WellFormed) {d : FieldType} (h : Erases levels t d) :
    (JType.ofSignature (.within levels) t).erasure = JType.ofDescriptor d ↔ SeesBounds levels t := by
  induction h with
  | base p => exact iff_of_true rfl (seesBounds_of_element nofun)
  | ofClass c =>
    refine iff_of_true ?_ (seesBounds_of_element nofun)
    cases ht with
    | ofClass hc =>
      rw [JType.ofSignature, JType.erasure_ofClassSignature, JType.ofDescriptor,
        ClassTypeSig.replaceChar_internalName hc]
  | @array levels t d h ih =>
    cases ht with
    | array ht =>
      rw [seesBounds_array, ← ih hlevels ht, JType.ofSignature, JType.ofDescriptor,
        JType.erasure_arrayOf, ← JType.erasure_ofDescriptor d, JType.arrayOf_erasure_inj]
  | @unbounded level outer v p hp hb =>
    refine iff_of_true ?_ (seesBounds_of_unbounded hp hb)
    show ((TypeVarScope.declare _ level).2.typeVar v).erasure = _
    rw [JType.erasure_typeVar_declare hp, hb]
    rfl
  | @outer level outer v d hp h ih =>
    rw [seesBounds_of_undeclared hp,
      ← ih (fun level hlevel => hlevels level (List.mem_cons_of_mem _ hlevel)) ht]
    show ((TypeVarScope.declare _ level).2.typeVar v).erasure = _ ↔ _
    rw [(JType.typeVar_of_undeclared hp).1]
    rfl
  | @bounded level outer v p b bs d hp hb h ih =>
    have hwell := wellFormed_of_declared? (hlevels level List.mem_cons_self) hp hb
    show ((TypeVarScope.declare _ level).2.typeVar v).erasure = _ ↔ _
    rw [JType.erasure_typeVar_declare hp, hb]
    dsimp only
    by_cases hown : ∃ w, b.element = .var w ∧ (declared? level w).isSome = true
    -- the bound is seen as the root class, with its dimensions
    · obtain ⟨w, hw, hdeclared⟩ := hown
      obtain ⟨d', hd', hdims⟩ := h.element
      rw [hw] at hd'
      rw [seesBounds_of_own hp hb hw hdeclared hd', JType.erasure_ofSignature _ b, hw, hdims,
        JType.ofSignature, JType.erasure_placeholder hdeclared, ← JType.erasure_ofDescriptor d']
      exact (JType.arrayOf_erasure_inj (s := .object)).trans eq_comm
    -- the bound is seen as everywhere else
    · have hfree : ∀ w, b.element = .var w → declared? level w = none := by
        intro w hw
        simpa using fun hdeclared => hown ⟨w, hw, hdeclared⟩
      have hsame : (JType.ofSignature ((TypeVarScope.within outer).withPlaceholders level) b).erasure
          = (JType.ofSignature (.within (level :: outer)) b).erasure := by
        refine JType.erasure_congr fun w hw => ?_
        obtain ⟨hdeclare, hplaceholder⟩ := @JType.typeVar_of_undeclared (.within outer) _ _ (hfree w hw)
        exact hplaceholder.trans hdeclare.symm
      rw [seesBounds_of_free hp hb hfree, ← ih hlevels hwell, hsame]

/-- No leftmost bound in the list is built on one of its variables. -/
def BoundsElsewhere (level : List TypeParamSig) : Prop :=
  ∀ p ∈ level, ∀ b bs, p.bounds = b :: bs → ∀ w, b.element = .var w → declared? level w = none

theorem seesBounds_of_boundsElsewhere (h : ∀ level ∈ levels, BoundsElsewhere level) (t : TypeSig) :
    SeesBounds levels t := by
  intro inner w d hown
  induction hown with
  | array _ ih => exact ih h
  | own hp hb hw hdeclared =>
    have hmem := List.mem_reverse.mp (List.mem_of_find?_eq_some hp)
    rw [h _ List.mem_cons_self _ hmem _ _ hb _ hw] at hdeclared
    cases hdeclared
  | bound _ _ _ _ ih => exact ih h
  | outer _ _ ih => exact ih fun level hlevel => h level (List.mem_cons_of_mem _ hlevel)

/-- The erasures of a method and of its signature.  In a class with a well-formed signature, each
parameter and the result of a method with one erase to the types of its erased signature exactly where
no leftmost bound that counts is lost.  None is if, in the lists of the method and of the class, no
variable is bounded leftmost by a variable of the same list, or by an array of one. -/
theorem erasure_method_iff (name : String) (flags : UInt16) (cs : ClassSig) (ms : MethodSig)
    (hcs : cs.WellFormed) (hms : ms.WellFormed) :
    (∀ (i : Nat) t d, ms.params[i]? = some t → Erases [ms.typeParams, cs.typeParams] t d →
        ∃ u : JType, (MethodDef.ofSignature name flags ms (ClassHeader.ofSignature cs).scope).params[i]?
              = some u ∧
            (u.erasure = .ofDescriptor d ↔ SeesBounds [ms.typeParams, cs.typeParams] t)) ∧
      (∀ t d, ms.returnType = some t → Erases [ms.typeParams, cs.typeParams] t d →
        ((MethodDef.ofSignature name flags ms (ClassHeader.ofSignature cs).scope).returnType.erasure
            = .ofReturnDescriptor (.value d) ↔ SeesBounds [ms.typeParams, cs.typeParams] t)) ∧
      (ms.returnType = none →
        (MethodDef.ofSignature name flags ms (ClassHeader.ofSignature cs).scope).returnType
          = .ofReturnDescriptor .void) ∧
      (BoundsElsewhere ms.typeParams → BoundsElsewhere cs.typeParams →
        ∀ t, SeesBounds [ms.typeParams, cs.typeParams] t) := by
  have hlevels : ∀ level ∈ [ms.typeParams, cs.typeParams], ∀ p ∈ level, p.WellFormed := by
    simpa using ⟨hms.typeParams.each, hcs.typeParams.each⟩
  refine ⟨fun i t d ht hd => ⟨JType.ofSignature (.within [ms.typeParams, cs.typeParams]) t, ?_, ?_⟩,
    fun t d ht hd => ?_, fun hnone => ?_, fun hm hc => ?_⟩
  · show (ms.params.map (JType.ofSignature (.within [ms.typeParams, cs.typeParams])))[i]? = _
    rw [List.getElem?_map, ht]
    rfl
  · exact erasure_ofSignature_iff hlevels (hms.params t (List.mem_of_getElem? ht)) hd
  · show ((ms.returnType.map (JType.ofSignature (.within [ms.typeParams, cs.typeParams]))).getD
      .void).erasure = _ ↔ _
    rw [ht]
    exact erasure_ofSignature_iff hlevels (hms.returnType t ht) hd
  · show (ms.returnType.map _).getD JType.void = _
    rw [hnone]
    rfl
  · exact seesBounds_of_boundsElsewhere (by simpa using ⟨hm, hc⟩)

/-- The class with that name in a package. -/
def classIn (package name : String) : TypeSig := .ofClass (.mk package [.mk name []])

/-- Type variables with one bound each. -/
def bounded (vars : List (String × TypeSig)) : List TypeParamSig :=
  vars.map fun v => { name := v.1, classBound := some v.2, interfaceBounds := [] }

/-- A class with type variables of one bound each. -/
def classOver (vars : List (String × TypeSig)) : ClassSig :=
  { typeParams := bounded vars, superclass := .mk "java/lang" [.mk "Object" []], interfaces := [] }

/-- A method with such type variables that takes an array of `T` and returns a `T`. -/
def methodOver (vars : List (String × TypeSig)) : MethodSig :=
  { typeParams := bounded vars, params := [.array (.var "T")], returnType := some (.var "T")
    throws := [] }

/-- The root of numbers. -/
def numberSig : TypeSig := classIn "java/lang" "Number"

theorem isPackage_javaLang : IsPackage "java/lang" := by
  have hparts : packageInside (packageInside "" "java") "lang" = "java/lang" := by decide
  rw [← hparts]
  exact .inside (.inside .unnamed (by decide)) (by decide)

theorem wellFormed_classIn {package name : String} (hpackage : IsPackage package)
    (hname : IsIdentifier name) : (classIn package name).WellFormedReference := by
  refine ⟨.ofClass (.mk hpackage (List.cons_ne_nil _ _) fun s hs => ?_), trivial⟩
  obtain rfl := List.mem_singleton.mp hs
  exact .mk hname nofun

theorem wellFormed_numberSig : numberSig.WellFormedReference :=
  wellFormed_classIn isPackage_javaLang (by decide)

theorem wellFormed_var {name : String} (hname : IsIdentifier name) :
    (TypeSig.var name).WellFormedReference :=
  ⟨.var hname, trivial⟩

section

variable {vars : List (String × TypeSig)}
  (h : ∀ v ∈ vars, IsIdentifier v.1 ∧ v.2.WellFormedReference)

include h

theorem wellFormed_bounded : TypeParamsWellFormed (bounded vars) where
  each := by
    intro p hp
    obtain ⟨v, hv, rfl⟩ := List.mem_map.mp hp
    refine ⟨(h v hv).1, fun t ht => ?_⟩
    obtain rfl := List.mem_singleton.mp ht
    exact (h v hv).2
  chain :=
    (List.pairwise_map.mpr (List.pairwise_of_forall fun _ _ hunbounded => nomatch hunbounded)).isChain

theorem wellFormed_classOver : (classOver vars).WellFormed where
  typeParams := wellFormed_bounded h
  superclass := by
    have hobject : (classIn "java/lang" "Object").WellFormedReference :=
      wellFormed_classIn isPackage_javaLang (by decide)
    cases hobject.1 with
    | ofClass hc => exact hc
  interfaces := nofun

theorem wellFormed_methodOver : (methodOver vars).WellFormed where
  typeParams := wellFormed_bounded h
  params := by
    intro t ht
    obtain rfl := List.mem_singleton.mp ht
    exact .array (.var (by decide))
  returnType := by
    rintro _ ⟨⟩
    exact .var (by decide)
  throws := nofun

end

/-- A variable that is bounded by a variable of the class erases to the bound of that one. -/
theorem erasure_boundedByOuter :
    (classOver [("E", numberSig)]).WellFormed ∧ (methodOver [("T", .var "E")]).WellFormed ∧
      ∃ u, (MethodDef.ofSignature "m" 1 (methodOver [("T", .var "E")])
            (ClassHeader.ofSignature (classOver [("E", numberSig)])).scope).params[0]? = some u ∧
        u.erasure = .ofDescriptor (.array (.object "java/lang/Number")) := by
  have hcs : (classOver [("E", numberSig)]).WellFormed :=
    wellFormed_classOver (List.forall_mem_singleton.mpr ⟨by decide, wellFormed_numberSig⟩)
  have hms : (methodOver [("T", .var "E")]).WellFormed :=
    wellFormed_methodOver (List.forall_mem_singleton.mpr ⟨by decide, wellFormed_var (by decide)⟩)
  obtain ⟨hparams, -, -, hsees⟩ := erasure_method_iff "m" 1 _ _ hcs hms
  have herases : Erases [bounded [("T", .var "E")], bounded [("E", numberSig)]] (.array (.var "T"))
      (.array (.object "java/lang/Number")) :=
    .array (.bounded rfl rfl (.outer rfl (.bounded rfl rfl (.ofClass _))))
  obtain ⟨u, hu, hiff⟩ := hparams 0 _ _ rfl herases
  refine ⟨hcs, hms, u, hu, hiff.mpr (hsees ?_ ?_ _)⟩
  · intro p hp b bs hb w hw
    obtain rfl := List.mem_singleton.mp hp
    cases hb
    cases hw
    rfl
  · intro p hp b bs hb w hw
    obtain rfl := List.mem_singleton.mp hp
    cases hb
    cases hw

/-- A variable that is bounded by a variable of the same list is taken for the root class. -/
theorem erasure_boundedByNeighbour :
    (classOver [("U", numberSig), ("T", .var "U")]).WellFormed ∧ (methodOver []).WellFormed ∧
      Erases [[], bounded [("U", numberSig), ("T", .var "U")]] (.var "T")
        (.object "java/lang/Number") ∧
      (MethodDef.ofSignature "m" 1 (methodOver []) (ClassHeader.ofSignature
          (classOver [("U", numberSig), ("T", .var "U")])).scope).returnType.erasure = .object ∧
      JType.object ≠ .ofReturnDescriptor (.value (.object "java/lang/Number")) := by
  refine ⟨wellFormed_classOver ?_, wellFormed_methodOver nofun, ?_, rfl, ?_⟩
  · exact List.forall_mem_cons.mpr ⟨⟨by decide, wellFormed_numberSig⟩,
      List.forall_mem_singleton.mpr ⟨by decide, wellFormed_var (by decide)⟩⟩
  · exact .outer rfl (.bounded rfl rfl (.bounded rfl rfl (.ofClass _)))
  · intro heq
    exact absurd (congrArg JType.name heq) (by decide)

end JavaSema
