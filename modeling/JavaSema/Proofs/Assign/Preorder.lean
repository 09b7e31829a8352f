import JavaSema.Proofs.Merge.UpperBound

/-!
# Assignability is a preorder on erased references

Between types without type arguments, `accepts` is reflexive and transitive on any hierarchy in which
nothing but the root class is above the supertypes of all arrays.

There are three groups.

* References.  `ErasedReference` is the set of types that the result is about: classes and arrays.
* Hierarchies.  `BareArrayRoots` is the condition, and `isSubclass_trans` what it gives for classes.
* Assignability.  `accepts_erased_iff` reads `accepts` between references as one of two rules: equal
  dimensions with elements that fit, or more dimensions below a supertype of all arrays.
-/

namespace JavaSema

open JType

/-! ## References -/

/-- A class or an array, without type arguments: the name of a class, or a primitive type with a
dimension, and any number of dimensions. -/
inductive JType.ErasedReference : JType → Prop where
  /-- A class. -/
  | ofClass (name : String) (n : Nat) (hname : isClassName name = true) :
      ErasedReference ((JType.ofClass name).arrayOf n)
  /-- A primitive type, which is the element of an array. -/
  | primitive (p : Primitive) (n : Nat) (hn : 1 ≤ n) :
      ErasedReference ((JType.primitive p).arrayOf n)

theorem JType.ErasedReference.exists_erased {t : JType} (h : ErasedReference t) :
    ∃ name dims, t = erased name dims ∧
      (isClassName name = true ∨ (∃ p : Primitive, name = p.keyword) ∧ 1 ≤ dims) := by
  cases h with
  | ofClass name n hname => exact ⟨name, n, ofClass_arrayOf _ _, .inl hname⟩
  | primitive p n hn => exact ⟨p.keyword, n, ofClass_arrayOf _ _, .inr ⟨⟨p, rfl⟩, hn⟩⟩

theorem isClassName_keyword (p : Primitive) : isClassName p.keyword = false := by
  cases p <;> decide

theorem isClassName_of_isArraySupertype {name : String} (h : isArraySupertype name = true) :
    isClassName name = true := by
  simp only [isArraySupertype, Bool.or_eq_true, beq_iff_eq] at h
  rcases h with (rfl | rfl) | rfl <;> decide

/-! ## Hierarchies -/

namespace ClassEnv

variable {env : ClassEnv}

/-- The root class and the interfaces of all arrays have no supertypes other than the root class. -/
def BareArrayRoots (env : ClassEnv) : Prop :=
  ∀ name, isArraySupertype name = true → ∀ d, env.find? name = some d →
    ∀ s ∈ d.directSupertypes, s.name = objectName

/-- Above a supertype of all arrays there is only the root class. -/
theorem BareArrayRoots.eq_object (h : env.BareArrayRoots) {a b : String}
    (ha : isArraySupertype a = true) (hpath : Relation.TransGen env.Edge a b) : b = objectName := by
  have hedge : ∀ {a b}, isArraySupertype a = true → env.Edge a b → b = objectName := by
    rintro a b ha ⟨d, hd, hb⟩
    obtain ⟨s, hs, rfl⟩ := List.mem_map.mp hb
    exact h a ha d hd s hs
  induction hpath with
  | single hstep => exact hedge ha hstep
  | tail _ hstep ih =>
    subst ih
    exact hedge (by decide) hstep

/-- What is above a supertype of all arrays is such a supertype itself. -/
theorem BareArrayRoots.isArraySupertype (h : env.BareArrayRoots) {a b : String}
    (ha : isArraySupertype a = true) (hsub : env.isSubclass a b = true) :
    JType.isArraySupertype b = true := by
  have hroot : JType.isArraySupertype objectName = true := by decide
  rcases (isSubclass_iff env a b).mp hsub with rfl | rfl | hpath
  · exact ha
  · exact hroot
  · rw [h.eq_object ha hpath]
    exact hroot

/-- Subclasses of subclasses are subclasses. -/
theorem BareArrayRoots.isSubclass_trans (h : env.BareArrayRoots) {a b c : String}
    (hab : env.isSubclass a b = true) (hbc : env.isSubclass b c = true) :
    env.isSubclass a c = true := by
  rw [isSubclass_iff] at hab hbc ⊢
  rcases hbc with rfl | rfl | hbc
  · exact hab
  · exact .inr (.inl rfl)
  rcases hab with rfl | rfl | hab
  · exact .inr (.inr hbc)
  · exact .inr (.inl (h.eq_object (by decide) hbc))
  · exact .inr (.inr (hab.trans hbc))

end ClassEnv

/-- A table meets the condition if each of its classes does. -/
theorem ClassTable.bareArrayRoots_of_classes {table : ClassTable}
    (h : ∀ d ∈ table.classes, JType.isArraySupertype d.name = true →
      ∀ s ∈ d.directSupertypes, s.name = objectName) : table.toEnv.BareArrayRoots := by
  intro name hname d hd
  have hmem := mem_classes_of_get? (get?_of_find? hd)
  rw [← name_of_find? hd] at hname
  exact h d hmem hname

/-! ## Assignability -/

namespace JType

variable {env : ClassEnv}

/-- The one name is that of an element which the other one accepts. -/
def ElementFits (env : ClassEnv) (n m : String) : Prop :=
  n = m ∨ (isClassName n = true ∧ isClassName m = true ∧ env.isSubclass m n = true)

/-- Arrays of the same dimensions follow their elements. -/
theorem acceptsArray_same {n m : String} {d : Nat} (hd : 1 ≤ d)
    (hn : isClassName n = true ∨ ∃ p : Primitive, n = p.keyword)
    (hm : isClassName m = true ∨ ∃ p : Primitive, m = p.keyword) :
    acceptsArray env (erased n d) (erased m d) = true ↔ ElementFits env n m := by
  have hpos : d ≠ 0 := by omega
  unfold acceptsArray ElementFits
  rcases hn with hn | ⟨p, rfl⟩
  · obtain ⟨hnelem, hnnull⟩ := isElementName_of_isClassName hn
    rcases hm with hm | ⟨q, rfl⟩
    · obtain ⟨hmelem, hmnull⟩ := isElementName_of_isClassName hm
      have hrefl : n = m → env.isSubclass m n = true := by
        rintro rfl
        exact (ClassEnv.isSubclass_iff env n n).mpr (.inl rfl)
      simp [hpos, hnelem.isPrimitive, hmelem.isPrimitive, acceptsPlain_elements hnelem hmelem,
        hmnull, hn, hm]
      exact hrefl
    · have hne : n ≠ q.keyword := by
        rintro rfl
        rw [isClassName_keyword] at hn
        cases hn
      simp [hpos, isPrimitive_keyword, isClassName_keyword, hne]
  · simp [hpos, isPrimitive_keyword, isClassName_keyword]

/-- Arrays of more dimensions than the target need a supertype of all arrays as its element. -/
theorem acceptsArray_more {n m : String} {d e : Nat} (hde : d < e) :
    acceptsArray env (erased n d) (erased m e) = true ↔ isArraySupertype n = true := by
  have he : e ≠ 0 := by omega
  have hne : ¬ e = d := by omega
  unfold acceptsArray
  rcases Nat.eq_zero_or_pos d with rfl | hd
  · simp [he]
  · have hzero : d ≠ 0 := by omega
    have helem : isArraySupertype n = true → (erased n 0).isPrimitive = false := fun h =>
      (isElementName_of_isClassName (isClassName_of_isArraySupertype h)).1.isPrimitive 0
    simpa [he, hzero, hne, hde] using helem

/-- Between references there are two ways to be accepted. -/
theorem accepts_erased_iff {n m : String} {d e : Nat}
    (hn : isClassName n = true ∨ (∃ p : Primitive, n = p.keyword) ∧ 1 ≤ d)
    (hm : isClassName m = true ∨ (∃ p : Primitive, m = p.keyword) ∧ 1 ≤ e) :
    accepts env (erased n d) (erased m e) = true ↔
      (d = e ∧ ElementFits env n m) ∨ (d < e ∧ isArraySupertype n = true) := by
  rcases Nat.eq_zero_or_pos (d + e) with hzero | hpos
  · obtain ⟨rfl, rfl⟩ : d = 0 ∧ e = 0 := by omega
    have hn : isClassName n = true := hn.resolve_right (by omega)
    have hm : isClassName m = true := hm.resolve_right (by omega)
    obtain ⟨hnelem, -⟩ := isElementName_of_isClassName hn
    obtain ⟨hmelem, hmnull⟩ := isElementName_of_isClassName hm
    rw [accepts_elements hnelem hmelem]
    have hrefl : n = m → env.isSubclass m n = true := by
      rintro rfl
      exact (ClassEnv.isSubclass_iff env n n).mpr (.inl rfl)
    simpa [hmnull, ElementFits, hn, hm] using hrefl
  have hplain : accepts env (erased n d) (erased m e) = acceptsArray env (erased n d) (erased m e) := by
    have hnvoid : ¬ (d = 0 ∧ n = "void") := by
      rintro ⟨rfl, rfl⟩
      rcases hn with hn | ⟨-, hd⟩
      · exact absurd hn (by decide)
      · omega
    have hmvoid : ¬ (e = 0 ∧ (m = "void" ∨ m = "null")) := by
      rintro ⟨rfl, hname⟩
      rcases hm with hm | ⟨-, he⟩
      · rcases hname with rfl | rfl <;> exact absurd hm (by decide)
      · omega
    rw [accepts]
    have harray : 0 < d ∨ 0 < e := by omega
    have hmvoid' : ¬ (e = 0 ∧ m = "void") := fun h => hmvoid ⟨h.1, .inl h.2⟩
    have hmnull : ¬ (e = 0 ∧ m = "null") := fun h => hmvoid ⟨h.1, .inr h.2⟩
    simp [hnvoid, hmvoid', hmnull, harray]
  rw [hplain]
  rcases Nat.lt_trichotomy d e with hde | rfl | hed
  · rw [acceptsArray_more hde]
    have hne : d ≠ e := by omega
    simp [hde, hne]
  · rw [acceptsArray_same (by omega) (hn.imp_right And.left) (hm.imp_right And.left)]
    simp
  · -- fewer dimensions than the target are never accepted
    have hfewer : acceptsArray env (erased n d) (erased m e) = false := by
      have hd : d ≠ 0 := by omega
      have hne : e ≠ d := by omega
      have hlt : ¬ d < e := by omega
      simp [acceptsArray, hd, hne, hlt]
    have hne : d ≠ e := by omega
    have hlt : ¬ d < e := by omega
    simp [hfewer, hne, hlt]

/-- Assignability between classes and arrays without type arguments is reflexive, and transitive where
nothing but the root class is above the supertypes of all arrays. -/
theorem accepts_refl_and_trans (env : ClassEnv) (h : env.BareArrayRoots) (a b c : JType)
    (ha : ErasedReference a) (hb : ErasedReference b) (hc : ErasedReference c) :
    accepts env a a = true ∧
      (accepts env a b = true → accepts env b c = true → accepts env a c = true) := by
  obtain ⟨n, d, rfl, hn⟩ := ha.exists_erased
  obtain ⟨m, e, rfl, hm⟩ := hb.exists_erased
  obtain ⟨k, f, rfl, hk⟩ := hc.exists_erased
  rw [accepts_erased_iff hn hn, accepts_erased_iff hn hm, accepts_erased_iff hm hk,
    accepts_erased_iff hn hk]
  refine ⟨.inl ⟨rfl, .inl rfl⟩, ?_⟩
  rintro (⟨rfl, hnm⟩ | ⟨hde, hroot⟩) (⟨rfl, hmk⟩ | ⟨hef, hroot'⟩)
  · refine .inl ⟨rfl, ?_⟩
    rcases hnm with rfl | ⟨hn, hm, hnm⟩
    · exact hmk
    · rcases hmk with rfl | ⟨-, hk, hmk⟩
      · exact .inr ⟨hn, hm, hnm⟩
      · exact .inr ⟨hn, hk, h.isSubclass_trans hmk hnm⟩
  · refine .inr ⟨hef, ?_⟩
    rcases hnm with rfl | ⟨-, -, hnm⟩
    · exact hroot'
    · exact h.isArraySupertype hroot' hnm
  · exact .inr ⟨hde, hroot⟩
  · exact .inr ⟨Nat.lt_trans hde hef, hroot⟩

/-- A class that can be cloned, below the root class and the interface of all arrays. -/
def cloneableShape : ClassTable :=
  ⟨[ClassDef.empty objectName .ordinary, ClassDef.empty cloneableName .interface,
      { ClassDef.empty "Shape" .ordinary with interfaces := [.ofClass cloneableName] }]⟩

/-- An array of shapes, or of arrays of numbers, is one of things that can be cloned, and so one of
objects. -/
theorem cloneableShape_accepts :
    cloneableShape.toEnv.BareArrayRoots ∧
      accepts cloneableShape.toEnv (object.arrayOf 1) ((ofClass "Shape").arrayOf 1) = true ∧
      accepts cloneableShape.toEnv (object.arrayOf 1) ((primitive .int).arrayOf 2) = true := by
  have hroots : cloneableShape.toEnv.BareArrayRoots :=
    ClassTable.bareArrayRoots_of_classes (by decide)
  have hobject : ErasedReference (object.arrayOf 1) := .ofClass objectName 1 (by decide)
  have hcloneable : ErasedReference ((ofClass cloneableName).arrayOf 1) :=
    .ofClass cloneableName 1 (by decide)
  have hfirst : accepts cloneableShape.toEnv (object.arrayOf 1) ((ofClass cloneableName).arrayOf 1)
      = true :=
    (accepts_erased_iff (.inl (by decide)) (.inl (by decide))).mpr
      (.inl ⟨rfl, .inr ⟨by decide, by decide, by decide⟩⟩)
  refine ⟨hroots, ?_, ?_⟩
  · refine (accepts_refl_and_trans cloneableShape.toEnv hroots _ _ _ hobject hcloneable
      (.ofClass "Shape" 1 (by decide))).2 hfirst ?_
    exact (accepts_erased_iff (.inl (by decide)) (.inl (by decide))).mpr
      (.inl ⟨rfl, .inr ⟨by decide, by decide, by decide⟩⟩)
  · refine (accepts_refl_and_trans cloneableShape.toEnv hroots _ _ _ hobject hcloneable
      (.primitive .int 2 (by decide))).2 hfirst ?_
    exact (accepts_erased_iff (.inl (by decide)) (.inr ⟨⟨.int, rfl⟩, by decide⟩)).mpr
      (.inr ⟨by decide, by decide⟩)

end JType

end JavaSema
