import JavaSema.Analysis.Overload
import JavaSema.Proofs.Hierarchy.Supertype

/-!
# Merging gives an upper bound

The merge of a list of erased types accepts each of them, on any hierarchy whose supertypes are class
types.  Acceptance is not transitive there, since the root class may itself have supertypes, so the
proof does not go through `accepts`.  It carries a finer relation along the list.

There are five groups.

* Erased types.  `erased name dims` is the form that all types of the list and all merges have, and
  `Mergeable` is the set of types that the result is about.
* Names.  `NameBelow` is the relation between the names of elements, and `NameBelow.trans` the
  composition that holds of it: the root class may only be left for itself.
* Common supertypes.  What `ClassEnv.commonSupertype` finds is above both names.
* One merge.  `merge_elements` is the merge of two elements, and `merge_above` says that the merge of
  two types is above whatever the first one was above, and above the second one.
* The fold.  `mergeAll_accepts` is the result.
-/

namespace JavaSema

namespace JType

/-! ## Erased types -/

/-- The type of that name and of so many dimensions, without anything else. -/
def erased (name : String) (dims : Nat) : JType := { name, dims }

/-- The types that can be merged: `null`, a class, or a primitive type with a dimension, and any
number of dimensions more. -/
inductive Mergeable : JType → Prop where
  /-- The type of `null`. -/
  | null (n : Nat) : Mergeable (JType.null.arrayOf n)
  /-- A class without type arguments. -/
  | ofClass (name : String) (n : Nat) (hname : isClassName name = true) :
      Mergeable ((JType.ofClass name).arrayOf n)
  /-- A primitive type, which is the element of an array. -/
  | primitive (p : Primitive) (n : Nat) (hn : 1 ≤ n) : Mergeable ((JType.primitive p).arrayOf n)

/-- The name of a class, or `null`. -/
def IsElementName (name : String) : Prop := Primitive.ofKeyword? name = none ∧ name ≠ "void"

theorem ofClass_arrayOf (name : String) (n : Nat) : (ofClass name).arrayOf n = erased name n := by
  simp [ofClass, arrayOf, erased]

theorem object_eq_erased : object = erased objectName 0 := rfl

theorem null_eq_erased : null = erased "null" 0 := rfl

theorem isElementName_of_isClassName {name : String} (h : isClassName name = true) :
    IsElementName name ∧ name ≠ "null" := by
  simp only [isClassName, Bool.and_eq_true, bne_iff_ne, Option.isNone_iff_eq_none] at h
  exact ⟨⟨h.1.1, h.1.2⟩, h.2⟩

theorem isClassName_of_isElementName {name : String} (h : IsElementName name)
    (hnull : name ≠ "null") : isClassName name = true := by
  simp [isClassName, h.1, h.2, hnull]

theorem keyword_ne_void (p : Primitive) : p.keyword ≠ "void" := by
  cases p <;> decide

theorem isElementName_null : IsElementName "null" := ⟨by decide, by decide⟩

theorem isElementName_object : IsElementName objectName := ⟨by decide, by decide⟩

/-- A mergeable type is erased, and its name is that of an element, or of a primitive type where it
has dimensions. -/
theorem mergeable_iff {t : JType} :
    Mergeable t ↔ ∃ name dims, t = erased name dims ∧ name ≠ "void" ∧
      (IsElementName name ∨ (∃ p : Primitive, name = p.keyword) ∧ 1 ≤ dims) := by
  constructor
  · intro h
    cases h with
    | null n => exact ⟨"null", n, ofClass_arrayOf _ _, by decide, .inl isElementName_null⟩
    | ofClass name n hname =>
      have he := (isElementName_of_isClassName hname).1
      exact ⟨name, n, ofClass_arrayOf _ _, he.2, .inl he⟩
    | primitive p n hn =>
      exact ⟨p.keyword, n, ofClass_arrayOf _ _, keyword_ne_void p, .inr ⟨⟨p, rfl⟩, hn⟩⟩
  · rintro ⟨name, dims, rfl, _, he | ⟨⟨p, rfl⟩, hn⟩⟩
    · rw [← ofClass_arrayOf]
      by_cases hnull : name = "null"
      · subst hnull
        exact .null dims
      · exact .ofClass name dims (isClassName_of_isElementName he hnull)
    · rw [← ofClass_arrayOf]
      exact .primitive p dims hn

theorem mergeable_erased {name : String} {dims : Nat} :
    Mergeable (erased name dims) ↔ name ≠ "void" ∧
      (IsElementName name ∨ (∃ p : Primitive, name = p.keyword) ∧ 1 ≤ dims) := by
  constructor
  · intro h
    obtain ⟨name', dims', heq, hrest⟩ := mergeable_iff.mp h
    simp only [erased, JType.mk.injEq] at heq
    obtain ⟨rfl, -, rfl, -⟩ := heq
    exact hrest
  · intro h
    exact mergeable_iff.mpr ⟨name, dims, rfl, h⟩

theorem mergeable_object : Mergeable object :=
  .ofClass objectName 0 (by decide)

section Erased

variable (name : String) (dims : Nat)

@[simp] theorem erased_name : (erased name dims).name = name := rfl
@[simp] theorem erased_dims : (erased name dims).dims = dims := rfl
@[simp] theorem erased_args : (erased name dims).args = none := rfl
@[simp] theorem erased_wildcard : (erased name dims).wildcard = false := rfl
@[simp] theorem erased_unresolved : (erased name dims).unresolved = false := rfl
@[simp] theorem erased_isTypeVar : (erased name dims).isTypeVar = false := rfl
@[simp] theorem erased_readType : (erased name dims).readType = erased name dims := rfl
@[simp] theorem erased_element : (erased name dims).element = erased name 0 := rfl

@[simp] theorem erased_isArray : (erased name dims).isArray = decide (dims > 0) := rfl

@[simp] theorem erased_isVoid : (erased name dims).isVoid = (dims == 0 && name == "void") := by
  simp [isVoid, erased]

@[simp] theorem erased_isNull : (erased name dims).isNull = (dims == 0 && name == "null") := by
  simp [isNull, erased]

@[simp] theorem erased_primitive? :
    (erased name dims).primitive? = if dims > 0 then none else Primitive.ofKeyword? name := by
  simp [primitive?, erased]

@[simp] theorem erased_arrayOf (n : Nat) : (erased name dims).arrayOf n = erased name (dims + n) :=
  rfl

end Erased

@[simp] theorem erased_beq (name name' : String) (dims dims' : Nat) :
    (erased name dims == erased name' dims') = (name == name' && dims == dims') := by
  show same (erased name dims) (erased name' dims') = _
  simp [same, erased, sameOpt, sameList]

/-- An element is no primitive type. -/
theorem IsElementName.isPrimitive {name : String} (h : IsElementName name) (dims : Nat) :
    (erased name dims).isPrimitive = false := by
  unfold JType.isPrimitive
  simp [h.1]

theorem isPrimitive_keyword (p : Primitive) : (erased p.keyword 0).isPrimitive = true := by
  cases p <;> decide

end JType

/-! ## Names of elements -/

namespace ClassEnv

open JType

variable {env : ClassEnv}

/-- A path of direct supertypes ends at the name of a class. -/
theorem isClassName_of_transGen (hplain : env.PlainSupertypes) {a b : String}
    (h : Relation.TransGen env.Edge a b) : isClassName b = true := by
  obtain ⟨c, _, d, hd, hb⟩ := Relation.TransGen.tail'_iff.mp h
  obtain ⟨s, hs, rfl⟩ := List.mem_map.mp hb
  exact (hplain c d hd s hs).name

/-- The one element is `null` or a class at or below the other one. -/
def NameBelow (env : ClassEnv) (a b : String) : Prop :=
  a = "null" ∨ env.isSubclass a b = true

theorem nameBelow_refl (env : ClassEnv) (a : String) : env.NameBelow a a :=
  .inr ((isSubclass_iff env a a).mpr (.inl rfl))

theorem nameBelow_object (env : ClassEnv) (a : String) : env.NameBelow a objectName :=
  .inr ((isSubclass_iff env a objectName).mpr (.inr (.inl rfl)))

theorem nameBelow_of_transGen {a b : String} (h : Relation.TransGen env.Edge a b) :
    env.NameBelow a b :=
  .inr ((isSubclass_iff env a b).mpr (.inr (.inr h)))

/-- Below and below again is below, unless the way leads through the root class to one of its own
supertypes. -/
theorem NameBelow.trans (hplain : env.PlainSupertypes) {a b c : String} (hab : env.NameBelow a b)
    (hbc : env.NameBelow b c) (hroot : b = objectName → c = objectName) : env.NameBelow a c := by
  rcases hab with hnull | hab
  · exact .inl hnull
  rcases (isSubclass_iff env a b).mp hab with rfl | hb | hab
  · exact hbc
  · rw [hroot hb]
    exact nameBelow_object env a
  have hb : b ≠ "null" := (isElementName_of_isClassName (isClassName_of_transGen hplain hab)).2
  rcases (isSubclass_iff env b c).mp (hbc.resolve_left hb) with rfl | rfl | hbc
  · exact nameBelow_of_transGen hab
  · exact nameBelow_object env a
  · exact nameBelow_of_transGen (hab.trans hbc)

/-! ## Common supertypes -/

theorem superclassesFrom_above (hplain : env.PlainSupertypes) (budget : Nat) (seen : List String)
    (name : String) {s : JType} (h : s ∈ env.superclassesFrom budget seen name) :
    s.IsClass ∧ Relation.TransGen env.Edge name s.name := by
  induction budget generalizing seen name with
  | zero => simp [superclassesFrom] at h
  | succ budget ih =>
    rw [superclassesFrom] at h
    cases hfind : (env.find? name).bind ClassDef.superclass with
    | none => simp [hfind] at h
    | some r =>
      obtain ⟨d, hd, hsuper⟩ := Option.bind_eq_some_iff.mp hfind
      have hr : r ∈ d.directSupertypes := by simp [ClassDef.directSupertypes, hsuper]
      have hedge : env.Edge name r.name := ⟨d, hd, List.mem_map.mpr ⟨r, hr, rfl⟩⟩
      simp only [hfind] at h
      split at h
      · simp at h
      · rcases List.mem_cons.mp h with rfl | h
        · exact ⟨hplain name d hd s hr, .single hedge⟩
        · obtain ⟨hs, hpath⟩ := ih _ _ h
          exact ⟨hs, .head hedge hpath⟩

theorem supertypes_above (hplain : env.PlainSupertypes) {name : String} {s : JType}
    (h : s ∈ env.supertypes name) : s.IsClass ∧ Relation.TransGen env.Edge name s.name := by
  obtain ⟨d, hd, hs⟩ := List.mem_flatMap.mp h
  obtain ⟨n, hpath, hn⟩ := mem_reached_iff.mp hd
  have hdirect : s ∈ d.directSupertypes := (List.mem_filter.mp hs).1
  have hpath : Relation.ReflTransGen env.Edge name n := by
    refine Relation.ReflTransGen.mono ?_ _ _ hpath
    rintro a b ⟨c, hc, hb⟩
    obtain ⟨r, hr, rfl⟩ := List.mem_map.mp hb
    exact ⟨c, hc, List.mem_map.mpr ⟨r, (List.mem_filter.mp hr).1, rfl⟩⟩
  exact ⟨hplain n d hn s hdirect, .tail' hpath ⟨d, hn, List.mem_map.mpr ⟨s, hdirect, rfl⟩⟩⟩

theorem erasure_of_isClass {s : JType} (h : s.IsClass) : s.erasure = erased s.name 0 := by
  simp [JType.erasure, erased, h.dims, h.unresolved]

/-- The common supertype of two names is a class above both. -/
theorem commonSupertype_above (hplain : env.PlainSupertypes) (left right : String) :
    ∃ r, env.commonSupertype left right = erased r 0 ∧ IsElementName r ∧ env.NameBelow left r ∧
      env.NameBelow right r := by
  -- both searches end at a class type that is above the left name and accepted by the right one
  have hfound : ∀ s : JType, s.IsClass → Relation.TransGen env.Edge left s.name →
      env.isSubclass right s.name = true →
      ∃ r, s.erasure = erased r 0 ∧ IsElementName r ∧ env.NameBelow left r ∧
        env.NameBelow right r := by
    intro s hs hpath hsub
    exact ⟨s.name, erasure_of_isClass hs, (isElementName_of_isClassName hs.name).1,
      nameBelow_of_transGen hpath, .inr hsub⟩
  unfold commonSupertype
  split
  · rename_i s hs
    obtain ⟨hclass, hpath⟩ := superclassesFrom_above hplain _ _ _ (List.mem_of_find?_eq_some hs)
    have hsub := List.find?_some hs
    exact hfound s hclass hpath hsub
  · split
    · rename_i s hs
      obtain ⟨hclass, hpath⟩ := supertypes_above hplain (List.mem_of_find?_eq_some hs)
      have hsub := List.find?_some hs
      simp only [Bool.and_eq_true] at hsub
      exact hfound s hclass hpath hsub.2
    · exact ⟨objectName, rfl, isElementName_object, nameBelow_object env left,
        nameBelow_object env right⟩

end ClassEnv

namespace JType

open ClassEnv

variable {env : ClassEnv}

/-! ## One merge -/

theorem ofBoxName?_inj {n m : String} {p : Primitive} (hn : Primitive.ofBoxName? n = some p)
    (hm : Primitive.ofBoxName? m = some p) : n = m := by
  have hn := List.find?_some hn
  have hm := List.find?_some hm
  simp only [beq_iff_eq] at hn hm
  exact hn.symm.trans hm

/-- Elements of different names have no primitive type in common. -/
theorem commonPrimitive?_elements {n m : String} (hn : IsElementName n) (hm : IsElementName m)
    (hne : n ≠ m) : commonPrimitive? (erased n 0) (erased m 0) = none := by
  unfold commonPrimitive?
  split
  · rename_i p q hp hq
    have hnbox : Primitive.ofBoxName? n = some p := by
      simpa [unboxed?, hn.1] using hp
    have hmbox : Primitive.ofBoxName? m = some q := by
      simpa [unboxed?, hm.1] using hq
    have hpq : p ≠ q := by
      rintro rfl
      exact hne (ofBoxName?_inj hnbox hmbox)
    simp [hn.isPrimitive, hm.isPrimitive, hpq]
  · rfl

theorem acceptsPlain_elements {n m : String} (hn : IsElementName n) (hm : IsElementName m) :
    acceptsPlain env (erased n 0) (erased m 0) = (m == "null" || env.isSubclass m n) := by
  unfold acceptsPlain
  simp only [erased_isVoid, erased_isNull, isReference, erased_unresolved, hn.isPrimitive,
    erased_primitive?, hn.1, hm.1, erased_name]
  by_cases hnull : m = "null"
  · simp [hn.2, hnull]
  · simp [hn.2, hm.2, hnull]

theorem accepts_elements {n m : String} (hn : IsElementName n) (hm : IsElementName m) :
    accepts env (erased n 0) (erased m 0) = (m == "null" || env.isSubclass m n) := by
  rw [accepts, acceptsPlain_elements hn hm]
  by_cases hnull : m = "null"
  · simp [hn.2, hnull, isReference, hn.isPrimitive]
  · simp [hn.2, hm.2, hnull]

/-- Two elements merge to an element above both, and the root class stays what it is. -/
theorem merge_elements (hplain : env.PlainSupertypes) {n m : String} (hn : IsElementName n)
    (hm : IsElementName m) :
    ∃ r, merge env (erased n 0) (erased m 0) = erased r 0 ∧ IsElementName r ∧
      env.NameBelow n r ∧ env.NameBelow m r ∧ (n = objectName → r = objectName) := by
  rw [merge]
  by_cases hnm : n = m
  · subst hnm
    exact ⟨n, by simp, hn, nameBelow_refl env n, nameBelow_refl env n, id⟩
  by_cases hnull : n = "null"
  · subst hnull
    exact ⟨m, by simp [hnm], hm, .inl rfl, nameBelow_refl env m, fun h => absurd h (by decide)⟩
  by_cases hmull : m = "null"
  · subst hmull
    exact ⟨n, by simp [hnm], hn, nameBelow_refl env n, .inl rfl, id⟩
  rw [mergeRead]
  simp only [erased_beq, beq_iff_eq, hnm, Bool.and_eq_true, false_and, if_false, erased_isNull,
    hnull, hmull, and_false, erased_isVoid, hn.2, hm.2, erased_readType, erased_dims, and_self,
    if_true, commonPrimitive?_elements hn hm hnm, hn.isPrimitive, hm.isPrimitive, Bool.or_self,
    Bool.false_eq_true, erased_name, accepts_elements hn hm, accepts_elements hm hn,
    Bool.or_eq_true, false_or]
  by_cases hleft : env.isSubclass m n = true
  · exact ⟨n, by simp [hleft], hn, nameBelow_refl env n, .inr hleft, id⟩
  have hroot : n ≠ objectName := by
    rintro rfl
    exact hleft ((isSubclass_iff env m objectName).mpr (.inr (.inl rfl)))
  by_cases hright : env.isSubclass n m = true
  · exact ⟨m, by simp [hleft, hright], hm, .inr hright, nameBelow_refl env m,
      fun h => absurd h hroot⟩
  · obtain ⟨r, hr, helem, hnr, hmr⟩ := commonSupertype_above hplain n m
    exact ⟨r, by simp [hleft, hright, hr], helem, hnr, hmr, fun h => absurd h hroot⟩

/-- The merge of two types is one of them, the root class, or comes from their elements. -/
theorem merge_cases (hplain : env.PlainSupertypes) {n m : String} {d e : Nat}
    (hleft : Mergeable (erased n d)) (hright : Mergeable (erased m e)) :
    (erased n d = erased m e ∧ merge env (erased n d) (erased m e) = erased n d) ∨
    (erased n d = null ∧ merge env (erased n d) (erased m e) = erased m e) ∨
    (erased m e = null ∧ merge env (erased n d) (erased m e) = erased n d) ∨
    merge env (erased n d) (erased m e) = object ∨
    (d = e ∧ IsElementName n ∧ IsElementName m ∧
      ∃ r, merge env (erased n d) (erased m e) = erased r d ∧ IsElementName r ∧
        env.NameBelow n r ∧ env.NameBelow m r ∧ (n = objectName → r = objectName)) := by
  obtain ⟨hnvoid, hn⟩ := mergeable_erased.mp hleft
  obtain ⟨hmvoid, hm⟩ := mergeable_erased.mp hright
  by_cases hsame : n = m ∧ d = e
  · obtain ⟨rfl, rfl⟩ := hsame
    exact .inl ⟨rfl, by rw [merge]; simp⟩
  by_cases hnnull : d = 0 ∧ n = "null"
  · obtain ⟨rfl, rfl⟩ := hnnull
    refine .inr (.inl ⟨rfl, ?_⟩)
    rw [merge]
    simp [hsame]
  by_cases hmnull : e = 0 ∧ m = "null"
  · obtain ⟨rfl, rfl⟩ := hmnull
    refine .inr (.inr (.inl ⟨rfl, ?_⟩))
    rw [merge]
    simp [hsame, hnnull]
  refine .inr (.inr (.inr ?_))
  by_cases hdims : d = e
  · subst hdims
    have hnm : n ≠ m := fun h => hsame ⟨h, rfl⟩
    rcases hn with hn | ⟨⟨p, rfl⟩, hd⟩
    · rcases hm with hm | ⟨⟨q, rfl⟩, hd⟩
      · obtain ⟨r, hr, hrest⟩ := merge_elements hplain hn hm
        refine .inr ⟨rfl, hn, hm, r, ?_, hrest⟩
        rcases Nat.eq_zero_or_pos d with rfl | hd
        · exact hr
        · rw [merge, mergeRead]
          have hzero : d ≠ 0 := by omega
          simp [hnm, hzero, hn.isPrimitive, hm.isPrimitive, hr]
      · left
        rw [merge, mergeRead]
        have hzero : d ≠ 0 := by omega
        simp [hnm, hzero, isPrimitive_keyword]
    · left
      rw [merge, mergeRead]
      have hzero : d ≠ 0 := by omega
      simp [hnm, hzero, isPrimitive_keyword]
  · left
    rw [merge, mergeRead]
    have hzero : ¬ (d = 0 ∧ e = 0) := by omega
    simp [hdims, hzero, hnnull, hmnull, hnvoid, hmvoid]

/-- What the merge keeps of a type that was merged into it. -/
def Above (env : ClassEnv) (t s : JType) : Prop :=
  t = object ∨ s = null ∨ (t.dims = s.dims ∧ (t.name = s.name ∨
    (IsElementName t.name ∧ IsElementName s.name ∧ env.NameBelow s.name t.name)))

theorem above_refl (env : ClassEnv) (t : JType) : Above env t t :=
  .inr (.inr ⟨rfl, .inl rfl⟩)

/-- Only `null` is below `null`. -/
theorem eq_null_of_above (hplain : env.PlainSupertypes) {s : JType} (hs : Mergeable s)
    (h : Above env null s) : s = null := by
  obtain ⟨n, d, rfl, -, -⟩ := mergeable_iff.mp hs
  rcases h with h | h | ⟨hdims, hname⟩
  · exact absurd (congrArg JType.name h) (by decide)
  · exact h
  have hd : d = 0 := hdims.symm
  suffices hn : n = "null" by rw [hd, hn]; rfl
  rcases hname with hname | ⟨-, -, hbelow⟩
  · exact hname.symm
  rcases hbelow with hnull | hsub
  · exact hnull
  rcases (isSubclass_iff env _ _).mp hsub with hnull | hroot | hpath
  · exact hnull.symm
  · exact absurd hroot (by decide)
  · exact absurd rfl (isElementName_of_isClassName (isClassName_of_transGen hplain hpath)).2

/-- The merge of two types is above the second one, and above all that the first one is above. -/
theorem merge_above (hplain : env.PlainSupertypes) {t s : JType} (ht : Mergeable t)
    (hs : Mergeable s) :
    Mergeable (merge env t s) ∧ Above env (merge env t s) s ∧
      ∀ x, Mergeable x → Above env t x → Above env (merge env t s) x := by
  obtain ⟨n, d, rfl, -, -⟩ := mergeable_iff.mp ht
  obtain ⟨m, e, rfl, -, -⟩ := mergeable_iff.mp hs
  rcases merge_cases hplain ht hs with ⟨heq, hmerge⟩ | ⟨hnull, hmerge⟩ | ⟨hnull, hmerge⟩ |
    hmerge | ⟨rfl, hn, hm, r, hmerge, hr, hnr, hmr, hroot⟩
  · rw [hmerge]
    refine ⟨ht, ?_, fun x _ h => h⟩
    rw [heq]
    exact above_refl env _
  · rw [hmerge]
    refine ⟨hs, above_refl env _, ?_⟩
    intro x hx h
    rw [hnull] at h
    exact .inr (.inl (eq_null_of_above hplain hx h))
  · rw [hmerge]
    exact ⟨ht, .inr (.inl hnull), fun x _ h => h⟩
  · rw [hmerge]
    exact ⟨mergeable_object, .inl rfl, fun x _ _ => .inl rfl⟩
  · rw [hmerge]
    refine ⟨mergeable_erased.mpr ⟨hr.2, .inl hr⟩, .inr (.inr ⟨rfl, .inr ⟨hr, hm, hmr⟩⟩), ?_⟩
    intro x hx h
    rcases h with h | h | ⟨hdims, hname⟩
    · have hobject : n = objectName ∧ d = 0 := by
        simp only [erased, object, ofClass, JType.mk.injEq] at h
        exact ⟨h.1, h.2.2.1⟩
      rw [hroot hobject.1, hobject.2]
      exact .inl rfl
    · exact .inr (.inl h)
    rcases hname with hname | ⟨-, hx, hbelow⟩
    · simp only [erased_name] at hname
      exact .inr (.inr ⟨hdims, .inr ⟨hr, hname ▸ hn, hname ▸ hnr⟩⟩)
    · exact .inr (.inr ⟨hdims, .inr ⟨hr, hx, hbelow.trans hplain hnr hroot⟩⟩)

theorem isReference_of_mergeable {t : JType} (h : Mergeable t) : t.isReference = true := by
  obtain ⟨n, d, rfl, hvoid, hn | ⟨-, hd⟩⟩ := mergeable_iff.mp h
  · simp [isReference, hn.isPrimitive, hvoid]
  · have hpos : 0 < d := hd
    have hprim : (erased n d).isPrimitive = false := by
      unfold isPrimitive
      simp [hpos]
    simp [isReference, hprim, hvoid]

theorem accepts_null {t : JType} (h : Mergeable t) : accepts env t null = true := by
  obtain ⟨n, d, rfl, hvoid, -⟩ := mergeable_iff.mp h
  have href := isReference_of_mergeable h
  rw [accepts]
  simp [null_eq_erased, hvoid, href]

theorem accepts_object {s : JType} (h : Mergeable s) : accepts env object s = true := by
  obtain ⟨m, e, rfl, hvoid, hm⟩ := mergeable_iff.mp h
  rcases Nat.eq_zero_or_pos e with rfl | he
  · have hm : IsElementName m := hm.resolve_right (by omega)
    rw [object_eq_erased, accepts_elements isElementName_object hm]
    have hsub : env.isSubclass m objectName = true :=
      (isSubclass_iff env m objectName).mpr (.inr (.inl rfl))
    simp [hsub]
  · rw [accepts, acceptsArray]
    have hzero : e ≠ 0 := by omega
    have hobject : objectName ≠ "void" := by decide
    simp [object_eq_erased, hzero, hobject, he, isArraySupertype]

/-- Between types of the same dimensions the elements decide. -/
theorem accepts_dims {n m : String} {d : Nat} (hn : Mergeable (erased n d))
    (hm : Mergeable (erased m d))
    (h : n = m ∨ (IsElementName n ∧ IsElementName m ∧ env.NameBelow m n)) :
    accepts env (erased n d) (erased m d) = true := by
  obtain ⟨hnvoid, hnelem⟩ := mergeable_erased.mp hn
  obtain ⟨hmvoid, hmelem⟩ := mergeable_erased.mp hm
  have hbelow : (m == "null" || env.isSubclass m n) = true := by
    have hmn : env.NameBelow m n := by
      rcases h with rfl | ⟨-, -, h⟩
      · exact nameBelow_refl env n
      · exact h
    rcases hmn with hmn | hmn <;> simp [hmn]
  rcases Nat.eq_zero_or_pos d with rfl | hd
  · have hnelem : IsElementName n := hnelem.resolve_right (by omega)
    have hmelem : IsElementName m := hmelem.resolve_right (by omega)
    rw [accepts_elements hnelem hmelem]
    exact hbelow
  rw [accepts, acceptsArray]
  have hzero : d ≠ 0 := by omega
  rcases hnelem with hnelem | ⟨⟨p, rfl⟩, -⟩
  · have hmelem : IsElementName m := by
      rcases h with rfl | ⟨-, h, -⟩
      · exact hnelem
      · exact h
    simpa [hzero, hd, hnelem.isPrimitive, hmelem.isPrimitive,
      acceptsPlain_elements hnelem hmelem] using hbelow
  · -- a primitive element is no element name, so that the names are equal
    have hpm : p.keyword = m := by
      rcases h with h | ⟨h, -, -⟩
      · exact h
      · have hprim := isPrimitive_keyword p
        rw [h.isPrimitive 0] at hprim
        exact absurd hprim (by decide)
    subst hpm
    simp [hzero, hd, isPrimitive_keyword]

/-- A type accepts what it is above. -/
theorem accepts_of_above {t s : JType} (ht : Mergeable t) (hs : Mergeable s)
    (h : Above env t s) : accepts env t s = true := by
  obtain ⟨n, d, rfl, -, -⟩ := mergeable_iff.mp ht
  obtain ⟨m, e, rfl, -, -⟩ := mergeable_iff.mp hs
  rcases h with h | h | ⟨hdims, hname⟩
  · rw [h]
    exact accepts_object hs
  · rw [h]
    exact accepts_null ht
  · simp only [erased_dims] at hdims
    subst hdims
    exact accepts_dims ht hs hname

/-! ## The fold -/

/-- The merge of a list of types is there and accepts each of them. -/
theorem mergeAll_accepts (env : ClassEnv) (hplain : env.PlainSupertypes) (ts : List JType)
    (hne : ts ≠ []) (h : ∀ t ∈ ts, Mergeable t) :
    ∃ m, CallSite.mergeAll? env ts = some m ∧ ∀ t ∈ ts, accepts env m t = true := by
  -- along the fold, the type so far stays above the types that it is made of
  have hfold : ∀ (rest : List JType) (acc : JType), (∀ t ∈ rest, Mergeable t) → Mergeable acc →
      Mergeable (rest.foldl (merge env) acc) ∧
        (∀ t ∈ rest, Above env (rest.foldl (merge env) acc) t) ∧
        ∀ x, Mergeable x → Above env acc x → Above env (rest.foldl (merge env) acc) x := by
    intro rest
    induction rest with
    | nil => exact fun acc _ hacc => ⟨hacc, by simp, fun x _ hx => hx⟩
    | cons s rest ih =>
      intro acc hrest hacc
      have hs := hrest s List.mem_cons_self
      obtain ⟨hmerge, habove, hkeep⟩ := merge_above hplain hacc hs
      obtain ⟨hresult, hall, hkeeps⟩ := ih (merge env acc s)
        (fun t ht => hrest t (List.mem_cons_of_mem _ ht)) hmerge
      refine ⟨hresult, ?_, fun x hx hax => hkeeps x hx (hkeep x hx hax)⟩
      intro t ht
      rcases List.mem_cons.mp ht with rfl | ht
      · exact hkeeps t hs habove
      · exact hall t ht
  obtain ⟨t, ts, rfl⟩ := List.exists_cons_of_ne_nil hne
  have ht := h t List.mem_cons_self
  obtain ⟨hresult, hall, hkeeps⟩ := hfold ts t (fun s hs => h s (List.mem_cons_of_mem _ hs)) ht
  refine ⟨_, rfl, ?_⟩
  intro s hs
  apply accepts_of_above hresult (h s hs)
  rcases List.mem_cons.mp hs with rfl | hs
  · exact hkeeps s ht (above_refl env s)
  · exact hall s hs

/-- Two classes with a superclass in common, of which the root of the hierarchy is missing. -/
def siblings : ClassTable :=
  ⟨[{ ClassDef.empty "Base" .ordinary with superclass := some (.ofClass "Missing") },
      { ClassDef.empty "Left" .ordinary with superclass := some (.ofClass "Base") },
      { ClassDef.empty "Right" .ordinary with superclass := some (.ofClass "Base") }]⟩

/-- `null` and the arrays of two siblings merge to an array of their superclass, and a primitive array
takes all of them to the root class. -/
theorem siblings_mergeAll_accepts :
    siblings.toEnv.PlainSupertypes ∧
      ∃ m, CallSite.mergeAll? siblings.toEnv
          [.null, (ofClass "Left").arrayOf 1, (ofClass "Right").arrayOf 1,
            (primitive .int).arrayOf 1] = some m ∧
        ∀ t ∈ [.null, (ofClass "Left").arrayOf 1, (ofClass "Right").arrayOf 1,
          (primitive .int).arrayOf 1], accepts siblings.toEnv m t = true := by
  have hplain : siblings.toEnv.PlainSupertypes :=
    ClassTable.plainSupertypes_of_classes (by decide)
  refine ⟨hplain, mergeAll_accepts siblings.toEnv hplain _ (by simp) ?_⟩
  intro t ht
  simp only [List.mem_cons, List.not_mem_nil, or_false] at ht
  rcases ht with rfl | rfl | rfl | rfl
  · exact .null 0
  · exact .ofClass "Left" 1 (by decide)
  · exact .ofClass "Right" 1 (by decide)
  · exact .primitive .int 1 (by decide)

end JType

end JavaSema
