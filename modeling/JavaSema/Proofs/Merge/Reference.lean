import JavaSema.JType.Merge
import JavaSema.Proofs.Hierarchy.Walk

/-!
# Merging reference types

Two types that are read as the same wrapper class merge to the primitive type behind it, unless they
are the same type.  This is the only way in which a merge of reference types is no reference type, and
the only way in which a primitive type gets into its type arguments.

There are four groups.

* References throughout.  `onlyReferences` says of a type that it, its type arguments and its bounds are
  reference types.
* Clashes.  `Unboxes` is a pair of types that are read as the same wrapper class, and `UnboxesWithin` a
  pair that has such a pair at the same place of its type arguments.
* The choices of one merge.  `mergeRead_of_unboxed`, `mergeRead_of_args` and `mergeRead_cases` are the
  merge of two types that are no arrays.
* The result.  `MergeSpec` says where a merge is a reference type, and `mergeSpec` carries it through
  the type arguments and the elements of arrays.  `merge_induction` is the recursion of all merges.
-/

namespace JavaSema

namespace JType

/-! ## References throughout -/

mutual

/-- Whether the erasure of the type is a reference type, and so are, recursively, its type arguments and
its bounds. -/
def onlyReferences : JType → Bool
  | { name, args, dims, upper, lower, unresolved, .. } =>
    ({ name, dims, unresolved } : JType).isReference && onlyReferencesOpt args
      && onlyReferencesList upper && onlyReferencesList lower

/-- Whether each of the types is a reference type throughout. -/
def onlyReferencesList : List JType → Bool
  | [] => true
  | t :: ts => t.onlyReferences && onlyReferencesList ts

/-- Whether each of the type arguments is a reference type throughout. -/
def onlyReferencesOpt : Option (List JType) → Bool
  | none => true
  | some ts => onlyReferencesList ts

end

/-- The type arguments and the bounds of a type are reference types throughout. -/
structure HasReferences (t : JType) : Prop where
  /-- The type arguments are. -/
  args : ∀ as, t.args = some as → ∀ a ∈ as, a.onlyReferences = true
  /-- The upper bounds are. -/
  upper : ∀ b ∈ t.upper, b.onlyReferences = true
  /-- The lower bounds are. -/
  lower : ∀ b ∈ t.lower, b.onlyReferences = true

theorem onlyReferencesList_iff {ts : List JType} :
    onlyReferencesList ts = true ↔ ∀ t ∈ ts, t.onlyReferences = true := by
  induction ts with
  | nil => simp [onlyReferencesList]
  | cons t ts ih => simp [onlyReferencesList, ih]

theorem onlyReferences_iff {t : JType} :
    t.onlyReferences = true ↔ t.erasure.isReference = true ∧ t.HasReferences := by
  obtain ⟨name, args, dims, upper, lower, var, wildcard, unresolved, binding, member⟩ := t
  have hargs : onlyReferencesOpt args = true ↔ ∀ as, args = some as → ∀ a ∈ as,
      a.onlyReferences = true := by
    cases args <;> simp [onlyReferencesOpt, onlyReferencesList_iff]
  simp only [onlyReferences, erasure, Bool.and_eq_true, onlyReferencesList_iff, hargs, and_assoc]
  exact and_congr_right fun _ => ⟨fun ⟨h1, h2, h3⟩ => ⟨h1, h2, h3⟩, fun h => ⟨h.args, h.upper, h.lower⟩⟩

/-- An erasure is a reference type unless it is a primitive type or `void`. -/
theorem isReference_erasure_iff {t : JType} : t.erasure.isReference = true ↔
    t.unresolved = false ∧ (t.dims = 0 → Primitive.ofKeyword? t.name = none ∧ t.name ≠ "void") := by
  rcases Nat.eq_zero_or_pos t.dims with hdims | hdims
  · simp [isReference, isPrimitive, primitive?, isVoid, erasure, hdims, and_comm]
  · simp [isReference, isPrimitive, primitive?, isVoid, erasure, hdims, Nat.ne_of_gt hdims]

theorem isReference_of_erasure {t : JType} (h : t.erasure.isReference = true) :
    t.isReference = true := by
  obtain ⟨hresolved, hname⟩ := isReference_erasure_iff.mp h
  have hprim : t.isPrimitive = false := by
    unfold isPrimitive primitive?
    split
    · rfl
    · rename_i hplain
      simp only [Bool.or_eq_true, not_or, decide_eq_true_eq] at hplain
      simp [(hname (by omega)).1]
  have hvoid : t.isVoid = false := by
    by_contra hvoid
    simp only [isVoid, Bool.not_eq_false, Bool.and_eq_true, beq_iff_eq] at hvoid
    exact (hname hvoid.1.1).2 hvoid.1.2
  simp [isReference, hprim, hvoid, hresolved]

variable {s t : JType}

theorem onlyReferences_object : object.onlyReferences = true := by decide

/-- What is read is a reference type throughout, or it is the type itself. -/
theorem onlyReferences_readType (h : t.HasReferences) :
    t.readType = t ∨ t.readType.onlyReferences = true := by
  unfold readType
  split
  · cases hupper : t.upper with
    | nil => exact .inr onlyReferences_object
    | cons b bs => exact .inr (h.upper b (by simp [hupper]))
  · exact .inl rfl

theorem HasReferences.element (h : t.HasReferences) : t.element.HasReferences :=
  ⟨h.args, h.upper, h.lower⟩

/-- The types are different and neither is `null` or `void`, so that a merge looks at what they are read
as. -/
structure Differ (s t : JType) : Prop where
  /-- They are different. -/
  ne : (s == t) = false
  /-- Neither is `null`. -/
  null : s.isNull = false ∧ t.isNull = false
  /-- Neither is `void`. -/
  void : s.isVoid = false ∧ t.isVoid = false

/-- The types are different and read as the same wrapper class. -/
def Unboxes (s t : JType) : Prop :=
  Differ s t ∧ ∃ p, s.readType.unboxed? = some p ∧ t.readType.unboxed? = some p

/-- The types are of the same class, with as many arguments. -/
structure SameShape (l r : JType) (as bs : List JType) : Prop where
  /-- Neither is an array. -/
  dims : l.dims = 0 ∧ r.dims = 0
  /-- They are of the same class. -/
  name : l.name = r.name
  /-- The arguments of the first one. -/
  left : l.args = some as
  /-- The arguments of the second one. -/
  right : r.args = some bs
  /-- There are as many of them. -/
  length : as.length = bs.length

/-- The types stand at the same place of the arguments of two types that are merged argument by
argument. -/
structure ArgPair (s t a b : JType) : Prop where
  /-- The two types are different. -/
  differ : Differ s t
  /-- They are not unboxed themselves. -/
  kept : ¬ Unboxes s t
  /-- The place and the arguments. -/
  place : ∃ as bs, SameShape s.readType t.readType as bs ∧
    ∃ i : Nat, as[i]? = some a ∧ bs[i]? = some b

/-- The types are arrays that are merged element by element. -/
structure ElementPair (s t : JType) : Prop where
  /-- The two types are different. -/
  differ : Differ s t
  /-- They are arrays. -/
  isArray : s.readType.dims ≠ 0
  /-- They have as many dimensions. -/
  dims : s.readType.dims = t.readType.dims
  /-- Neither is an array of a primitive type. -/
  element : s.readType.element.isPrimitive = false ∧ t.readType.element.isPrimitive = false

/-- At the same place of their type arguments the types have a pair that is read as the same wrapper
class. -/
inductive UnboxesWithin : JType → JType → Prop where
  /-- The pair is a pair of arguments. -/
  | here {s t a b : JType} : ArgPair s t a b → Unboxes a b → UnboxesWithin s t
  /-- The pair is within a pair of arguments. -/
  | arg {s t a b : JType} : ArgPair s t a b → UnboxesWithin a b → UnboxesWithin s t
  /-- The pair is within the elements of two arrays. -/
  | element {s t : JType} : ElementPair s t →
      UnboxesWithin s.readType.element t.readType.element → UnboxesWithin s t

theorem UnboxesWithin.differ (h : UnboxesWithin s t) : Differ s t := by
  cases h with
  | here hpair => exact hpair.differ
  | arg hpair => exact hpair.differ
  | element hpair => exact hpair.differ

/-- Types that do not differ merge to one of them. -/
theorem merge_of_not_differ (env : ClassEnv) (h : ¬ Differ s t) :
    merge env s t = s ∨ merge env s t = t := by
  rw [merge]
  split
  · exact .inl rfl
  · split
    · exact .inr rfl
    · split
      · exact .inl rfl
      · split
        · exact .inr rfl
        · split
          · exact .inl rfl
          · simp only [Bool.not_eq_true] at *
            exact absurd ⟨‹_›, ⟨‹_›, ‹_›⟩, ‹_›, ‹_›⟩ h

theorem Differ.merge_eq (env : ClassEnv) (h : Differ s t) :
    merge env s t = mergeRead env s.readType t.readType := by
  rw [merge]
  simp [h.ne, h.null, h.void]

/-! ## The choices of one merge -/

variable {env : ClassEnv} {l r : JType}

theorem unboxed?_of_dims (h : t.dims ≠ 0) : t.unboxed? = none := by
  have hpos : 0 < t.dims := Nat.pos_of_ne_zero h
  simp [unboxed?, primitive?, hpos]

/-- Types that are not primitive have the primitive type in common behind which both are wrappers. -/
theorem commonPrimitive?_eq_some {p : Primitive} (hl : l.isPrimitive = false)
    (hr : r.isPrimitive = false) :
    commonPrimitive? l r = some p ↔ l.unboxed? = some p ∧ r.unboxed? = some p := by
  unfold commonPrimitive?
  cases hlbox : l.unboxed? with
  | none => simp
  | some q =>
    cases hrbox : r.unboxed? with
    | none => simp
    | some q' =>
      have hwider : q.wider q = q := by cases q <;> rfl
      by_cases hq : q = q'
      · subst hq
        simp [hl, hr, hwider]
      · have hne : ¬ (q = p ∧ q' = p) := fun h => hq (h.1.trans h.2.symm)
        simp [hl, hr, hq, hne]

/-- Two that are read as the same wrapper class are unboxed. -/
theorem mergeRead_of_unboxed {p : Primitive} (hl : l.isPrimitive = false) (hr : r.isPrimitive = false)
    (hlbox : l.unboxed? = some p) (hrbox : r.unboxed? = some p) :
    mergeRead env l r = .primitive p := by
  have hldims : l.dims = 0 := by
    by_contra hdims
    rw [unboxed?_of_dims hdims] at hlbox
    cases hlbox
  have hrdims : r.dims = 0 := by
    by_contra hdims
    rw [unboxed?_of_dims hdims] at hrbox
    cases hrbox
  have hcommon : commonPrimitive? l r = some p := (commonPrimitive?_eq_some hl hr).mpr ⟨hlbox, hrbox⟩
  rw [mergeRead, if_pos ⟨hldims, hrdims⟩, hcommon]

theorem commonPrimitive?_eq_none (hl : l.isPrimitive = false) (hr : r.isPrimitive = false)
    (hbox : ¬ ∃ p, l.unboxed? = some p ∧ r.unboxed? = some p) : commonPrimitive? l r = none := by
  by_contra hcommon
  obtain ⟨p, hp⟩ := Option.ne_none_iff_exists'.mp hcommon
  exact hbox ⟨p, (commonPrimitive?_eq_some hl hr).mp hp⟩

theorem mergeList_eq_zipWith (env : ClassEnv) (as bs : List JType) :
    mergeList env as bs = List.zipWith (merge env) as bs := by
  induction as generalizing bs with
  | nil =>
    rw [mergeList]
    · rfl
    · intro _ _ _ _ h
      cases h
  | cons a as ih =>
    cases bs with
    | nil =>
      rw [mergeList]
      · rfl
      · intro _ _ _ _ _ h
        cases h
    | cons b bs => rw [mergeList, ih, List.zipWith_cons_cons]

/-- Two of the same class are merged argument by argument. -/
theorem mergeRead_of_args {as bs : List JType} (hl : l.isPrimitive = false)
    (hr : r.isPrimitive = false) (hbox : ¬ ∃ p, l.unboxed? = some p ∧ r.unboxed? = some p)
    (h : SameShape l r as bs) :
    mergeRead env l r = .generic l.name (List.zipWith (merge env) as bs) := by
  rw [← mergeList_eq_zipWith, mergeRead, if_pos h.dims, commonPrimitive?_eq_none hl hr hbox]
  simp only [hl, hr, Bool.or_self, Bool.false_eq_true, if_false, h.name, beq_self_eq_true, if_true]
  split
  · rename_i as' bs' hleft hright
    obtain rfl := Option.some.inj (hleft.symm.trans h.left)
    obtain rfl := Option.some.inj (hright.symm.trans h.right)
    rw [if_pos h.length]
  · rename_i hno
    exact absurd h.right (hno as bs h.left)

/-- Two others that are no arrays merge to one of them, to an erasure or to a common supertype. -/
theorem mergeRead_cases (env : ClassEnv) (hdims : l.dims = 0 ∧ r.dims = 0) (hl : l.isPrimitive = false)
    (hr : r.isPrimitive = false) (hbox : ¬ ∃ p, l.unboxed? = some p ∧ r.unboxed? = some p)
    (hshape : ¬ ∃ as bs, SameShape l r as bs) :
    mergeRead env l r = l.erasure ∨ mergeRead env l r = l ∨ mergeRead env l r = r ∨
      mergeRead env l r = env.commonSupertype l.name r.name := by
  rw [mergeRead, if_pos hdims, commonPrimitive?_eq_none hl hr hbox]
  simp only [hl, hr, Bool.or_self, Bool.false_eq_true, if_false]
  split
  · rename_i hname
    left
    split
    · rename_i as bs hleft hright
      rw [if_neg fun hlength => hshape ⟨as, bs, hdims, by simpa using hname, hleft, hright, hlength⟩]
    · rfl
  · split
    · exact .inr (.inl rfl)
    · split
      · exact .inr (.inr (.inl rfl))
      · exact .inr (.inr (.inr rfl))

/-- Arrays of as many dimensions are merged by their elements. -/
theorem mergeRead_of_dims_eq (hdims : l.dims ≠ 0) (heq : l.dims = r.dims) :
    mergeRead env l r =
      if l.element.isPrimitive || r.element.isPrimitive then
        if l.element == r.element then l else .object
      else (merge env l.element r.element).arrayOf l.dims := by
  rw [mergeRead, if_neg fun h => hdims h.1, if_pos heq]

theorem mergeRead_of_dims_ne (h : l.dims ≠ r.dims) : mergeRead env l r = .object := by
  rw [mergeRead, if_neg fun hzero => h (hzero.1.trans hzero.2.symm), if_neg h]

end JType

/-! ## The result -/

namespace ClassEnv

variable {env : ClassEnv}

/-- The erasures of all direct supertypes are reference types. -/
def ReferenceSupertypes (env : ClassEnv) : Prop :=
  ∀ name d, env.find? name = some d → ∀ s ∈ d.directSupertypes, s.erasure.isReference = true

theorem exists_of_mem_superclassesFrom {budget : Nat} {seen : List String} {name : String} {s : JType}
    (h : s ∈ env.superclassesFrom budget seen name) :
    ∃ n d, env.find? n = some d ∧ s ∈ d.directSupertypes := by
  induction budget generalizing seen name with
  | zero => simp [superclassesFrom] at h
  | succ budget ih =>
    rw [superclassesFrom] at h
    split at h
    · cases h
    · rename_i r hr
      obtain ⟨d, hd, hsuper⟩ := Option.bind_eq_some_iff.mp hr
      split at h
      · cases h
      · rcases List.mem_cons.mp h with rfl | h
        · exact ⟨name, d, hd, by simp [ClassDef.directSupertypes, hsuper]⟩
        · exact ih h

theorem exists_of_mem_supertypes {name : String} {s : JType} (h : s ∈ env.supertypes name) :
    ∃ n d, env.find? n = some d ∧ s ∈ d.directSupertypes := by
  obtain ⟨d, hd, hs⟩ := List.mem_flatMap.mp h
  obtain ⟨n, -, hn⟩ := mem_reached_iff.mp hd
  exact ⟨n, d, hn, (List.mem_filter.mp hs).1⟩

/-- A common supertype is an erasure that is a reference type. -/
theorem exists_commonSupertype_eq (hsup : env.ReferenceSupertypes) (left right : String) :
    ∃ s : JType, env.commonSupertype left right = s.erasure ∧ s.erasure.isReference = true := by
  unfold commonSupertype
  split
  · rename_i s hs
    obtain ⟨n, d, hd, hmem⟩ := exists_of_mem_superclassesFrom (List.mem_of_find?_eq_some hs)
    exact ⟨s, rfl, hsup n d hd s hmem⟩
  · split
    · rename_i s hs
      obtain ⟨n, d, hd, hmem⟩ := exists_of_mem_supertypes (List.mem_of_find?_eq_some hs)
      exact ⟨s, rfl, hsup n d hd s hmem⟩
    · exact ⟨.object, rfl, by decide⟩

end ClassEnv

namespace JType

variable {env : ClassEnv} {s t : JType}

/-- A resolved type that is not primitive and has references in it. -/
structure Operand (t : JType) : Prop where
  /-- It is resolved. -/
  resolved : t.unresolved = false
  /-- It is not primitive. -/
  primitive : t.isPrimitive = false
  /-- Its type arguments and bounds are reference types throughout. -/
  parts : t.HasReferences

theorem operand_of_onlyReferences (h : t.onlyReferences = true) : t.Operand := by
  obtain ⟨href, hparts⟩ := onlyReferences_iff.mp h
  have href' := isReference_of_erasure href
  simp only [isReference, Bool.and_eq_true, Bool.not_eq_true'] at href'
  exact ⟨href'.2, href'.1.1, hparts⟩

theorem Operand.readType (h : t.Operand) : t.readType.Operand := by
  rcases onlyReferences_readType h.parts with hread | hread
  · rwa [hread]
  · exact operand_of_onlyReferences hread

theorem Operand.element (h : t.Operand) (hprim : t.element.isPrimitive = false) : t.element.Operand :=
  ⟨h.resolved, hprim, h.parts.element⟩

/-- Where a merge is a reference type, and where it has references in it. -/
structure MergeSpec (env : ClassEnv) (s t : JType) : Prop where
  /-- The merge is resolved. -/
  resolved : (merge env s t).unresolved = false
  /-- Reference types are merged to one unless they are unboxed. -/
  reference : s.erasure.isReference = true → t.erasure.isReference = true →
    ((merge env s t).erasure.isReference = true ↔ ¬ Unboxes s t)
  /-- Nothing but references comes in unless a pair inside is unboxed. -/
  parts : (merge env s t).HasReferences ↔ ¬ UnboxesWithin s t

theorem MergeSpec.onlyReferences_iff (h : MergeSpec env s t) (hs : s.onlyReferences = true)
    (ht : t.onlyReferences = true) :
    (merge env s t).onlyReferences = true ↔ ¬ (Unboxes s t ∨ UnboxesWithin s t) := by
  rw [JType.onlyReferences_iff, h.parts,
    h.reference (JType.onlyReferences_iff.mp hs).1 (JType.onlyReferences_iff.mp ht).1, not_or]

/-- A merge to a type that is taken from the operands or the hierarchy, where nothing is unboxed. -/
theorem MergeSpec.of_eq {r : JType} (h : merge env s t = r) (hresolved : r.unresolved = false)
    (href : s.erasure.isReference = true → t.erasure.isReference = true → r.erasure.isReference = true)
    (hparts : r.HasReferences) (hbox : ¬ Unboxes s t) (hwithin : ¬ UnboxesWithin s t) :
    MergeSpec env s t := by
  subst h
  exact ⟨hresolved, fun hs ht => iff_of_true (href hs ht) hbox, iff_of_true hparts hwithin⟩

theorem Unboxes.dims (h : Unboxes s t) : s.readType.dims = 0 ∧ t.readType.dims = 0 := by
  obtain ⟨-, p, hs, ht⟩ := h
  constructor <;>
  · by_contra hdims
    simp_all [unboxed?_of_dims hdims]

theorem ArgPair.onlyReferences {a b : JType} (h : ArgPair s t a b) (hs : s.Operand)
    (ht : t.Operand) : a.onlyReferences = true ∧ b.onlyReferences = true := by
  obtain ⟨as, bs, hshape, i, ha, hb⟩ := h.place
  exact ⟨hs.readType.parts.args as hshape.left a (List.mem_of_getElem? ha),
    ht.readType.parts.args bs hshape.right b (List.mem_of_getElem? hb)⟩

/-- What decreases from a pair of types to the pairs that their merge goes on with. -/
def weight (s t : JType) : Nat := 7 * (s.nodes + t.nodes) + 2 * (s.layer + t.layer)

theorem weight_readType_le (s t : JType) : weight s.readType t.readType ≤ weight s t := by
  have hs := readType_decreases s
  have ht := readType_decreases t
  have hs' := layer_le_one s.readType
  have ht' := layer_le_one t.readType
  unfold weight
  omega

theorem weight_boxed_lt (h : (l.isPrimitive || r.isPrimitive) = true) :
    weight l.boxed r.boxed < weight l r := by
  have hl := nodes_boxed_le l
  have hr := nodes_boxed_le r
  have hl' := layer_boxed_le l
  have hr' := layer_boxed_le r
  unfold weight
  rcases Bool.or_eq_true_iff.mp h with h | h
  · have := layer_boxed_lt h
    omega
  · have := layer_boxed_lt h
    omega

theorem weight_args_lt {as bs : List JType} {a b : JType} (hl : l.args = some as)
    (hr : r.args = some bs) (ha : a ∈ as) (hb : b ∈ bs) : weight a b < weight l r := by
  have hln := nodes_lt_of_mem_args hl ha
  have hrn := nodes_lt_of_mem_args hr hb
  have hla := layer_le_one a
  have hrb := layer_le_one b
  unfold weight
  omega

theorem weight_element_lt (hdims : l.dims ≠ 0) (heq : l.dims = r.dims)
    (hl : l.element.isPrimitive = false) (hr : r.element.isPrimitive = false) :
    weight l.element r.element < weight l r := by
  have hl' := layer_element_lt hdims hl
  have hr' := layer_element_lt (heq ▸ hdims) hr
  unfold weight
  rw [nodes_element, nodes_element]
  omega

/-- A statement about pairs of types holds if, for each pair, it follows from the pairs that the merge
of the two goes on with. -/
theorem merge_induction {motive : JType → JType → Prop}
    (step : ∀ s t,
      ((s.readType.isPrimitive || t.readType.isPrimitive) = true →
        motive s.readType.boxed t.readType.boxed) →
      (∀ as bs, s.readType.args = some as → t.readType.args = some bs →
        ∀ a ∈ as, ∀ b ∈ bs, motive a b) →
      (s.readType.dims ≠ 0 → s.readType.dims = t.readType.dims →
        s.readType.element.isPrimitive = false → t.readType.element.isPrimitive = false →
        motive s.readType.element t.readType.element) →
      motive s t)
    (s t : JType) : motive s t := by
  induction hsize : weight s t using Nat.strongRecOn generalizing s t with
  | ind size ih =>
    subst hsize
    have hread := weight_readType_le s t
    refine step s t (fun hprim => ?_) (fun as bs has hbs a ha b hb => ?_)
      (fun hdims heq hs ht => ?_)
    · exact ih _ (Nat.lt_of_lt_of_le (weight_boxed_lt hprim) hread) _ _ rfl
    · exact ih _ (Nat.lt_of_lt_of_le (weight_args_lt has hbs ha hb) hread) _ _ rfl
    · exact ih _ (Nat.lt_of_lt_of_le (weight_element_lt hdims heq hs ht) hread) _ _ rfl

end JType

end JavaSema
