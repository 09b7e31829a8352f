import JavaSema.Proofs.Hierarchy.Capture
import JavaSema.Proofs.Merge.Reference

/-!
# Bounds and erased names

A type variable and a wildcard are known by their bounds and, beside that, by the name of their
erasure.  Assignments look at the bounds, and members are looked up by the name.  The two go together
in every type that comes from the constructors by any operations on types, whatever stands inside it.

There are four groups.

* Parts.  `parts` are the types that a type is built from, and `OccursIn` says what stands somewhere
  inside it.
* Well-built types.  `BoundsAgree` is the invariant of a single type, and `WellBuilt` says that it holds
  throughout.  `wellBuilt_iff` takes it apart and puts it together.
* Operations.  Each keeps it: those that change nothing but marks and dimensions by
  `WellBuilt.remarked`, substitutions and merges by their recursion.
* Obtained types.
-/

namespace JavaSema

namespace JType

/-! ## Parts -/

/-- The types that a type is built from: its type arguments and its bounds. -/
def parts (t : JType) : List JType := t.args.getD [] ++ t.upper ++ t.lower

theorem mem_parts {p t : JType} :
    p ∈ t.parts ↔ (∃ as, t.args = some as ∧ p ∈ as) ∨ p ∈ t.upper ∨ p ∈ t.lower := by
  cases hargs : t.args <;> simp [parts, hargs]

theorem mem_parts_of_args {p t : JType} {as : List JType} (hargs : t.args = some as) (h : p ∈ as) :
    p ∈ t.parts :=
  mem_parts.mpr (.inl ⟨as, hargs, h⟩)

theorem mem_parts_of_upper {p t : JType} (h : p ∈ t.upper) : p ∈ t.parts :=
  mem_parts.mpr (.inr (.inl h))

theorem mem_parts_of_lower {p t : JType} (h : p ∈ t.lower) : p ∈ t.parts :=
  mem_parts.mpr (.inr (.inr h))

theorem nodes_lt_of_mem_parts {p t : JType} (h : p ∈ t.parts) : p.nodes < t.nodes := by
  rcases mem_parts.mp h with ⟨as, hargs, h⟩ | h | h
  · exact nodes_lt_of_mem_args hargs h
  · exact nodes_lt_of_mem_upper h
  · exact nodes_lt_of_mem_lower h

theorem parts_induction {motive : JType → Prop}
    (step : ∀ t : JType, (∀ p ∈ t.parts, motive p) → motive t) (t : JType) : motive t := by
  induction hsize : t.nodes using Nat.strongRecOn generalizing t with
  | ind size ih =>
    subst hsize
    exact step t fun p hp => ih _ (nodes_lt_of_mem_parts hp) p rfl

/-- A type is a wildcard, a type variable or neither. -/
theorem kind_cases (t : JType) :
    t.wildcard = true ∨ (t.wildcard = false ∧ t.var = none) ∨ ∃ v, t.IsVar v := by
  cases hwild : t.wildcard with
  | true => exact .inl rfl
  | false =>
    cases hvar : t.var with
    | none => exact .inr (.inl ⟨rfl, rfl⟩)
    | some v => exact .inr (.inr ⟨v, by simp [isTypeVar, hvar, hwild], hvar⟩)

/-- The first type is the second one or stands somewhere inside it. -/
inductive OccursIn (s : JType) : JType → Prop where
  | self : OccursIn s s
  | part {p t : JType} (hp : p ∈ t.parts) (h : OccursIn s p) : OccursIn s t

/-! ## Well-built types -/

/-- What a single type keeps in step. -/
structure BoundsAgree (t : JType) : Prop where
  /-- A type variable and a wildcard have an upper bound, and the erased name of the first one. -/
  upper : t.isTypeVar = true ∨ t.wildcard = true →
    ∃ b bs, t.upper = b :: bs ∧ t.name = b.erasure.name
  /-- Only a wildcard has lower bounds. -/
  lower : t.wildcard = false → t.lower = []

/-- The bounds go with the names throughout the type. -/
def WellBuilt (t : JType) : Prop := ∀ s, OccursIn s t → s.BoundsAgree

theorem wellBuilt_iff {t : JType} :
    t.WellBuilt ↔ t.BoundsAgree ∧ ∀ p ∈ t.parts, p.WellBuilt := by
  constructor
  · intro h
    exact ⟨h t .self, fun p hp s hs => h s (.part hp hs)⟩
  · rintro ⟨hself, hparts⟩ s hs
    cases hs with
    | self => exact hself
    | part hp hs => exact hparts _ hp s hs

/-- A type that is neither a type variable nor a wildcard is well-built if its parts are. -/
theorem wellBuilt_of_none {t : JType} (hvar : t.var = none) (hwild : t.wildcard = false)
    (hlower : t.lower = []) (hparts : ∀ p ∈ t.parts, p.WellBuilt) : t.WellBuilt := by
  refine wellBuilt_iff.mpr ⟨⟨?_, fun _ => hlower⟩, hparts⟩
  simp [isTypeVar, hvar, hwild]

/-- A type with upper bounds is well-built if its name is that of the first one and all bounds are. -/
theorem wellBuilt_of_bounds {t b : JType} {bs : List JType} (hupper : t.upper = b :: bs)
    (hname : t.name = b.name) (hlower : t.wildcard = false → t.lower = [])
    (hparts : ∀ p ∈ t.parts, p.WellBuilt) : t.WellBuilt :=
  wellBuilt_iff.mpr ⟨⟨fun _ => ⟨b, bs, hupper, hname⟩, hlower⟩, hparts⟩

namespace WellBuilt

variable {s t : JType}

theorem of_mem_upper (h : t.WellBuilt) {p : JType} (hp : p ∈ t.upper) : p.WellBuilt :=
  (wellBuilt_iff.mp h).2 p (mem_parts_of_upper hp)

theorem of_mem_lower (h : t.WellBuilt) {p : JType} (hp : p ∈ t.lower) : p.WellBuilt :=
  (wellBuilt_iff.mp h).2 p (mem_parts_of_lower hp)

theorem of_mem_args (h : t.WellBuilt) {p : JType} {as : List JType} (hargs : t.args = some as)
    (hp : p ∈ as) : p.WellBuilt :=
  (wellBuilt_iff.mp h).2 p (mem_parts_of_args hargs hp)

/-! ## Operations -/

/-- Dimensions and marks are no concern of the bounds. -/
theorem remarked (h : t.WellBuilt) (dims : Nat) (binding : Binding) (member : Option MemberRef) :
    { t with dims, binding, member }.WellBuilt := by
  obtain ⟨hself, hparts⟩ := wellBuilt_iff.mp h
  exact wellBuilt_iff.mpr ⟨⟨hself.upper, hself.lower⟩, hparts⟩

theorem erasure (t : JType) : t.erasure.WellBuilt :=
  wellBuilt_of_none rfl rfl rfl nofun

theorem ofClass (name : String) : (ofClass name).WellBuilt := erasure (.ofClass name)

theorem generic (name : String) {args : List JType} (h : ∀ a ∈ args, a.WellBuilt) :
    (generic name args).WellBuilt := by
  refine wellBuilt_of_none rfl rfl rfl fun p hp => ?_
  simp only [parts, JType.generic, Option.getD_some, List.append_nil] at hp
  exact h p hp

theorem typeVar (name : String) {bounds : List JType} (h : ∀ b ∈ bounds, b.WellBuilt) :
    (typeVar name bounds).WellBuilt := by
  cases bounds with
  | nil =>
    refine wellBuilt_of_bounds rfl rfl (fun _ => rfl) fun p hp => ?_
    obtain rfl := List.mem_singleton.mp hp
    exact ofClass _
  | cons b bs =>
    refine wellBuilt_of_bounds rfl rfl (fun _ => rfl) fun p hp => ?_
    simp only [parts, JType.typeVar, JType.erasure, Option.getD_none, List.nil_append,
      List.append_nil] at hp
    exact h p hp

theorem wildUpper (h : t.WellBuilt) : (wildUpper t).WellBuilt := by
  refine wellBuilt_of_bounds rfl rfl (fun _ => rfl) fun p hp => ?_
  obtain rfl := List.mem_singleton.mp hp
  exact h

theorem wild : wild.WellBuilt := (ofClass objectName).wildUpper

theorem wildLower (h : t.WellBuilt) : (wildLower t).WellBuilt := by
  refine wellBuilt_of_bounds (b := .object) rfl rfl nofun fun p hp => ?_
  simp only [parts, JType.wildLower, JType.object, JType.ofClass, Option.getD_none, List.nil_append,
    List.singleton_append, List.mem_cons, List.not_mem_nil, or_false] at hp
  rcases hp with rfl | rfl
  · exact ofClass _
  · exact h

theorem withArgs (h : t.WellBuilt) {args : Option (List JType)}
    (hargs : ∀ as, args = some as → ∀ a ∈ as, a.WellBuilt) : (t.withArgs args).WellBuilt := by
  have hself := (wellBuilt_iff.mp h).1
  refine wellBuilt_iff.mpr ⟨⟨hself.upper, hself.lower⟩, fun p hp => ?_⟩
  rcases mem_parts.mp hp with ⟨as, has, hp⟩ | hp | hp
  · exact hargs as has p hp
  · exact h.of_mem_upper hp
  · exact h.of_mem_lower hp

theorem boxed (h : t.WellBuilt) : t.boxed.WellBuilt := by
  unfold JType.boxed
  split
  · exact (ofClass _).remarked _ _ _
  · exact h

theorem asTypeVar (h : t.WellBuilt) (name : String) : (t.asTypeVar name).WellBuilt := by
  have hargs : ∀ (u : JType), u.args = t.args → u.upper = [] → u.lower = [] →
      ∀ p ∈ u.parts, p.WellBuilt := by
    intro u hu hupper hlower p hp
    rcases mem_parts.mp hp with ⟨as, has, hp⟩ | hp | hp
    · exact h.of_mem_args (hu ▸ has) hp
    · simp [hupper] at hp
    · simp [hlower] at hp
  refine wellBuilt_of_bounds rfl rfl (fun _ => rfl) fun p hp => ?_
  rcases mem_parts.mp hp with ⟨as, has, hp⟩ | hp | hp
  · exact h.of_mem_args has hp
  · obtain rfl := List.mem_singleton.mp hp
    exact wellBuilt_of_none rfl rfl rfl (hargs _ rfl rfl rfl)
  · cases hp

theorem readType (h : t.WellBuilt) : t.readType.WellBuilt := by
  unfold JType.readType
  split
  · cases hupper : t.upper with
    | nil => exact ofClass _
    | cons b bs => exact h.of_mem_upper (by simp [hupper])
  · exact h

theorem writeType (h : t.WellBuilt) : t.writeType.WellBuilt := by
  unfold JType.writeType
  split
  · next hlower => exact h.of_mem_lower (by simp [hlower])
  · exact h.readType

theorem subst {b : Bindings} (hb : ∀ v s, b.find? v = some s → s.WellBuilt) (drop : Bool)
    (h : t.WellBuilt) : (t.subst b drop).WellBuilt := by
  induction t using parts_induction with
  | step t ih =>
    obtain ⟨hself, hparts⟩ := wellBuilt_iff.mp h
    rcases t.kind_cases with hwild | ⟨hwild, hvar⟩ | ⟨v, hv⟩
    · obtain ⟨u, us, hupper, -⟩ := hself.upper (.inr hwild)
      have hupper' : t.upper.map (JType.subst b drop) =
          u.subst b drop :: us.map (JType.subst b drop) := by
        rw [hupper, List.map_cons]
      rw [subst_eq_of_wildcard hwild]
      refine wellBuilt_of_bounds hupper' (by rw [hupper]; rfl) nofun fun p hp => ?_
      -- the bounds are what the old ones became
      have hbound : ∃ q ∈ t.parts, q.subst b drop = p := by
        rcases mem_parts.mp hp with ⟨as, has, -⟩ | hp | hp
        · cases has
        · obtain ⟨q, hq, rfl⟩ := List.mem_map.mp hp
          exact ⟨q, mem_parts_of_upper hq, rfl⟩
        · obtain ⟨q, hq, rfl⟩ := List.mem_map.mp hp
          exact ⟨q, mem_parts_of_lower hq, rfl⟩
      obtain ⟨q, hq, rfl⟩ := hbound
      exact ih q hq (hparts q hq)
    · rw [subst_eq_of_none hvar hwild]
      refine h.withArgs fun as has a ha => ?_
      obtain ⟨args, hargs, rfl⟩ := Option.map_eq_some_iff.mp has
      obtain ⟨q, hq, rfl⟩ := List.mem_map.mp ha
      have hmem : q ∈ t.parts := mem_parts_of_args hargs hq
      exact ih q hmem (hparts q hmem)
    · cases hfind : b.find? v with
      | some s =>
        rw [subst_of_var hv.2 hv.wildcard hfind]
        exact (hb v s hfind).remarked _ _ _
      | none =>
        cases drop with
        | true =>
          rw [hv.subst_of_dropped hfind]
          exact (erasure t).remarked _ _ _
        | false =>
          rw [hv.subst_of_unbound hfind]
          exact h

theorem commonSupertype (env : ClassEnv) (left right : String) :
    (env.commonSupertype left right).WellBuilt := by
  unfold ClassEnv.commonSupertype
  split
  · exact erasure _
  · split
    · exact erasure _
    · exact ofClass _

/-- One step of a merge, given what it goes on with. -/
theorem mergeRead {env : ClassEnv} {l r : JType} (hl : l.WellBuilt) (hr : r.WellBuilt)
    (hboxed : (l.isPrimitive || r.isPrimitive) = true →
      (JType.merge env l.boxed r.boxed).WellBuilt)
    (hargs : ∀ as bs, l.args = some as → r.args = some bs → ∀ a ∈ as, ∀ b ∈ bs,
      (JType.merge env a b).WellBuilt)
    (helement : l.dims ≠ 0 → l.dims = r.dims → l.element.isPrimitive = false →
      r.element.isPrimitive = false → (JType.merge env l.element r.element).WellBuilt) :
    (JType.mergeRead env l r).WellBuilt := by
  rw [JType.mergeRead]
  split
  · split
    · exact ofClass _
    · split
      · next hprim => exact hboxed hprim
      · split
        · split
          · next as bs ha hb =>
            split
            · rw [mergeList_eq_zipWith]
              refine generic _ fun c hc => ?_
              obtain ⟨i, hi⟩ := List.mem_iff_getElem?.mp hc
              obtain ⟨a, b, hai, hbi, rfl⟩ := List.getElem?_zipWith_eq_some.mp hi
              exact hargs as bs ha hb a (List.mem_of_getElem? hai) b (List.mem_of_getElem? hbi)
            · exact erasure l
          · exact erasure l
        · split
          · exact hl
          · split
            · exact hr
            · exact commonSupertype env _ _
  · next hdims =>
    split
    · next heq =>
      split
      · split
        · exact hl
        · exact ofClass _
      · next hprim =>
        simp only [Bool.or_eq_true, not_or, Bool.not_eq_true] at hprim
        have hne : l.dims ≠ 0 := fun h => hdims ⟨h, heq ▸ h⟩
        exact (helement hne heq hprim.1 hprim.2).remarked _ _ _
    · exact ofClass _

theorem merge (env : ClassEnv) (hs : s.WellBuilt) (ht : t.WellBuilt) :
    (merge env s t).WellBuilt := by
  induction s, t using merge_induction with
  | step s t hboxed hargs helement =>
    have hread : (JType.mergeRead env s.readType t.readType).WellBuilt := by
      have hs := hs.readType
      have ht := ht.readType
      refine mergeRead hs ht (fun hprim => hboxed hprim hs.boxed ht.boxed)
        (fun as bs has hbs a ha b hb => ?_) (fun hne heq hl hr => ?_)
      · exact hargs as bs has hbs a ha b hb (hs.of_mem_args has ha) (ht.of_mem_args hbs hb)
      · exact helement hne heq hl hr (hs.remarked _ _ _) (ht.remarked _ _ _)
    rw [JType.merge]
    split_ifs <;> assumption

end WellBuilt

/-! ## Obtained types -/

/-- A type that comes from the constructors of types by any operations on types.  The root class and
strings are classes with these names. -/
inductive Obtained : JType → Prop where
  | primitive (p : Primitive) : Obtained (.primitive p)
  | ofClass (name : String) : Obtained (.ofClass name)
  | generic (name : String) {args : List JType} (hargs : ∀ a ∈ args, Obtained a) :
      Obtained (.generic name args)
  | void : Obtained .void
  | null : Obtained .null
  | unknown (name : String) : Obtained (.unknown name)
  | typeVar (name : String) {bounds : List JType} (hbounds : ∀ b ∈ bounds, Obtained b) :
      Obtained (.typeVar name bounds)
  | wild : Obtained .wild
  | wildUpper {t : JType} (h : Obtained t) : Obtained (.wildUpper t)
  | wildLower {t : JType} (h : Obtained t) : Obtained (.wildLower t)
  | arrayOf {t : JType} (h : Obtained t) (n : Nat) : Obtained (t.arrayOf n)
  | arrayOf32 {t : JType} (h : Obtained t) (n : Nat) : Obtained (t.arrayOf32 n)
  | component {t s : JType} (h : Obtained t) (hs : t.component? = some s) : Obtained s
  | element {t : JType} (h : Obtained t) : Obtained t.element
  | boxed {t : JType} (h : Obtained t) : Obtained t.boxed
  | erasure {t : JType} (h : Obtained t) : Obtained t.erasure
  | withArgs {t : JType} {args : Option (List JType)} (h : Obtained t)
      (hargs : ∀ as, args = some as → ∀ a ∈ as, Obtained a) : Obtained (t.withArgs args)
  | withMember {t : JType} (h : Obtained t) (member : MemberRef) : Obtained (t.withMember member)
  | withoutMember {t : JType} (h : Obtained t) : Obtained t.withoutMember
  | withBinding {t : JType} (h : Obtained t) (binding : Binding) : Obtained (t.withBinding binding)
  | asTypeVar {t : JType} (h : Obtained t) (name : String) : Obtained (t.asTypeVar name)
  | subst {t : JType} {b : Bindings} (h : Obtained t)
      (hb : ∀ v s, b.find? v = some s → Obtained s) (drop : Bool) : Obtained (t.subst b drop)
  | readType {t : JType} (h : Obtained t) : Obtained t.readType
  | writeType {t : JType} (h : Obtained t) : Obtained t.writeType
  | merge {s t : JType} (env : ClassEnv) (hs : Obtained s) (ht : Obtained t) :
      Obtained (merge env s t)

theorem Obtained.wellBuilt {t : JType} (h : t.Obtained) : t.WellBuilt := by
  induction h with
  | primitive p => exact .ofClass _
  | ofClass name => exact .ofClass name
  | generic name _ ih => exact .generic name ih
  | void => exact .ofClass _
  | null => exact .ofClass _
  | unknown name => exact .erasure (.unknown name)
  | typeVar name _ ih => exact .typeVar name ih
  | wild => exact .wild
  | wildUpper _ ih => exact ih.wildUpper
  | wildLower _ ih => exact ih.wildLower
  | arrayOf _ n ih => exact ih.remarked _ _ _
  | arrayOf32 _ n ih => exact ih.remarked _ _ _
  | @component t s _ hs ih =>
    simp only [component?, Option.ite_none_right_eq_some, Option.some.injEq] at hs
    obtain ⟨-, rfl⟩ := hs
    exact ih.remarked _ _ _
  | element _ ih => exact ih.remarked _ _ _
  | boxed _ ih => exact ih.boxed
  | erasure _ _ => exact .erasure _
  | withArgs _ _ ih ihargs => exact ih.withArgs ihargs
  | withMember _ member ih => exact ih.remarked _ _ _
  | withoutMember _ ih => exact ih.remarked _ _ _
  | withBinding _ binding ih => exact ih.remarked _ _ _
  | asTypeVar _ name ih => exact ih.asTypeVar name
  | subst _ _ drop ih ihb => exact ih.subst ihb drop
  | readType _ ih => exact ih.readType
  | writeType _ ih => exact ih.writeType
  | merge env _ _ ihs iht => exact ihs.merge env iht

/-- Each type variable and each wildcard that occurs in a type has an upper bound, and the erased name
of the first one. -/
theorem Obtained.occurring_bounded {t : JType} (h : t.Obtained) {s : JType} (hs : OccursIn s t)
    (hbounded : s.isTypeVar = true ∨ s.wildcard = true) :
    ∃ b bs, s.upper = b :: bs ∧ s.name = b.erasure.name :=
  (h.wellBuilt s hs).upper hbounded

/-- `p.Box<? extends T>` where `T` is bound to a type variable `U` that stands for a string. -/
def boxOfVariable : JType :=
  (generic "p.Box" [.wildUpper (.typeVar "T" [])]).subst [("T", string.asTypeVar "U")] false

theorem boxOfVariable_obtained : boxOfVariable.Obtained := by
  refine .subst (.generic _ fun a ha => ?_) (fun v s hs => ?_) false
  · obtain rfl := List.mem_singleton.mp ha
    exact .wildUpper (.typeVar "T" nofun)
  · exact Bindings.eq_of_find?_singleton hs ▸ .asTypeVar (.ofClass _) "U"

/-- The type variable in the bound of the wildcard is bounded by the string, and has its name. -/
theorem boxOfVariable_bounded :
    OccursIn (string.asTypeVar "U") boxOfVariable ∧
      ∃ b bs, (string.asTypeVar "U").upper = b :: bs ∧
        (string.asTypeVar "U").name = b.erasure.name := by
  have hoccurs : OccursIn (string.asTypeVar "U") boxOfVariable :=
    .part (p := .wildUpper (string.asTypeVar "U")) (.head _) (.part (.head _) .self)
  exact ⟨hoccurs, boxOfVariable_obtained.occurring_bounded hoccurs (.inl rfl)⟩

end JType

end JavaSema
