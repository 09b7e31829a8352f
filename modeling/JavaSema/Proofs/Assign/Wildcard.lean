import JavaSema.Proofs.Inference.Inverse
import JavaSema.Proofs.Merge.UpperBound

/-!
# Bounded wildcards

A wildcard keeps the dimensions of its bound, and assignability adds them to the bound once more, in
32 bits.  So a bounded wildcard compares like its bound where that is no array, and like an array of
twice as many dimensions where it is one and these fit.

There are two groups.

* The rules.  `accepts_eq` lists them, and `accepts_marks` says that the member which a type comes from
  and the way it was bound decide nothing.
* Bounds.  `accepts_wildUpper_left` and `accepts_wildUpper_right` put the bound in place of the
  wildcard on either side, and `accepts_wildUpper` says for which bounds nothing is lost.
-/

namespace JavaSema

namespace JType

variable {env : ClassEnv}

/-! ## The rules -/

/-- The rules of assignability, one after the other. -/
theorem accepts_eq (target value : JType) : accepts env target value =
    if target.unresolved || value.unresolved then false
    else if target.isVoid || value.isVoid then target.isVoid && value.isVoid
    else if value.isNull then target.isReference
    else if target.wildcard || target.isTypeVar then
      match target.lower with
      | b :: _ => accepts env b value || accepts env value b
      | [] => target.upper.all fun b => accepts env (b.arrayOf32 target.dims) value
    else if value.wildcard || value.isTypeVar then
      if value.upper.isEmpty then target.isObject
      else value.upper.any fun b => accepts env target (b.arrayOf32 value.dims)
    else if target.isArray || value.isArray then acceptsArray env target value
    else acceptsPlain env target value := by
  rw [accepts]
  split
  · rfl
  split
  · rfl
  split
  · rfl
  split
  · split <;> rename_i heq <;> simp [heq]
  · simp

/-- Types that agree up to their marks: the member that they come from, and how they were bound. -/
theorem exists_marks {s t : JType} (h : s.asInferred = t.asInferred) :
    ∃ m b, s = { t with member := m, binding := b } := by
  refine ⟨s.member, s.binding, ?_⟩
  cases s
  cases t
  simp_all [asInferred, withoutMember, withBinding]

/-- The marks of two types decide nothing. -/
theorem accepts_marks {target target' value value' : JType}
    (ht : target'.asInferred = target.asInferred)
    (hv : value'.asInferred = value.asInferred) :
    accepts env target' value' = accepts env target value := by
  induction hsize : target.nodes + value.nodes using Nat.strongRecOn
    generalizing target target' value value' with
  | ind size ih =>
    subst hsize
    obtain ⟨m, k, rfl⟩ := exists_marks ht
    obtain ⟨n, l, rfl⟩ := exists_marks hv
    rw [accepts_eq, accepts_eq target value]
    -- all tests agree, and only bounds are compared again
    refine if_congr Iff.rfl rfl (if_congr Iff.rfl rfl (if_congr Iff.rfl rfl
      (if_congr Iff.rfl ?_ (if_congr Iff.rfl (if_congr Iff.rfl rfl ?_) rfl))))
    · show (match target.lower with | b :: _ => _ | [] => _) = _
      cases hlower : target.lower with
      | nil =>
        rw [Bool.eq_iff_iff, List.all_eq_true, List.all_eq_true]
        refine forall₂_congr fun b hb => ?_
        have hlt : b.nodes < target.nodes := nodes_lt_of_mem_upper hb
        have hbound : accepts env (b.arrayOf32 target.dims) _
            = accepts env (b.arrayOf32 target.dims) value :=
          ih _ (by rw [nodes_arrayOf32]; omega) rfl hv rfl
        rw [hbound]
      | cons b bs =>
        have hlt : b.nodes < target.nodes := nodes_lt_of_mem_lower (by simp [hlower])
        show (accepts env b _ || accepts env _ b) = _
        have hleft : accepts env b _ = accepts env b value := ih _ (by omega) rfl hv rfl
        have hright : accepts env _ b = accepts env value b := ih _ (by omega) hv rfl rfl
        rw [hleft, hright]
    · rw [Bool.eq_iff_iff, List.any_eq_true, List.any_eq_true]
      refine exists_congr fun b => and_congr_right fun hb => ?_
      have hlt : b.nodes < value.nodes := nodes_lt_of_mem_upper hb
      have hbound : accepts env _ (b.arrayOf32 value.dims)
          = accepts env target (b.arrayOf32 value.dims) :=
        ih _ (by rw [nodes_arrayOf32]; omega) ht rfl rfl
      rw [hbound]

/-- Which member a type comes from decides nothing. -/
theorem accepts_congr {target target' value value' : JType}
    (ht : target'.withoutMember = target.withoutMember)
    (hv : value'.withoutMember = value.withoutMember) :
    accepts env target' value' = accepts env target value :=
  accepts_marks (congrArg (withBinding · .inferred) ht) (congrArg (withBinding · .inferred) hv)

/-! ## Bounds -/

section WildUpper

variable (b : JType)

@[simp] theorem wildUpper_dims : (wildUpper b).dims = b.dims := rfl
@[simp] theorem wildUpper_upper : (wildUpper b).upper = [b] := rfl
@[simp] theorem wildUpper_lower : (wildUpper b).lower = [] := rfl
@[simp] theorem wildUpper_wildcard : (wildUpper b).wildcard = true := rfl
@[simp] theorem wildUpper_unresolved : (wildUpper b).unresolved = b.unresolved := rfl

end WildUpper

/-- A resolved type other than `void` that can bound a wildcard: its erasure is `void` or `null` only
where it is so itself.  Type variables have bounds, so that they erase to neither.  An array of `void`
has no more dimensions than can be doubled. -/
structure IsBound (b : JType) : Prop where
  unresolved : b.unresolved = false
  void : b.erasure.isVoid = false
  null : b.erasure.isNull = b.isNull
  fits : b.name = "void" → b.dims + b.dims < UInt32.size

/-- The bound with its dimensions added once more is not `void`. -/
theorem IsBound.void_arrayOf32 {b : JType} (h : b.IsBound) : (b.arrayOf32 b.dims).isVoid = false := by
  have hvoid := h.void
  simp only [isVoid, erasure, arrayOf32, Option.isNone_none, Bool.and_true, Bool.and_eq_false_iff,
    beq_eq_false_iff_ne] at hvoid ⊢
  by_cases hname : b.name = "void"
  · have hdims : b.dims ≠ 0 := hvoid.resolve_right (not_not.mpr hname)
    rw [addDims_of_lt (h.fits hname)]
    exact .inl (.inl (by omega))
  · exact .inl (.inr hname)

/-- Where the wildcard is `null`, the bound with its dimensions added once more is so. -/
theorem IsBound.null_arrayOf32 {b : JType} (h : b.IsBound) (hnull : (wildUpper b).isNull = true) :
    (b.arrayOf32 b.dims).isNull = true := by
  have hbound : b.isNull = true := h.null ▸ hnull
  have hdims : b.dims = 0 := by
    simp only [isNull, Bool.and_eq_true, beq_iff_eq] at hbound
    exact hbound.1.1
  rw [arrayOf32_of_lt (by rw [hdims]; decide), hdims]
  exact hbound

/-- Values are assigned to a wildcard as to the bound with its dimensions added once more. -/
theorem accepts_wildUpper_left {b v : JType} (hb : b.IsBound) (hv : v.unresolved = false)
    (hnull : v.isNull = false) :
    accepts env (wildUpper b) v = accepts env (b.arrayOf32 b.dims) v := by
  have hresolved : (b.arrayOf32 b.dims).unresolved = false := hb.unresolved
  have hvoid : (wildUpper b).isVoid = false := hb.void
  rw [accepts_eq]
  cases hvalue : v.isVoid with
  | true =>
    rw [accepts_eq]
    simp [hresolved, hb.unresolved, hv, hvoid, hvalue, hb.void_arrayOf32]
  | false => simp [hb.unresolved, hv, hvoid, hnull]

/-- A wildcard is assigned to a class or an array as the bound is with its dimensions added once
more. -/
theorem accepts_wildUpper_right {b t : JType} (hb : b.IsBound) (ht : t.unresolved = false)
    (hwild : t.wildcard = false) (hvar : t.isTypeVar = false) :
    accepts env t (wildUpper b) = accepts env t (b.arrayOf32 b.dims) := by
  have hresolved : (b.arrayOf32 b.dims).unresolved = false := hb.unresolved
  have hvoid : (wildUpper b).isVoid = false := hb.void
  rw [accepts_eq]
  by_cases hfirst : t.isVoid = true ∨ (wildUpper b).isNull = true
  · rw [accepts_eq]
    simp only [hresolved, hb.unresolved, ht, hvoid, hb.void_arrayOf32, wildUpper_unresolved]
    rcases hfirst with htarget | hnull
    · simp [htarget]
    · simp [hnull, hb.null_arrayOf32 hnull]
  · obtain ⟨htarget, hnull⟩ := not_or.mp hfirst
    simp [hb.unresolved, ht, hvoid, hnull, htarget, hwild, hvar]

/-- Between arrays that are built on a class or a primitive type the rule for arrays decides. -/
theorem accepts_arrays {t v : JType} (ht : t.unresolved = false) (hv : v.unresolved = false)
    (htdims : t.dims ≠ 0) (hvdims : v.dims ≠ 0) (htvar : (t.wildcard || t.isTypeVar) = false)
    (hvvar : (v.wildcard || v.isTypeVar) = false) :
    accepts env t v = acceptsArray env t v := by
  have htvoid : t.isVoid = false := by simp [isVoid, htdims]
  have hvvoid : v.isVoid = false := by simp [isVoid, hvdims]
  have hnull : v.isNull = false := by simp [isNull, hvdims]
  have harray : (t.isArray || v.isArray) = true := by
    have := Nat.pos_of_ne_zero htdims
    simp [isArray, this]
  rw [accepts_eq]
  simp only [ht, hv, htvoid, hvvoid, hnull, htvar, hvvar, harray, Bool.or_self, Bool.false_eq_true,
    if_false, if_true]

/-- An array that is built on a class or a primitive type is assigned to itself. -/
theorem accepts_self {b : JType} (hb : b.unresolved = false) (hdims : b.dims ≠ 0)
    (hvar : (b.wildcard || b.isTypeVar) = false) : accepts env b b = true := by
  rw [accepts_arrays hb hb hdims hdims hvar hvar, acceptsArray, if_neg hdims, if_neg hdims,
    if_pos rfl]
  split
  · exact same_refl b.element
  · rename_i hprim
    simp only [Bool.or_self, Bool.not_eq_true] at hprim
    have hnone : b.element.primitive? = none := by simpa [isPrimitive] using hprim
    have hresolved : b.element.unresolved = false := hb
    have hsub : env.isSubclass b.element.name b.element.name = true :=
      (ClassEnv.isSubclass_iff env _ _).mpr (.inl rfl)
    unfold acceptsPlain
    cases hvoid : b.element.isVoid <;>
      simp [isReference, hprim, hvoid, hresolved, hnone, hsub]

/-- Of two such arrays, the one with more dimensions does not accept the other one. -/
theorem accepts_fewer {t v : JType} (ht : t.unresolved = false) (hv : v.unresolved = false)
    (hvdims : v.dims ≠ 0) (hfewer : v.dims < t.dims) (htvar : (t.wildcard || t.isTypeVar) = false)
    (hvvar : (v.wildcard || v.isTypeVar) = false) : accepts env t v = false := by
  have htdims : t.dims ≠ 0 := by omega
  have hne : ¬ v.dims = t.dims := by omega
  have hlt : ¬ t.dims < v.dims := by omega
  rw [accepts_arrays ht hv htdims hvdims htvar hvvar, acceptsArray, if_neg hvdims, if_neg htdims,
    if_neg hne]
  simp [hlt]

/-- A bounded wildcard compares, on either side, like its bound with its dimensions added once more.
So it compares by its bound where that is no array.  Where the bound is an array of a class or of a
primitive type, and twice its dimensions fit into 32 bits, the wildcard does not accept its own bound,
and is assigned to an array of twice as many dimensions, to which the bound is not. -/
theorem accepts_wildUpper (env : ClassEnv) (b : JType) (hb : b.IsBound) :
    (∀ v : JType, v.unresolved = false → v.isNull = false →
        accepts env (wildUpper b) v = accepts env (b.arrayOf32 b.dims) v ∧
          (b.isArray = false → accepts env (wildUpper b) v = accepts env b v)) ∧
      (∀ t : JType, t.unresolved = false → t.wildcard = false → t.isTypeVar = false →
        accepts env t (wildUpper b) = accepts env t (b.arrayOf32 b.dims) ∧
          (b.isArray = false → accepts env t (wildUpper b) = accepts env t b)) ∧
      (b.isArray = true → b.wildcard = false → b.isTypeVar = false →
        b.dims + b.dims < UInt32.size →
        (accepts env b b = true ∧ accepts env (wildUpper b) b = false) ∧
          accepts env (b.arrayOf32 b.dims) (wildUpper b) = true ∧
            accepts env (b.arrayOf32 b.dims) b = false) := by
  -- a bound that is no array is left as it is
  have hsame : b.isArray = false → (b.arrayOf32 b.dims).withoutMember = b.withoutMember := by
    intro harray
    have hdims : b.dims = 0 := by simpa [isArray] using harray
    rw [arrayOf32_of_lt (by rw [hdims]; decide), hdims]
    rfl
  refine ⟨fun v hv hnull => ?_, fun t ht hwild hvar => ?_, fun harray hwild hvar hfits => ?_⟩
  · have hleft : accepts env _ v = _ := accepts_wildUpper_left hb hv hnull
    exact ⟨hleft, fun harray => hleft.trans (accepts_congr (hsame harray) rfl)⟩
  · have hright : accepts env t _ = _ := accepts_wildUpper_right hb ht hwild hvar
    exact ⟨hright, fun harray => hright.trans (accepts_congr rfl (hsame harray))⟩
  · have hdims : b.dims ≠ 0 := by simpa [isArray, Nat.pos_iff_ne_zero] using harray
    have hplain : (b.wildcard || b.isTypeVar) = false := by simp [hwild, hvar]
    have hnull : b.isNull = false := by simp [isNull, hdims]
    have hmore : b.dims < (b.arrayOf32 b.dims).dims := by
      rw [arrayOf32_of_lt hfits]
      show b.dims < b.dims + b.dims
      omega
    have hdims' : (b.arrayOf32 b.dims).dims ≠ 0 := by omega
    have hfewer : accepts env (b.arrayOf32 b.dims) b = false :=
      accepts_fewer hb.unresolved hb.unresolved hdims hmore hplain hplain
    refine ⟨⟨accepts_self hb.unresolved hdims hplain, ?_⟩, ?_, hfewer⟩
    · rw [accepts_wildUpper_left hb hb.unresolved hnull]
      exact hfewer
    · rw [accepts_wildUpper_right (t := b.arrayOf32 b.dims) hb hb.unresolved hwild hvar]
      exact accepts_self hb.unresolved hdims' hplain

/-- A class below another one. -/
def wholeNumbers : ClassTable :=
  ⟨[{ ClassDef.empty "Whole" .ordinary with superclass := some (.ofClass "Number") }]⟩

/-- A wildcard that is bounded by a type variable compares like the variable, and one that is bounded
by an array like an array of two dimensions more. -/
theorem wholeNumbers_accepts :
    (typeVar "N" [ofClass "Number"]).IsBound ∧ ((ofClass "Whole").arrayOf 2).IsBound ∧
      accepts wholeNumbers.toEnv (wildUpper (typeVar "N" [ofClass "Number"])) (ofClass "Whole")
        = accepts wholeNumbers.toEnv (typeVar "N" [ofClass "Number"]) (ofClass "Whole") ∧
      accepts wholeNumbers.toEnv (ofClass "Number") (wildUpper (typeVar "N" [ofClass "Number"]))
        = accepts wholeNumbers.toEnv (ofClass "Number") (typeVar "N" [ofClass "Number"]) ∧
      accepts wholeNumbers.toEnv (wildUpper ((ofClass "Whole").arrayOf 2)) (object.arrayOf 4)
        = accepts wholeNumbers.toEnv ((ofClass "Whole").arrayOf 4) (object.arrayOf 4) ∧
      accepts wholeNumbers.toEnv (wildUpper ((ofClass "Whole").arrayOf 2))
        ((ofClass "Whole").arrayOf 2) = false := by
  have hvar : (typeVar "N" [ofClass "Number"]).IsBound := ⟨rfl, by decide, by decide, by decide⟩
  have harray : ((ofClass "Whole").arrayOf 2).IsBound := ⟨rfl, by decide, by decide, by decide⟩
  obtain ⟨hleft, hright, -⟩ := accepts_wildUpper wholeNumbers.toEnv _ hvar
  obtain ⟨hleft', -, hself⟩ := accepts_wildUpper wholeNumbers.toEnv _ harray
  exact ⟨hvar, harray, (hleft (ofClass "Whole") rfl (by decide)).2 (by decide),
    (hright (ofClass "Number") rfl rfl (by decide)).2 (by decide),
    (hleft' (object.arrayOf 4) rfl (by decide)).1,
    (hself (by decide) rfl (by decide) (by decide)).1.2⟩

/-- An array is assigned to itself but not to a wildcard that it bounds, and the wildcard is assigned
to an array of two dimensions, to which the array is not. -/
theorem boundedByArray_differs :
    (string.arrayOf 1).isReference = true ∧ (string.arrayOf 1).isNull = false ∧
      accepts wholeNumbers.toEnv (string.arrayOf 1) (string.arrayOf 1) = true ∧
      accepts wholeNumbers.toEnv (wildUpper (string.arrayOf 1)) (string.arrayOf 1) = false ∧
      accepts wholeNumbers.toEnv (string.arrayOf 2) (string.arrayOf 1) = false ∧
      accepts wholeNumbers.toEnv (string.arrayOf 2) (wildUpper (string.arrayOf 1)) = true := by
  have hbound : (string.arrayOf 1).IsBound := ⟨rfl, by decide, by decide, by decide⟩
  have hfewer : accepts wholeNumbers.toEnv (string.arrayOf 2) (string.arrayOf 1) = false :=
    accepts_fewer rfl rfl (by decide) (by decide) rfl rfl
  refine ⟨by decide, by decide, accepts_self rfl (by decide) rfl, ?_, hfewer, ?_⟩
  · rw [accepts_wildUpper_left hbound rfl (by decide)]
    exact hfewer
  · rw [accepts_wildUpper_right hbound rfl rfl rfl]
    exact accepts_self rfl (by decide) rfl

end JType

end JavaSema
