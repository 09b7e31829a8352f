import JavaSema.Proofs.Assign.Wildcard
import JavaSema.Proofs.Merge.Reference

/-!
# Merging and marks

A type is marked with the member that it comes from and with the way it was bound.  Merging does not
look at the marks of two types, so that it may go on from a type that an inference has marked.
-/

namespace JavaSema

namespace JType

variable {env : ClassEnv}

/-- What does not look at the marks is the same for both types. -/
theorem eq_of_marks {β : Type} {s s' : JType} (f : JType → β) (h : s'.asInferred = s.asInferred)
    (hf : ∀ (t : JType) m b, f { t with member := m, binding := b } = f t) : f s' = f s := by
  obtain ⟨m, b, rfl⟩ := exists_marks h
  exact hf s m b

theorem readType_marks {s s' : JType} (h : s'.asInferred = s.asInferred) :
    s'.readType.asInferred = s.readType.asInferred := by
  refine eq_of_marks (fun t => t.readType.asInferred) h fun t m b => ?_
  show (readType _).asInferred = (if _ then _ else _ : JType).asInferred
  unfold readType
  split <;> rfl

theorem boxed_marks {s s' : JType} (h : s'.asInferred = s.asInferred) :
    s'.boxed.asInferred = s.boxed.asInferred := by
  have hprim : s'.primitive? = s.primitive? := eq_of_marks primitive? h fun _ _ _ => rfl
  rw [boxed, boxed, hprim]
  cases s.primitive? with
  | none => exact h
  | some p => rfl

theorem element_marks {s s' : JType} (h : s'.asInferred = s.asInferred) :
    s'.element.asInferred = s.element.asInferred :=
  eq_of_marks (fun t => t.element.asInferred) h fun _ _ _ => rfl

theorem arrayOf_marks {s s' : JType} (h : s'.asInferred = s.asInferred) (n : Nat) :
    (s'.arrayOf n).asInferred = (s.arrayOf n).asInferred :=
  eq_of_marks (fun t => (t.arrayOf n).asInferred) h fun _ _ _ => rfl

theorem beq_marks {s s' t t' : JType} (hs : s'.asInferred = s.asInferred)
    (ht : t'.asInferred = t.asInferred) : (s' == t') = (s == t) := by
  have hleft : (s' == t') = (s == t') := eq_of_marks (· == t') hs fun t _ _ => by cases t; rfl
  have hright : (s == t') = (s == t) := eq_of_marks (s == ·) ht fun _ _ _ => by cases s; rfl
  exact hleft.trans hright

/-- Without dimensions, only the types of the objects of primitive values are merged further. -/
theorem mergeRead_marks_of_dims_eq_zero {l l' r r' : JType} (hl : l'.asInferred = l.asInferred)
    (hr : r'.asInferred = r.asInferred) (hdims : l.dims = 0 ∧ r.dims = 0)
    (hboxed : (l.isPrimitive || r.isPrimitive) = true →
      (merge env l'.boxed r'.boxed).asInferred = (merge env l.boxed r.boxed).asInferred) :
    (mergeRead env l' r').asInferred = (mergeRead env l r).asInferred := by
  have hleft : accepts env l' r' = accepts env l r := accepts_marks hl hr
  have hright : accepts env r' l' = accepts env r l := accepts_marks hr hl
  obtain ⟨m, b, rfl⟩ := exists_marks hl
  obtain ⟨n, c, rfl⟩ := exists_marks hr
  have hcommon : commonPrimitive? { l with member := m, binding := b }
      { r with member := n, binding := c } = commonPrimitive? l r := rfl
  rw [mergeRead, mergeRead.eq_1 env l r, if_pos hdims, if_pos (show _ ∧ _ from hdims), hcommon]
  cases commonPrimitive? l r with
  | some p => rfl
  | none =>
    show asInferred (if (l.isPrimitive || r.isPrimitive) = true then _ else _)
      = asInferred (if _ then _ else _)
    by_cases hprim : (l.isPrimitive || r.isPrimitive) = true
    · rw [if_pos hprim, if_pos hprim]
      exact hboxed hprim
    · rw [if_neg hprim, if_neg hprim, hleft, hright]
      simp only [apply_ite asInferred, hl, hr]
      rfl

/-- With dimensions, only the elements are merged further. -/
theorem mergeRead_marks_of_dims {l l' r r' : JType} (hl : l'.asInferred = l.asInferred)
    (hr : r'.asInferred = r.asInferred) (hdims : ¬ (l.dims = 0 ∧ r.dims = 0))
    (helement : l.dims ≠ 0 → l.dims = r.dims → l.element.isPrimitive = false →
      r.element.isPrimitive = false →
      (merge env l'.element r'.element).asInferred = (merge env l.element r.element).asInferred) :
    (mergeRead env l' r').asInferred = (mergeRead env l r).asInferred := by
  have hld : l'.dims = l.dims := eq_of_marks dims hl fun _ _ _ => rfl
  have hrd : r'.dims = r.dims := eq_of_marks dims hr fun _ _ _ => rfl
  by_cases heq : l.dims = r.dims
  · have hne : l.dims ≠ 0 := fun h => hdims ⟨h, heq ▸ h⟩
    rw [mergeRead_of_dims_eq hne heq, mergeRead_of_dims_eq (hld ▸ hne) (hld ▸ hrd ▸ heq), hld,
      beq_marks (element_marks hl) (element_marks hr),
      eq_of_marks (fun t => t.element.isPrimitive) hl fun _ _ _ => rfl,
      eq_of_marks (fun t => t.element.isPrimitive) hr fun _ _ _ => rfl]
    by_cases hprim : (l.element.isPrimitive || r.element.isPrimitive) = true
    · rw [if_pos hprim, if_pos hprim]
      simp only [apply_ite asInferred, hl]
    · rw [if_neg hprim, if_neg hprim]
      simp only [Bool.or_eq_true, not_or, Bool.not_eq_true] at hprim
      exact arrayOf_marks (helement hne heq hprim.1 hprim.2) l.dims
  · rw [mergeRead_of_dims_ne heq, mergeRead_of_dims_ne (hld ▸ hrd ▸ heq)]

/-- Marks of two types decide nothing but the marks of the type that they merge to. -/
theorem merge_marks {s s' t t' : JType} (hs : s'.asInferred = s.asInferred)
    (ht : t'.asInferred = t.asInferred) :
    (merge env s' t').asInferred = (merge env s t).asInferred := by
  induction s, t using merge_induction generalizing s' t' with
  | step s t hboxed _ helement =>
    have hsread := readType_marks hs
    have htread := readType_marks ht
    have hread : (mergeRead env s'.readType t'.readType).asInferred =
        (mergeRead env s.readType t.readType).asInferred := by
      by_cases hdims : s.readType.dims = 0 ∧ t.readType.dims = 0
      · exact mergeRead_marks_of_dims_eq_zero hsread htread hdims fun hprim =>
          hboxed hprim (boxed_marks hsread) (boxed_marks htread)
      · exact mergeRead_marks_of_dims hsread htread hdims fun hne heq hl hr =>
          helement hne heq hl hr (element_marks hsread) (element_marks htread)
    rw [merge, merge.eq_1 env s t, beq_marks hs ht, eq_of_marks isNull hs fun _ _ _ => rfl,
      eq_of_marks isNull ht fun _ _ _ => rfl, eq_of_marks isVoid hs fun _ _ _ => rfl,
      eq_of_marks isVoid ht fun _ _ _ => rfl]
    simp only [apply_ite asInferred, hs, ht, hread]

end JType

end JavaSema
