import JavaSema.Proofs.Overload.Ranking

/-!
# Stable orders of candidates

In a stable order no candidate stands before a better one, and candidates that the comparison does not
tell apart stay in order of declaration.  Each two candidates are then ordered by the comparison and by
their places.  As the comparison is no order, these demands may run in a circle, and then no stable order
exists.

There are two groups.

* Stable orders.  `isStableOrder_iff` says that ranking finds the stable order if there is one, and that
  there is one exactly if the demands on each three candidates fit together.
* A circle.  Three methods of two parameters, of which ranking puts the last one first although the second
  one is better.
-/

namespace JavaSema

namespace Applicable

variable {env : ClassEnv}

/-! ## Stable orders -/

/-- Of two numbered candidates the one may stand before the other: the other one is not better, and if
the comparison does not tell them apart, then it has the later place. -/
def Ahead (env : ClassEnv) (x y : Numbered) : Prop :=
  rank env y.1 x.1 ≠ .lt ∧ (rank env x.1 y.1 = .eq → x.2 < y.2)

/-- The list `out` holds the candidates best first, and those that the comparison does not tell apart in
the order in which `l` has them. -/
def IsStableOrder (env : ClassEnv) (l out : List Applicable) : Prop :=
  ∃ order : List Numbered, order.Perm l.zipIdx ∧ order.map Prod.fst = out ∧ order.Pairwise (Ahead env)

/-- What is demanded of the order of three candidates never runs in a circle. -/
def Coherent (env : ClassEnv) (l : List Applicable) : Prop :=
  ∀ x ∈ l.zipIdx, ∀ y ∈ l.zipIdx, ∀ z ∈ l.zipIdx, Ahead env x y → Ahead env y z → Ahead env x z

theorem Ahead.asymm {x y : Numbered} (hxy : Ahead env x y) : ¬ Ahead env y x := by
  intro hyx
  obtain ⟨hxy₁, hxy₂⟩ := hxy
  obtain ⟨hyx₁, hyx₂⟩ := hyx
  rw [rank_swap env x.1 y.1] at hxy₁ hyx₂
  cases h : rank env x.1 y.1 with
  | lt => exact hyx₁ h
  | gt => simp [h] at hxy₁
  | eq =>
    have hlt := hxy₂ h
    have hgt := hyx₂ (by simp [h])
    omega

theorem agrees_ahead {l : List Applicable} (h : Coherent env l) : Agrees env (Ahead env) l.zipIdx where
  better x _ y _ hplaces hlt := by
    refine ⟨?_, fun heq => ?_⟩
    · simp [rank_eq_gt_iff.mpr hlt]
    · simp [hlt] at heq
  kept _ _ _ _ hplaces hlt := ⟨hlt, fun _ => hplaces⟩
  trans := h

/-- Along a stable order the demands cannot run in a circle. -/
theorem IsStableOrder.coherent {l out : List Applicable} (h : IsStableOrder env l out) :
    Coherent env l := by
  obtain ⟨order, hperm, -, hsorted⟩ := h
  rw [List.pairwise_iff_getElem] at hsorted
  -- what stands ahead has the smaller index in the order
  have hindex : ∀ i j (hi : i < order.length) (hj : j < order.length),
      Ahead env order[i] order[j] → i < j := by
    intro i j hi hj hahead
    rcases Nat.lt_trichotomy i j with hlt | rfl | hgt
    · exact hlt
    · exact absurd hahead hahead.asymm
    · exact absurd (hsorted j i hj hi hgt) hahead.asymm
  intro x hx y hy z hz hxy hyz
  obtain ⟨i, hi, rfl⟩ := List.mem_iff_getElem.mp (hperm.mem_iff.mpr hx)
  obtain ⟨j, hj, rfl⟩ := List.mem_iff_getElem.mp (hperm.mem_iff.mpr hy)
  obtain ⟨k, hk, rfl⟩ := List.mem_iff_getElem.mp (hperm.mem_iff.mpr hz)
  exact hsorted i k hi hk (Nat.lt_trans (hindex i j hi hj hxy) (hindex j k hj hk hyz))

theorem ranked_isStableOrder {l : List Applicable} (h : Coherent env l) :
    IsStableOrder env l (ranked env l) := by
  obtain ⟨order, hperm, hmap, hsorted⟩ := exists_ranked (agrees_ahead h)
  exact ⟨order, hperm, hmap, hsorted⟩

theorem IsStableOrder.unique {l out out' : List Applicable} (h : IsStableOrder env l out)
    (h' : IsStableOrder env l out') : out = out' := by
  obtain ⟨order, hperm, rfl, hsorted⟩ := h
  obtain ⟨order', hperm', rfl, hsorted'⟩ := h'
  congr 1
  exact (hperm.trans hperm'.symm).eq_of_pairwise (fun x y _ _ hxy hyx => absurd hyx hxy.asymm) hsorted
    hsorted'

/-- In a stable order no candidate stands before a better one. -/
theorem IsStableOrder.bestFirst {l out : List Applicable} (h : IsStableOrder env l out) :
    out.Pairwise fun a b => rank env b a ≠ .lt := by
  obtain ⟨order, -, rfl, hsorted⟩ := h
  exact List.pairwise_map.mpr (hsorted.imp fun hahead => hahead.1)

end Applicable

namespace CallSite

/-- Ranking gives the one stable order of the applicable candidates, and there is a stable order exactly
where the comparison never runs in a circle. -/
theorem isStableOrder_iff (env : ClassEnv) (site : CallSite) (candidates : List MethodCandidate)
    (out : List Applicable) :
    Applicable.IsStableOrder env (site.applicable env (MethodRef.fits env site.depth) candidates) out ↔
      out = site.ranked env candidates ∧
        Applicable.Coherent env (site.applicable env (MethodRef.fits env site.depth) candidates) := by
  constructor
  · intro h
    exact ⟨h.unique (Applicable.ranked_isStableOrder h.coherent), h.coherent⟩
  · rintro ⟨rfl, h⟩
    exact Applicable.ranked_isStableOrder h

/-! ## A circle -/

/-- Two interfaces of which one extends the other, and an unrelated one. -/
def threeInterfaces : ClassEnv :=
  (ClassTable.mk [.empty "Wide" .interface,
    { ClassDef.empty "Narrow" .interface with interfaces := [.ofClass "Wide"] },
    .empty "Other" .interface]).toEnv

/-- A call with two arguments that every reference type takes. -/
def callWithNulls : CallSite := { name := "m", args := [.typed .null, .typed .null], depth := 8 }

/-- Three methods of which the second one is better than the third one and the third one better than the
first one. -/
def overlapping : List MethodCandidate :=
  [numberedMethod 0 [.ofClass "Other", .ofClass "Wide"] false,
    numberedMethod 1 [.ofClass "Narrow", .ofClass "Other"] false,
    numberedMethod 2 [.ofClass "Wide", .ofClass "Narrow"] false]

/-- Ranking puts the third method before the second one, which is better.  Starting with the second one
would put no method before a better one. -/
theorem overlapping_not_stable :
    (callWithNulls.ranked threeInterfaces overlapping).map (fun a => a.candidate.member)
        = [.method "A" 2, .method "A" 0, .method "A" 1] ∧
      (¬ Applicable.IsStableOrder threeInterfaces
        (callWithNulls.applicable threeInterfaces (MethodRef.fits threeInterfaces 8) overlapping)
        (callWithNulls.ranked threeInterfaces overlapping)) ∧
      ((callWithNulls.applicable threeInterfaces (MethodRef.fits threeInterfaces 8)
        overlapping).rotate 1).Pairwise fun a b => Applicable.rank threeInterfaces b a ≠ .lt := by
  refine ⟨by decide +kernel, fun h => ?_, by decide +kernel⟩
  have hworse : ¬ (callWithNulls.ranked threeInterfaces overlapping).Pairwise
      fun a b => Applicable.rank threeInterfaces b a ≠ .lt := by decide +kernel
  exact hworse h.bestFirst

end CallSite

end JavaSema
