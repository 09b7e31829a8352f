import JavaSema.Analysis.Overload
import Mathlib.Data.List.Perm.Basic

/-!
# The order of candidates

Ranking takes the best candidate out of the list again and again.  What is the best of a list is found by
one pass, which keeps the best so far and compares each further candidate with it.  The comparison is no
order: it passes over parameters of unrelated types, and so the first of three candidates may be better
than the second and the second better than the third while it does not tell the first from the third.

There are four groups.

* The comparison.  `rank_swap` says that it judges two candidates alike in both directions.
* The pass.  Candidates are numbered by their places in the list.  `exists_extractBest` and
  `exists_ranked` say that ranking sorts by every transitive relation that agrees with the comparison.
* Relations that agree.  `InOrder` looks at arities only, and the other one only asks for one candidate
  that beats all others.
* Call sites.  `ranked_sorts_and_selects_best` puts the two together.
-/

namespace JavaSema

namespace Applicable

variable {env : ClassEnv}

/-! ## The comparison -/

theorem compareFormals_swap (env : ClassEnv) (s t : JType) :
    compareFormals env t s = (compareFormals env s t).swap := by
  have hnames : ∀ a b : JType, (b.isReference && a.isReference && b.name != a.name)
      = (a.isReference && b.isReference && a.name != b.name) := by
    intro a b
    rw [Bool.and_comm b.isReference, bne_comm]
  unfold compareFormals
  simp only [hnames (s.subst [] true) (t.subst [] true)]
  cases (t.subst [] true).accepts env (s.subst [] true) <;>
    cases (s.subst [] true).accepts env (t.subst [] true)
  case true.true =>
    dsimp only
    split
    · exact (Nat.compare_swap _ _).symm
    · rfl
  all_goals rfl

/-- The verdicts on the parameters of two candidates, position by position. -/
def verdicts (env : ClassEnv) (a b : Applicable) : List Ordering :=
  (a.formals.zip b.formals).map fun (f, g) => compareFormals env f g

theorem verdicts_swap (env : ClassEnv) (a b : Applicable) :
    verdicts env b a = (verdicts env a b).map Ordering.swap := by
  unfold verdicts
  rw [List.map_zip_eq_zipWith, List.map_zip_eq_zipWith, List.map_zipWith, List.zipWith_comm]
  congr 1
  funext f g
  exact compareFormals_swap env f g

theorem contains_map_swap (l : List Ordering) (o : Ordering) :
    (l.map Ordering.swap).contains o = l.contains o.swap := by
  rw [List.contains_map, List.contains_eq_any_beq]
  congr 1
  funext p
  cases o <;> cases p <;> rfl

theorem compareSpecificity_swap (env : ClassEnv) (a b : Applicable) :
    compareSpecificity env b a = (compareSpecificity env a b).swap := by
  have hswap := verdicts_swap env a b
  unfold verdicts at hswap
  unfold compareSpecificity
  dsimp only
  rw [hswap, contains_map_swap, contains_map_swap, Ordering.swap_lt, Ordering.swap_gt]
  generalize List.map _ (a.formals.zip b.formals) = results
  cases results.contains .lt <;> cases results.contains .gt <;> rfl

/-- Two candidates are judged alike in both directions. -/
theorem rank_swap (env : ClassEnv) (a b : Applicable) : rank env b a = (rank env a b).swap := by
  unfold rank
  rw [Ordering.swap_then, Ordering.swap_then, compareSpecificity_swap, Nat.compare_swap]
  congr 1
  exact Std.OrientedCmp.eq_swap

theorem rank_eq_gt_iff {a b : Applicable} : rank env a b = .gt ↔ rank env b a = .lt := by
  rw [rank_swap env b a]
  cases rank env b a <;> simp

/-! ## The pass -/

/-- A candidate with its place in the list. -/
abbrev Numbered := Applicable × Nat

/-- The relation is transitive on the candidates and agrees with the comparison: of two candidates the
later one precedes the earlier one if it is strictly better, and else it is the other way round. -/
structure Agrees (env : ClassEnv) (R : Numbered → Numbered → Prop) (l : List Numbered) : Prop where
  /-- A later candidate that is better precedes. -/
  better : ∀ x ∈ l, ∀ y ∈ l, x.2 < y.2 → rank env y.1 x.1 = .lt → R y x
  /-- An earlier candidate precedes one that is not better. -/
  kept : ∀ x ∈ l, ∀ y ∈ l, x.2 < y.2 → rank env y.1 x.1 ≠ .lt → R x y
  /-- The relation is transitive. -/
  trans : ∀ x ∈ l, ∀ y ∈ l, ∀ z ∈ l, R x y → R y z → R x z

variable {R : Numbered → Numbered → Prop} {l : List Numbered}

/-- The pass finds a candidate that precedes all others, and leaves those in order. -/
theorem exists_extractBest (hR : Agrees env R l) (before after rest : List Numbered) (best : Numbered)
    (hmem : ∀ x ∈ before ++ best :: after ++ rest, x ∈ l)
    (hplaces : (before ++ best :: after ++ rest).Pairwise fun x y => x.2 < y.2)
    (hbest : ∀ x ∈ before ++ after, R best x) :
    ∃ first others,
      extractBest env (before.map Prod.fst) best.1 (after.map Prod.fst) (rest.map Prod.fst)
        = (first.1, others.map Prod.fst) ∧
      (first :: others).Perm (before ++ best :: after ++ rest) ∧
      (others.Pairwise fun x y => x.2 < y.2) ∧ ∀ x ∈ others, R first x := by
  induction rest generalizing before best after with
  | nil =>
    refine ⟨best, before ++ after, by simp [extractBest], ?_, ?_, hbest⟩
    · rw [List.append_nil]
      exact List.perm_middle.symm
    · exact List.Pairwise.sublist (by simp) hplaces
  | cons a rest ih =>
    have hlast : best.2 < a.2 := by
      rw [List.append_assoc] at hplaces
      have := (List.pairwise_append.mp hplaces).2.1
      exact List.rel_of_pairwise_cons this (by simp)
    have hbestl : best ∈ l := hmem best (by simp)
    have hal : a ∈ l := hmem a (by simp)
    simp only [List.map_cons, extractBest]
    by_cases hlt : rank env a.1 best.1 = .lt
    -- `a` precedes the best so far, and with it all that the best so far precedes
    · have hfirst : R a best := hR.better best hbestl a hal hlast hlt
      have hall : ∀ x ∈ (before ++ best :: after) ++ [], R a x := by
        intro x hx
        have hxl : x ∈ l := hmem x (by simp at hx ⊢; tauto)
        rcases eq_or_ne x best with rfl | hne
        · exact hfirst
        · exact hR.trans a hal best hbestl x hxl hfirst (hbest x (by simp at hx ⊢; tauto))
      have hsame : (before ++ best :: after) ++ a :: [] ++ rest = before ++ best :: after ++ a :: rest := by
        simp
      have h := ih (before ++ best :: after) [] a (by rwa [hsame]) (by rwa [hsame]) hall
      rw [hsame] at h
      simpa only [hlt, if_true, List.map_append, List.map_cons, List.map_nil] using h
    · have hkept : R best a := hR.kept best hbestl a hal hlast hlt
      have hall : ∀ x ∈ before ++ (after ++ [a]), R best x := by
        intro x hx
        rcases eq_or_ne x a with rfl | hne
        · exact hkept
        · exact hbest x (by simp [hne] at hx ⊢; exact hx)
      have hsame : before ++ best :: (after ++ [a]) ++ rest = before ++ best :: after ++ a :: rest := by
        simp
      have h := ih before (after ++ [a]) best (by rwa [hsame]) (by rwa [hsame]) hall
      rw [hsame] at h
      simpa only [hlt, if_false, List.map_append, List.map_cons, List.map_nil] using h

theorem exists_rankedUpTo (hR : Agrees env R l) (n : Nat) (pending : List Numbered)
    (hlength : pending.length ≤ n) (hmem : ∀ x ∈ pending, x ∈ l)
    (hplaces : pending.Pairwise fun x y => x.2 < y.2) :
    ∃ order : List Numbered, order.Perm pending ∧
      order.map Prod.fst = rankedUpTo env n (pending.map Prod.fst) ∧ order.Pairwise R := by
  induction n generalizing pending with
  | zero =>
    obtain rfl := List.length_eq_zero_iff.mp (Nat.le_zero.mp hlength)
    exact ⟨[], .nil, by simp [rankedUpTo], .nil⟩
  | succ n ih =>
    cases pending with
    | nil => exact ⟨[], .nil, by simp [rankedUpTo], .nil⟩
    | cons a rest =>
      obtain ⟨first, others, heq, hperm, hothers, hfirst⟩ :=
        exists_extractBest hR [] [] rest a (by simpa using hmem) (by simpa using hplaces) (by simp)
      simp only [List.nil_append, List.cons_append] at hperm
      have hlen : others.length ≤ n := by
        have := hperm.length_eq
        simp at this hlength
        omega
      obtain ⟨order, horder, hmap, hsorted⟩ := ih others hlen
        (fun x hx => hmem x (hperm.mem_iff.mp (List.mem_cons_of_mem _ hx))) hothers
      refine ⟨first :: order, (horder.cons first).trans hperm, ?_, ?_⟩
      · simp only [List.map_nil] at heq
        rw [List.map_cons, List.map_cons, rankedUpTo, heq, hmap]
      · exact List.pairwise_cons.mpr ⟨fun x hx => hfirst x (horder.mem_iff.mp hx), hsorted⟩

theorem pairwise_zipIdx (l : List Applicable) : l.zipIdx.Pairwise fun x y => x.2 < y.2 := by
  have h := List.pairwise_lt_range' (s := 0) (n := l.length) 1
  rw [← List.zipIdx_map_snd] at h
  exact List.pairwise_map.mp h

/-- Ranking sorts the numbered candidates by every transitive relation that agrees with the comparison. -/
theorem exists_ranked {l : List Applicable} (hR : Agrees env R l.zipIdx) :
    ∃ order : List Numbered, order.Perm l.zipIdx ∧ order.map Prod.fst = ranked env l ∧
      order.Pairwise R := by
  obtain ⟨order, hperm, hmap, hsorted⟩ :=
    exists_rankedUpTo hR l.length l.zipIdx (by simp) (fun x hx => hx) (pairwise_zipIdx l)
  rw [List.zipIdx_map_fst] at hmap
  exact ⟨order, hperm, hmap, hsorted⟩

/-! ## Relations that agree with the comparison -/

/-- Fixed arity comes before variable arity, and within each fewer parameters before more. -/
def InOrder (a b : Applicable) : Prop :=
  (b.candidate.definition.isVarargs = false → a.candidate.definition.isVarargs = false) ∧
    (a.candidate.definition.isVarargs = b.candidate.definition.isVarargs →
      a.candidate.definition.arity ≤ b.candidate.definition.arity)

theorem InOrder.trans {a b c : Applicable} (hab : InOrder a b) (hbc : InOrder b c) : InOrder a c := by
  obtain ⟨hab₁, hab₂⟩ := hab
  obtain ⟨hbc₁, hbc₂⟩ := hbc
  unfold InOrder
  cases ha : a.candidate.definition.isVarargs <;> cases hb : b.candidate.definition.isVarargs <;>
    cases hc : c.candidate.definition.isVarargs <;> simp_all
  all_goals omega

/-- A candidate that is not worse than another one is in order before it. -/
theorem inOrder_of_rank {a b : Applicable} (h : rank env a b ≠ .gt) : InOrder a b := by
  unfold rank at h
  unfold InOrder
  cases ha : a.candidate.definition.isVarargs <;> cases hb : b.candidate.definition.isVarargs
  case true.false => simp [ha, hb, compare, compareOfLessAndEq] at h
  case false.true => simp
  all_goals
    refine ⟨by simp, fun _ => ?_⟩
    by_contra hlt
    have hgt := Nat.compare_eq_gt.mpr (Nat.lt_of_not_le hlt)
    simp [ha, hb, hgt] at h

theorem agrees_inOrder (env : ClassEnv) (l : List Numbered) :
    Agrees env (fun x y => InOrder x.1 y.1) l where
  better x _ y _ _ h := by
    have hne : rank env y.1 x.1 ≠ .gt := by simp [h]
    exact inOrder_of_rank hne
  kept _ _ _ _ _ h := inOrder_of_rank (mt rank_eq_gt_iff.mp h)
  trans _ _ _ _ _ _ := InOrder.trans

/-- A candidate that is better than all others comes first. -/
theorem agrees_best {l : List Numbered} {best : Applicable}
    (h : ∀ x ∈ l, x.1 ≠ best → rank env best x.1 = .lt) :
    Agrees env (fun x y => y.1 = best → x.1 = best) l where
  better x hx y hy _ hlt := by
    intro hbest
    by_contra hne
    have := rank_eq_gt_iff.mpr (h y hy hne)
    rw [hbest, this] at hlt
    cases hlt
  kept x hx y hy _ hlt := by
    intro hbest
    by_contra hne
    exact hlt (hbest ▸ h x hx hne)
  trans _ _ _ _ _ _ hxy hyz := fun h => hxy (hyz h)

theorem ranked_perm (env : ClassEnv) (l : List Applicable) : (ranked env l).Perm l := by
  obtain ⟨order, hperm, hmap, -⟩ := exists_ranked (agrees_inOrder env l.zipIdx)
  have h := hperm.map Prod.fst
  rwa [hmap, List.zipIdx_map_fst] at h

theorem ranked_inOrder (env : ClassEnv) (l : List Applicable) : (ranked env l).Pairwise InOrder := by
  obtain ⟨order, -, hmap, hsorted⟩ := exists_ranked (agrees_inOrder env l.zipIdx)
  rw [← hmap]
  exact List.pairwise_map.mpr hsorted

/-- Ranking starts with the candidate that is better than all others, if there is one. -/
theorem head?_ranked {l : List Applicable} {best : Applicable} (hbest : best ∈ l)
    (h : ∀ a ∈ l, a ≠ best → rank env best a = .lt) : (ranked env l).head? = some best := by
  have hagrees : Agrees env (fun x y => y.1 = best → x.1 = best) l.zipIdx :=
    agrees_best fun x hx => h x.1 (List.fst_mem_of_mem_zipIdx hx)
  obtain ⟨order, hperm, hmap, hsorted⟩ := exists_ranked hagrees
  have hmem : best ∈ order.map Prod.fst := by
    rw [hmap]
    exact (ranked_perm env l).mem_iff.mpr hbest
  rw [← hmap]
  cases order with
  | nil => simp at hmem
  | cons first rest =>
    rw [List.map_cons, List.mem_cons] at hmem
    rcases hmem with rfl | hmem
    · rfl
    · obtain ⟨x, hx, hxbest⟩ := List.mem_map.mp hmem
      have := List.rel_of_pairwise_cons hsorted hx hxbest
      simp [this]

end Applicable

/-! ## Call sites -/

namespace CallSite

/-- The candidate that a call selects. -/
def select? (env : ClassEnv) (site : CallSite) (candidates : List MethodCandidate) :
    Option Applicable :=
  (site.ranked env candidates).head?

/-- Where all arguments have types, no test of method references is made. -/
theorem applicable_typed (env : ClassEnv) (refFits refFits' : RefTest) (site : CallSite)
    (params : List JType) (hargs : site.args = params.map .typed) (candidates : List MethodCandidate) :
    site.applicable env refFits candidates = site.applicable env refFits' candidates := by
  have hform : ∀ candidate formals isSpread, site.tryForm env refFits candidate formals isSpread
      = site.tryForm env refFits' candidate formals isSpread := by
    intro candidate formals isSpread
    unfold tryForm
    simp only [hargs, List.zip_map_right, List.all_map]
    rfl
  unfold applicable
  congr 1
  funext candidate
  simp only [tryCandidate, hform]

theorem applicable_perm (env : ClassEnv) (refFits : RefTest) (site : CallSite)
    {candidates listed : List MethodCandidate} (h : listed.Perm candidates) :
    (site.applicable env refFits listed).Perm (site.applicable env refFits candidates) := by
  unfold applicable
  exact (h.filter _).filterMap _

end CallSite

/-- A method reference selects as a call does whose arguments have the types of the function's
parameters. -/
theorem MethodRef.best?_eq_select? (env : ClassEnv) (depth : Nat) (ref : MethodRef) (name : String)
    (params : List JType) (candidates : List MethodCandidate) :
    ref.best? env depth name params candidates
      = CallSite.select? env { name, args := params.map .typed, typeArgs := ref.typeArgs, depth }
          candidates := by
  rw [CallSite.select?, CallSite.ranked,
    CallSite.applicable_typed env _ (fun _ _ => false) _ params rfl]
  rfl

namespace CallSite

/-- Ranking rearranges the applicable candidates so that fixed arity comes before variable arity and,
within each, fewer parameters before more.  A candidate that is better than every other applicable one
is selected, in whatever order the candidates are listed. -/
theorem ranked_sorts_and_selects_best (env : ClassEnv) (site : CallSite)
    (candidates : List MethodCandidate) :
    (site.ranked env candidates).Perm
        (site.applicable env (MethodRef.fits env site.depth) candidates) ∧
      (site.ranked env candidates).Pairwise Applicable.InOrder ∧
      ∀ best ∈ site.applicable env (MethodRef.fits env site.depth) candidates,
        (∀ a ∈ site.applicable env (MethodRef.fits env site.depth) candidates, a ≠ best →
          Applicable.rank env best a = .lt) →
        ∀ listed : List MethodCandidate, listed.Perm candidates →
          site.select? env listed = some best := by
  refine ⟨Applicable.ranked_perm env _, Applicable.ranked_inOrder env _, ?_⟩
  intro best hbest hbeats listed hlisted
  have hperm := applicable_perm env (MethodRef.fits env site.depth) site hlisted
  apply Applicable.head?_ranked (hperm.mem_iff.mpr hbest)
  intro a ha
  exact hbeats a (hperm.mem_iff.mp ha)

/-- A method `m` of the class `A` with these parameters. -/
def numberedMethod (index : Nat) (params : List JType) (isVarargs : Bool) : MethodCandidate :=
  { member := .method "A" index
    definition := { name := "m", params, returnType := .void, isVarargs } }

/-- A class and one that extends it. -/
def baseAndSub : ClassEnv :=
  (ClassTable.mk [.empty "Base" .ordinary,
    { ClassDef.empty "Sub" .ordinary with superclass := some (.ofClass "Base") }]).toEnv

/-- A call with an object of the class that extends the other one. -/
def callWithSub : CallSite := { name := "m", args := [.typed (.ofClass "Sub")], depth := 8 }

/-- Three methods that take the object, the first one with variable arity. -/
def takeSub : List MethodCandidate :=
  [numberedMethod 0 [(JType.ofClass "Sub").arrayOf 1] true, numberedMethod 1 [.ofClass "Base"] false,
    numberedMethod 2 [.ofClass "Sub"] false]

/-- The method with the more specific parameter is selected, be it listed last or first. -/
theorem sub_selected :
    ∃ best ∈ callWithSub.applicable baseAndSub (MethodRef.fits baseAndSub 8) takeSub,
      best.candidate.member = .method "A" 2 ∧
        callWithSub.select? baseAndSub takeSub = some best ∧
        callWithSub.select? baseAndSub takeSub.reverse = some best := by
  have hlength :
      (callWithSub.applicable baseAndSub (MethodRef.fits baseAndSub 8) takeSub).length = 3 := by
    decide +kernel
  have hmembers :
      (callWithSub.applicable baseAndSub (MethodRef.fits baseAndSub 8) takeSub).map
        (fun a => a.candidate.member) = [.method "A" 0, .method "A" 1, .method "A" 2] := by
    decide +kernel
  have hranks :
      (callWithSub.applicable baseAndSub (MethodRef.fits baseAndSub 8) takeSub).map
        (fun a => (callWithSub.applicable baseAndSub (MethodRef.fits baseAndSub 8) takeSub)[2]?.map
          fun best => Applicable.rank baseAndSub best a) = [some .lt, some .lt, some .eq] := by
    decide +kernel
  obtain ⟨spread, onBase, best, hlist⟩ := List.length_eq_three.mp hlength
  have hbest : best ∈ callWithSub.applicable baseAndSub (MethodRef.fits baseAndSub 8) takeSub := by
    simp [hlist]
  have hbeats : ∀ a ∈ callWithSub.applicable baseAndSub (MethodRef.fits baseAndSub 8) takeSub,
      a ≠ best → Applicable.rank baseAndSub best a = .lt := by
    rw [hlist] at hranks ⊢
    simp_all
  have hselect := (ranked_sorts_and_selects_best baseAndSub callWithSub takeSub).2.2 best hbest hbeats
  refine ⟨best, hbest, ?_, hselect _ (.refl _), hselect _ (List.reverse_perm _)⟩
  rw [hlist] at hmembers
  simp_all

end CallSite

end JavaSema
