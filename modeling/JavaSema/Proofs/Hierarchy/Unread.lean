import JavaSema.Proofs.Hierarchy.Walk

/-!
# The classes that a walk over supertypes depends on

A walk asks for a class only under the names that it comes to.  A class of another name may be declared,
or replaced, and the walk stays the same.

There are two groups.

* Names.  `JType.heads` are the names that a walk asks for when it comes to a type, and
  `ClassEnv.asksFor` those of the whole walk.
* The walk.  `closure_same` compares the walks in two environments that differ under one name only.
-/

namespace JavaSema

/-! ## Names -/

namespace JType

mutual

/-- The names that a walk asks for at the type: that of its class, and for a type variable those of its
bounds. -/
def heads : JType → List String
  | { name, upper, var, wildcard, .. } =>
    if var.isSome && !wildcard then headsList upper else [name]

/-- The names that a walk asks for at the types. -/
def headsList : List JType → List String
  | [] => []
  | t :: ts => t.heads ++ headsList ts

end

theorem heads_eq (t : JType) : t.heads = if t.isTypeVar then headsList t.upper else [t.name] := by
  cases t
  rfl

theorem headsList_eq_flatMap (ts : List JType) : headsList ts = ts.flatMap heads := by
  induction ts with
  | nil => rfl
  | cons t ts ih => rw [headsList, ih, List.flatMap_cons]

theorem headsList_append (ts us : List JType) :
    headsList (ts ++ us) = headsList ts ++ headsList us := by
  simp only [headsList_eq_flatMap, List.flatMap_append]

end JType

namespace ClassEnv

open JType

/-- The names that the walk over the supertypes of the type asks for. -/
def asksFor (env : ClassEnv) (t : JType) : List String :=
  headsList (startingPoints t ++ (env.closure t).flatMap Instantiation.supertypes)

/-! ## The walk -/

variable {env env' : ClassEnv} {name : String}

/-- The environments have the same classes under all names but one. -/
def SameBut (name : String) (env env' : ClassEnv) : Prop := ∀ n, n ≠ name → env'.find? n = env.find? n

/-- The walk goes to a class that it has not seen, and what is left was in the queue. -/
theorem settle_some {seen : List String} {queue : List JType} {t : JType} {d : ClassDef}
    {rest : List JType} (h : env.settle seen queue = some (t, d, rest)) :
    t.name ∉ seen ∧ env.find? t.name = some d ∧ headsList rest ⊆ headsList queue := by
  fun_induction settle env seen queue with
  | case1 => cases h
  | case2 s queue hvar ih =>
    obtain ⟨hseen, hd, hrest⟩ := ih h
    refine ⟨hseen, hd, fun n hn => ?_⟩
    have hmem := hrest hn
    rw [headsList_append, List.mem_append] at hmem
    rw [headsList, heads_eq, if_pos hvar, List.mem_append]
    exact hmem.symm
  | case3 s queue hvar hs ih | case4 s queue hvar hs hfind ih =>
    obtain ⟨hseen, hd, hrest⟩ := ih h
    exact ⟨hseen, hd, fun n hn => List.mem_append_right _ (hrest hn)⟩
  | case5 s queue hvar hs c hfind =>
    cases h
    exact ⟨by simpa using hs, hfind, List.subset_append_right _ _⟩

theorem settle_same (h : SameBut name env env') {seen : List String} {queue : List JType}
    (hqueue : name ∉ headsList queue) : env'.settle seen queue = env.settle seen queue := by
  fun_induction settle env seen queue with
  | case1 => rw [settle]
  | case2 t rest hvar ih =>
    rw [settle, if_pos hvar]
    apply ih
    rw [headsList, heads_eq, if_pos hvar, List.mem_append, not_or] at hqueue
    rw [headsList_append, List.mem_append, not_or]
    exact hqueue.symm
  | case3 t rest hvar hseen ih =>
    rw [headsList, List.mem_append, not_or] at hqueue
    rw [settle, if_neg hvar, if_pos hseen, ih hqueue.2]
  | case4 t rest hvar hseen hfind ih =>
    rw [headsList, heads_eq, if_neg hvar, List.singleton_append, List.mem_cons, not_or] at hqueue
    rw [settle, if_neg hvar, if_neg hseen, h _ (Ne.symm hqueue.1), hfind]
    exact ih hqueue.2
  | case5 t rest hvar hseen d hfind =>
    rw [headsList, heads_eq, if_neg hvar, List.singleton_append, List.mem_cons, not_or] at hqueue
    rw [settle, if_neg hvar, if_neg hseen, h _ (Ne.symm hqueue.1), hfind]

theorem closureFrom_of_none {seen : List String} {queue : List JType}
    (h : env.settle seen queue = none) (budget : Nat) : env.closureFrom budget seen queue = [] := by
  cases budget with
  | zero => rfl
  | succ budget => rw [closureFrom, h]

/-- The walks are the same, whatever budget beyond what is unseen they have. -/
theorem closureFrom_same (h : SameBut name env env') {budget budget' : Nat} {seen : List String}
    {queue : List JType} (hbudget : env.unseen seen ≤ budget) (hbudget' : env'.unseen seen ≤ budget')
    (hqueue : name ∉ headsList queue)
    (hclosure : ∀ i ∈ env.closureFrom budget seen queue, name ∉ headsList i.supertypes) :
    env'.closureFrom budget' seen queue = env.closureFrom budget seen queue := by
  have hsame : env'.settle seen queue = env.settle seen queue := settle_same h hqueue
  induction budget generalizing budget' seen queue with
  | zero =>
    cases hsettle : env.settle seen queue with
    | none =>
      rw [closureFrom_of_none hsettle, closureFrom_of_none (hsame.trans hsettle)]
    | some found =>
      obtain ⟨t, d, rest⟩ := found
      obtain ⟨hseen, hd, -⟩ := settle_some hsettle
      exact absurd (mem_seen_of_unseen_eq_zero (Nat.le_zero.mp hbudget) hd) hseen
  | succ budget ih =>
    cases hsettle : env.settle seen queue with
    | none =>
      rw [closureFrom_of_none hsettle, closureFrom_of_none (hsame.trans hsettle)]
    | some found =>
      obtain ⟨t, d, rest⟩ := found
      obtain ⟨hseen, hd, hrest⟩ := settle_some hsettle
      obtain ⟨-, hd', -⟩ := settle_some (hsame.trans hsettle)
      have hlt := unseen_cons_lt (mem_names_of_find? hd) hseen
      have hlt' := unseen_cons_lt (mem_names_of_find? hd') hseen
      obtain ⟨left, rfl⟩ : ∃ left, budget' = left + 1 := ⟨budget' - 1, by omega⟩
      rw [closureFrom, hsettle] at hclosure
      rw [closureFrom, closureFrom, hsame, hsettle]
      obtain ⟨hfirst, hclosure⟩ := List.forall_mem_cons.mp hclosure
      have hnext : name ∉ headsList (rest ++ (Instantiation.of t d).supertypes) := by
        rw [headsList_append, List.mem_append, not_or]
        exact ⟨fun hmem => hqueue (hrest hmem), hfirst⟩
      exact congrArg _ (ih (by omega) (by omega) hnext hclosure (settle_same h hnext))

/-- A class under a name that the walk does not ask for makes no difference. -/
theorem closure_same (h : SameBut name env env') {t : JType} (hname : name ∉ env.asksFor t) :
    env'.closure t = env.closure t := by
  rw [asksFor, headsList_append, List.mem_append, not_or] at hname
  apply closureFrom_same h
  · exact Nat.le_of_eq (unseen_nil env)
  · exact Nat.le_of_eq (unseen_nil env')
  · exact hname.1
  · intro i hi hmem
    rw [headsList_eq_flatMap] at hmem
    obtain ⟨s, hs, hn⟩ := List.mem_flatMap.mp hmem
    apply hname.2
    rw [headsList_eq_flatMap]
    exact List.mem_flatMap.mpr ⟨s, List.mem_flatMap.mpr ⟨i, hi, hs⟩, hn⟩

end ClassEnv

end JavaSema
