import JavaSema.Proofs.Assign.Preorder
import JavaSema.Proofs.Hierarchy.Closed
import JavaSema.Proofs.Inference.Demands
import JavaSema.Proofs.Merge.Marks

/-!
# What a run of an inference keeps

An inference starts with the type arguments that are written out.  Then it unifies types, one pair after
the other, in any order.  What was written out stays as it is, a target adds bindings and changes none,
and a variable that meets classes and arrays directly is bound to a type that accepts each of them.

There are four groups.

* Finding what is bound, after one variable is bound and after a list of demands.
* Calls.  `afterAll` makes them one after the other.  One call keeps what is written out
  (`isWritten_after`), binds variables of the inference only (`isSome_find?_after`) and leaves what it
  does not meet (`find?_after_of_not_meets`).
* The start, at which all bindings are written out.
* Widening.  `Directly` lists the types that a variable meets, and `Widened` is the invariant that its
  binding is above all of them.
-/

namespace JavaSema

namespace JType

/-- A class or an array without type arguments, whatever its marks. -/
def IsErasedReference (t : JType) : Prop := ∃ s, ErasedReference s ∧ t.asInferred = s.asInferred

theorem ErasedReference.mergeable {t : JType} (h : ErasedReference t) : Mergeable t := by
  cases h with
  | ofClass name n hname => exact .ofClass name n hname
  | primitive p n hn => exact .primitive p n hn

theorem ErasedReference.isBindable {t : JType} (h : ErasedReference t) : t.IsBindable := by
  obtain ⟨name, dims, rfl, hname⟩ := h.exists_erased
  rcases hname with hname | ⟨⟨p, rfl⟩, hdims⟩
  · obtain ⟨⟨hprim, hvoid⟩, hnull⟩ := isElementName_of_isClassName hname
    constructor <;> simp [isPrimitive, hprim, hvoid, hnull]
  · have hdims : 0 < dims := hdims
    have hzero : dims ≠ 0 := by omega
    constructor <;> simp [isPrimitive, hdims, hzero]

theorem IsErasedReference.isBindable {t : JType} (h : t.IsErasedReference) : t.IsBindable := by
  obtain ⟨s, hs, hts⟩ := h
  have hs := hs.isBindable
  constructor
  · exact (eq_of_marks isPrimitive hts fun _ _ _ => rfl).trans hs.primitive
  · exact (eq_of_marks isNull hts fun _ _ _ => rfl).trans hs.null
  · exact (eq_of_marks isVoid hts fun _ _ _ => rfl).trans hs.void
  · exact (eq_of_marks unresolved hts fun _ _ _ => rfl).trans hs.unresolved
  · exact (eq_of_marks wildcard hts fun _ _ _ => rfl).trans hs.wildcard

end JType

namespace Inference

open JType

variable {env : ClassEnv} {i : Inference} {v : String}

/-! ## Finding what is bound -/

theorem find?_bind_of_ne {u : String} (h : v ≠ u) (t : JType) :
    (i.bind env u t).bindings.find? v = i.bindings.find? v := by
  unfold bind
  split
  · split
    · rfl
    · exact (Bindings.find?_insert _ _ _ _).trans (if_neg h)
  · exact (Bindings.find?_insert _ _ _ _).trans (if_neg h)

theorem find?_bind_of_none (h : i.bindings.find? v = none) (t : JType) :
    (i.bind env v t).bindings.find? v = some t.asInferred := by
  simp only [bind, h]
  exact (Bindings.find?_insert _ _ _ _).trans (if_pos rfl)

theorem find?_bind_of_some {old : JType} (h : i.bindings.find? v = some old)
    (hbinding : old.binding ≠ .explicit) (t : JType) :
    (i.bind env v t).bindings.find? v = some (old.merge env t).asInferred := by
  simp only [bind, h, if_neg hbinding]
  exact (Bindings.find?_insert _ _ _ _).trans (if_pos rfl)

theorem bind_of_explicit {old : JType} (h : i.bindings.find? v = some old)
    (hbinding : old.binding = .explicit) (t : JType) : i.bind env v t = i := by
  simp only [bind, h, if_pos hbinding]

/-- After it is bound, a variable has a binding. -/
theorem isSome_find?_bind (t : JType) : ((i.bind env v t).bindings.find? v).isSome = true := by
  cases h : i.bindings.find? v with
  | none => rw [find?_bind_of_none h, Option.isSome_some]
  | some old =>
    by_cases hbinding : old.binding = .explicit
    · rw [bind_of_explicit h hbinding, h, Option.isSome_some]
    · rw [find?_bind_of_some h hbinding, Option.isSome_some]

theorem find?_bindAll_of_notMem {ds : List (String × JType)} (h : v ∉ ds.map Prod.fst) :
    (i.bindAll env ds).bindings.find? v = i.bindings.find? v := by
  induction ds generalizing i with
  | nil => rfl
  | cons d ds ih =>
    rw [List.map_cons, List.mem_cons, not_or] at h
    exact (ih (i := i.bind env d.1 d.2) h.2).trans (find?_bind_of_ne h.1 d.2)

theorem isSome_find?_bindAll_iff {ds : List (String × JType)} :
    ((i.bindAll env ds).bindings.find? v).isSome = true
      ↔ (i.bindings.find? v).isSome = true ∨ v ∈ ds.map Prod.fst := by
  induction ds generalizing i with
  | nil => simp [bindAll]
  | cons d ds ih =>
    show ((bindAll env (i.bind env d.1 d.2) ds).bindings.find? v).isSome = true ↔ _
    rw [ih, List.map_cons, List.mem_cons]
    by_cases hd : v = d.1
    · subst hd
      simp [isSome_find?_bind]
    · rw [find?_bind_of_ne hd]
      simp [hd]

/-- A target is looked at only for what is not bound yet. -/
theorem find?_addOpen (found b : Bindings) (v : String) :
    (addOpen found b).find? v = (b.find? v).or (found.find? v) := by
  induction found generalizing b with
  | nil => exact (Option.or_none).symm
  | cons p found ih =>
    obtain ⟨u, t⟩ := p
    show (addOpen found (if (b.find? u).isSome then b else b.insert u t)).find? v = _
    rw [ih, Bindings.find?_cons]
    split
    · rename_i hu
      by_cases hv : v = u
      · subst hv
        obtain ⟨s, hs⟩ := Option.isSome_iff_exists.mp hu
        simp [hs]
      · rw [if_neg hv]
    · rename_i hu
      rw [Bindings.find?_insert]
      by_cases hv : v = u
      · subst hv
        have hnone : b.find? v = none := by simpa using hu
        simp [hnone]
      · rw [if_neg hv, if_neg hv]

/-! ## Calls -/

/-- One of the calls that bind variables. -/
inductive Unification where
  /-- The declared type of a parameter meets the type of its argument. -/
  | argument (formal actual : JType)
  /-- The generic type meets the type that the result is assigned to. -/
  | target (generic expected : JType)

/-- The inference after the call. -/
def after (env : ClassEnv) (i : Inference) : Unification → Inference
  | .argument formal actual => i.unify env formal actual
  | .target generic expected => i.unifyTarget env generic expected

/-- The inference after the calls, one after the other. -/
def afterAll (env : ClassEnv) (i : Inference) (us : List Unification) : Inference :=
  us.foldl (after env) i

theorem afterAll_concat (us : List Unification) (u : Unification) :
    i.afterAll env (us ++ [u]) = (i.afterAll env us).after env u :=
  List.foldl_append

/-- The inference before anything is bound. -/
def blank (i : Inference) : Inference := { i with bindings := [] }

@[simp] theorem find?_blank (i : Inference) (v : String) : i.blank.bindings.find? v = none := rfl

theorem frame_after (env : ClassEnv) (i : Inference) (u : Unification) :
    (i.after env u).vars = i.vars ∧ (i.after env u).depth = i.depth := by
  cases u with
  | argument formal actual =>
    rw [after, unify_eq_bindAll]
    exact frame_bindAll env i _
  | target generic expected =>
    rw [after, unifyTarget_eq]
    exact ⟨rfl, rfl⟩

theorem frame_afterAll (env : ClassEnv) (i : Inference) (us : List Unification) :
    (i.afterAll env us).vars = i.vars ∧ (i.afterAll env us).depth = i.depth := by
  induction us generalizing i with
  | nil => exact ⟨rfl, rfl⟩
  | cons u us ih =>
    obtain ⟨hvars, hdepth⟩ := frame_after env i u
    obtain ⟨hvars', hdepth'⟩ := ih (i.after env u)
    exact ⟨hvars'.trans hvars, hdepth'.trans hdepth⟩

/-- The call binds the variable where nothing is bound before. -/
def Meets (env : ClassEnv) (i : Inference) (u : Unification) (v : String) : Prop :=
  ((i.blank.after env u).bindings.find? v).isSome = true

/-- What a target finds on its own. -/
def found (env : ClassEnv) (i : Inference) (generic expected : JType) : Bindings :=
  (bindAll env i.blank (i.targetDemands env generic expected)).bindings

theorem find?_unifyTarget (generic expected : JType) :
    (i.unifyTarget env generic expected).bindings.find? v
      = (i.bindings.find? v).or ((i.found env generic expected).find? v) := by
  rw [unifyTarget_eq]
  exact find?_addOpen _ _ v

/-- A call that does not meet a variable leaves it as it is. -/
theorem find?_after_of_not_meets {u : Unification} (h : ¬ Meets env i u v) :
    (i.after env u).bindings.find? v = i.bindings.find? v := by
  cases u with
  | argument formal actual =>
    rw [after, unify_eq_bindAll]
    refine find?_bindAll_of_notMem fun hv => h ?_
    rw [Meets, after, unify_eq_bindAll]
    exact isSome_find?_bindAll_iff.mpr (.inr hv)
  | target generic expected =>
    have hfound : (i.found env generic expected).find? v = none := by
      rw [Meets, after, find?_unifyTarget, find?_blank, Option.none_or] at h
      exact Option.not_isSome_iff_eq_none.mp h
    rw [after, find?_unifyTarget, hfound, Option.or_none]

/-- A target changes no binding. -/
theorem find?_unifyTarget_of_some {t : JType} (h : i.bindings.find? v = some t)
    (generic expected : JType) :
    (i.unifyTarget env generic expected).bindings.find? v = some t := by
  rw [find?_unifyTarget, h, Option.some_or]

/-- The variable is bound to the type, which was written out. -/
def IsWritten (i : Inference) (v : String) (t : JType) : Prop :=
  i.bindings.find? v = some t ∧ t.binding = .explicit

theorem isWritten_bind {u : String} {s t : JType} :
    (i.bind env u s).IsWritten v t ↔ i.IsWritten v t := by
  have hinferred : ∀ r : JType, r.asInferred.binding ≠ .explicit := fun r => nofun
  unfold IsWritten
  by_cases hv : v = u
  · subst hv
    cases hold : i.bindings.find? v with
    | none =>
      rw [find?_bind_of_none hold]
      constructor
      · rintro ⟨h, hbinding⟩
        cases h
        exact absurd hbinding (hinferred s)
      · rintro ⟨h, -⟩
        cases h
    | some old =>
      by_cases hbinding : old.binding = .explicit
      · rw [bind_of_explicit hold hbinding, hold]
      · rw [find?_bind_of_some hold hbinding]
        constructor
        · rintro ⟨h, ht⟩
          cases h
          exact absurd ht (hinferred _)
        · rintro ⟨h, ht⟩
          cases h
          exact absurd ht hbinding
  · rw [find?_bind_of_ne hv]

theorem isWritten_bindAll {ds : List (String × JType)} {t : JType} :
    (i.bindAll env ds).IsWritten v t ↔ i.IsWritten v t := by
  induction ds generalizing i with
  | nil => exact Iff.rfl
  | cons d ds ih => exact (ih (i := i.bind env d.1 d.2)).trans isWritten_bind

/-- No call adds, changes or drops a binding that was written out. -/
theorem isWritten_after {u : Unification} {t : JType} :
    (i.after env u).IsWritten v t ↔ i.IsWritten v t := by
  cases u with
  | argument formal actual =>
    rw [after, unify_eq_bindAll]
    exact isWritten_bindAll
  | target generic expected =>
    -- what a target finds is bound without anything written out
    have hfound : ∀ s, (i.found env generic expected).find? v = some s → s.binding ≠ .explicit :=
      fun s hs hbinding => by
        have hblank : i.blank.IsWritten v s := isWritten_bindAll.mp ⟨hs, hbinding⟩
        cases hblank.1
    rw [after, IsWritten, IsWritten, find?_unifyTarget]
    cases i.bindings.find? v with
    | none =>
      rw [Option.none_or]
      exact ⟨fun h => absurd h.2 (hfound t h.1), nofun⟩
    | some s => rfl

theorem isWritten_afterAll {us : List Unification} {t : JType} :
    (i.afterAll env us).IsWritten v t ↔ i.IsWritten v t := by
  induction us generalizing i with
  | nil => exact Iff.rfl
  | cons u us ih => exact (ih (i := i.after env u)).trans isWritten_after

theorem mem_vars_of_targetDemands {generic expected : JType} {d : String × JType}
    (hd : d ∈ i.targetDemands env generic expected) : d.1 ∈ i.vars := by
  rw [targetDemands] at hd
  split at hd
  · cases hd
  · split at hd
    · cases hd
    · exact mem_vars_of_demandsWithin hd

/-- A call binds variables of the inference only. -/
theorem isSome_find?_after {u : Unification}
    (h : ((i.after env u).bindings.find? v).isSome = true) :
    (i.bindings.find? v).isSome = true ∨ v ∈ i.vars := by
  cases u with
  | argument formal actual =>
    rw [after, unify_eq_bindAll, isSome_find?_bindAll_iff] at h
    refine h.imp_right fun hv => ?_
    obtain ⟨d, hd, rfl⟩ := List.mem_map.mp hv
    exact mem_vars_of_demandsWithin hd
  | target generic expected =>
    rw [after, find?_unifyTarget, Option.isSome_or, Bool.or_eq_true, found,
      isSome_find?_bindAll_iff] at h
    refine h.imp_right fun hv => ?_
    obtain ⟨d, hd, rfl⟩ := List.mem_map.mp (hv.resolve_left (by simp))
    exact mem_vars_of_targetDemands hd

theorem isSome_find?_afterAll {us : List Unification}
    (h : ((i.afterAll env us).bindings.find? v).isSome = true) :
    (i.bindings.find? v).isSome = true ∨ v ∈ i.vars := by
  induction us generalizing i with
  | nil => exact .inl h
  | cons u us ih =>
    rcases ih h with h | hv
    · exact isSome_find?_after h
    · exact .inr ((frame_after env i u).1 ▸ hv)

/-! ## The start -/

/-- A type argument is written out for the variable. -/
def HasWitness (params : List TypeParam) (args : List JType) (v : String) : Prop :=
  args.length = params.length ∧ v ∈ params.map TypeParam.name

/-- The bindings that are written out. -/
def writtenBindings (params : List TypeParam) (args : List JType) : List (String × JType) :=
  (params.zip args).map fun (p, a) => (p.name, a.boxed.withBinding .explicit)

theorem bindings_bindWritten (vars params : List TypeParam) (args : List JType) (depth : Nat) :
    ((start vars depth).bindWritten params args).bindings
      = if args.length = params.length then Bindings.ofList (writtenBindings params args) else [] := by
  rw [bindWritten]
  split
  · rw [writtenBindings, Bindings.ofList, List.foldl_map]
    rfl
  · rfl

theorem isSome_find?_bindWritten_iff {vars params : List TypeParam} {args : List JType} {depth : Nat} :
    (((start vars depth).bindWritten params args).bindings.find? v).isSome = true
      ↔ HasWitness params args v := by
  rw [bindings_bindWritten, HasWitness]
  split
  · rename_i hlength
    have hnames : (writtenBindings params args).map Prod.fst = params.map TypeParam.name := by
      rw [writtenBindings, List.map_map]
      show (params.zip args).map (TypeParam.name ∘ Prod.fst) = _
      rw [← List.map_map, List.map_fst_zip (Nat.le_of_eq hlength.symm)]
    rw [← hnames]
    constructor
    · intro h
      obtain ⟨t, ht⟩ := Option.isSome_iff_exists.mp h
      exact ⟨hlength, List.mem_map_of_mem (Bindings.mem_of_find?_ofList ht)⟩
    · rintro ⟨-, hv⟩
      exact Option.isSome_iff_ne_none.mpr (Bindings.find?_ofList_ne_none hv)
  · rename_i hlength
    simp [hlength, Bindings.find?]

/-- At the start all bindings are written out. -/
theorem isWritten_bindWritten_iff {vars params : List TypeParam} {args : List JType} {depth : Nat}
    {t : JType} :
    ((start vars depth).bindWritten params args).IsWritten v t
      ↔ ((start vars depth).bindWritten params args).bindings.find? v = some t := by
  rw [IsWritten, bindings_bindWritten]
  refine and_iff_left_of_imp fun h => ?_
  split at h
  · obtain ⟨q, -, hq⟩ := List.mem_map.mp (Bindings.mem_of_find?_ofList h)
    cases hq
    rfl
  · cases h

theorem vars_bindWritten (i : Inference) (params : List TypeParam) (args : List JType) :
    (i.bindWritten params args).vars = i.vars := by
  rw [bindWritten]
  split <;> rfl

/-! ## Widening -/

/-- A type variable meets a type that can be bound. -/
theorem unify_var {formal a : JType} (hformal : formal.isTypeVar = true) (hvar : formal.var = some v)
    (hdims : formal.dims = 0) (hv : v ∈ i.vars) (ha : a.IsBindable) :
    i.unify env formal a = i.bind env v a := by
  have htaken : (a.isNull || a.isVoid || a.unresolved) = false := ha.taken 0 a.member
  have hmem : i.vars.contains v = true := by simpa using hv
  rw [unify, unifyWithin]
  simp only [htaken, hformal, hvar, hdims, stripDims?, hmem, ha.boxed_readType, Bool.false_eq_true,
    if_false, if_true]

/-- The variable met these types in the calls, one after the other: classes and arrays without type
arguments, each as the argument of a parameter of its own type, and nothing else.  A target that comes
after one of them finds the variable bound. -/
inductive Directly (env : ClassEnv) (i : Inference) (v : String) :
    List Unification → List JType → Prop where
  /-- There was no call yet. -/
  | start : Directly env i v [] []
  /-- The variable is the declared type of a parameter. -/
  | argument {us : List Unification} {as : List JType} {formal a : JType}
      (before : Directly env i v us as) (isTypeVar : formal.isTypeVar = true)
      (var : formal.var = some v) (dims : formal.dims = 0) (erased : a.IsErasedReference) :
      Directly env i v (us ++ [.argument formal a]) (as ++ [a])
  /-- The call does not meet the variable. -/
  | other {us : List Unification} {as : List JType} {u : Unification}
      (before : Directly env i v us as) (away : ¬ Meets env i u v) :
      Directly env i v (us ++ [u]) as
  /-- The variable is bound before the target. -/
  | target {us : List Unification} {as : List JType} {generic expected : JType}
      (before : Directly env i v us as) (bound : as ≠ []) :
      Directly env i v (us ++ [.target generic expected]) as

/-- The variable is unbound if it met nothing, and else its binding is above all that it met. -/
def Widened (env : ClassEnv) (b : Bindings) (v : String) (as : List JType) : Prop :=
  (as = [] ∧ b.find? v = none) ∨
    ∃ s : JType, b.find? v = some s.asInferred ∧ Mergeable s ∧
      ∀ a ∈ as, ∃ r, Mergeable r ∧ a.asInferred = r.asInferred ∧ Above env s r

/-- One more type is merged into the binding. -/
theorem Widened.bind (hplain : env.PlainSupertypes) {as : List JType}
    (h : Widened env i.bindings v as) {a : JType} (ha : a.IsErasedReference) :
    Widened env (i.bind env v a).bindings v (as ++ [a]) := by
  obtain ⟨r, hr, har⟩ := ha
  rcases h with ⟨rfl, hnone⟩ | ⟨s, hs, hmerge, habove⟩
  · refine .inr ⟨r, ?_, hr.mergeable, ?_⟩
    · rw [find?_bind_of_none hnone, har]
    · intro b hb
      obtain rfl := List.mem_singleton.mp hb
      exact ⟨r, hr.mergeable, har, above_refl env r⟩
  · obtain ⟨hresult, hnew, hkeep⟩ := merge_above hplain hmerge hr.mergeable
    refine .inr ⟨merge env s r, ?_, hresult, ?_⟩
    · have hmarks : (merge env s.asInferred a).asInferred = (merge env s r).asInferred :=
        merge_marks rfl har
      rw [find?_bind_of_some hs nofun, hmarks]
    · intro b hb
      rcases List.mem_append.mp hb with hb | hb
      · obtain ⟨q, hq, hbq, hsq⟩ := habove b hb
        exact ⟨q, hq, hbq, hkeep q hq hsq⟩
      · obtain rfl := List.mem_singleton.mp hb
        exact ⟨r, hr.mergeable, har, hnew⟩

theorem Widened.exists_accepts {b : Bindings} {as : List JType} (h : Widened env b v as)
    (hne : as ≠ []) : ∃ t, b.find? v = some t ∧ ∀ a ∈ as, accepts env t a = true := by
  obtain ⟨s, hs, hmerge, habove⟩ := h.resolve_left fun hnil => hne hnil.1
  refine ⟨s.asInferred, hs, fun a ha => ?_⟩
  obtain ⟨r, hr, har, hsr⟩ := habove a ha
  have hmarks : accepts env s.asInferred a = accepts env s r := accepts_marks rfl har
  rw [hmarks]
  exact accepts_of_above hmerge hr hsr

theorem meets_afterAll {us : List Unification} {u : Unification} :
    Meets env (i.afterAll env us) u v ↔ Meets env i u v := by
  obtain ⟨hvars, hdepth⟩ := frame_afterAll env i us
  rw [Meets, Meets, blank, blank, hvars, hdepth]

/-- A run in which the variable meets only classes and arrays widens its binding over them. -/
theorem Directly.widened (hplain : env.PlainSupertypes) (hv : v ∈ i.vars)
    (hnone : i.bindings.find? v = none) {us : List Unification} {as : List JType}
    (h : Directly env i v us as) : Widened env (i.afterAll env us).bindings v as := by
  induction h with
  | start => exact .inl ⟨rfl, hnone⟩
  | argument before isTypeVar var dims erased ih =>
    rw [afterAll_concat, after, unify_var isTypeVar var dims ((frame_afterAll env i _).1.symm ▸ hv)
      erased.isBindable]
    exact ih.bind hplain erased
  | other before away ih =>
    rw [afterAll_concat, Widened, find?_after_of_not_meets (meets_afterAll.not.mpr away)]
    exact ih
  | target before bound ih =>
    obtain ⟨s, hs, hrest⟩ := ih.resolve_left fun h => bound h.1
    rw [afterAll_concat, after]
    exact .inr ⟨s, find?_unifyTarget_of_some hs _ _, hrest⟩

/-- After any calls, the bindings that were written out are those that were at the start.  Only variables
of the inference and those with a type argument that is written out are bound, and a target changes no
binding.  A variable without a type argument that met classes and arrays directly, and nothing else, is
bound to a type that accepts each of them. -/
theorem bound_afterAll (env : ClassEnv) (hplain : env.PlainSupertypes) (vars params : List TypeParam)
    (args : List JType) (depth : Nat) :
    let i := (start vars depth).bindWritten params args
    (∀ us v t, (i.afterAll env us).IsWritten v t ↔ i.bindings.find? v = some t) ∧
      (∀ us v, ((i.afterAll env us).bindings.find? v).isSome = true →
        v ∈ vars.map TypeParam.name ∨ HasWitness params args v) ∧
      (∀ us generic expected v t, (i.afterAll env us).bindings.find? v = some t →
        ((i.afterAll env us).unifyTarget env generic expected).bindings.find? v = some t) ∧
      ∀ v ∈ vars.map TypeParam.name, ¬ HasWitness params args v →
        ∀ us as, Directly env i v us as → as ≠ [] →
          ∃ t, (i.afterAll env us).bindings.find? v = some t ∧ ∀ a ∈ as, accepts env t a = true := by
  intro i
  have hvars : i.vars = vars.map TypeParam.name := vars_bindWritten _ _ _
  refine ⟨fun us v t => ?_, fun us v h => ?_, fun us generic expected v t h => ?_, ?_⟩
  · exact isWritten_afterAll.trans isWritten_bindWritten_iff
  · rcases isSome_find?_afterAll h with h | hv
    · exact .inr (isSome_find?_bindWritten_iff.mp h)
    · exact .inl (hvars ▸ hv)
  · exact find?_unifyTarget_of_some h generic expected
  · intro v hv hwitness us as hdirect hne
    have hnone : i.bindings.find? v = none :=
      Option.not_isSome_iff_eq_none.mp fun h => hwitness (isSome_find?_bindWritten_iff.mp h)
    exact (hdirect.widened hplain (hvars ▸ hv) hnone).exists_accepts hne

/-- Two variables, the second of which has a type argument. -/
def stringForU : Inference := (start [.of "T" [], .of "U" []] 8).bindWritten [.of "U" []] [.string]

/-- The first variable meets two siblings, with a use of the other variable between them and a target
after them. -/
def leftAndRight : List Unification :=
  [.argument (typeVar "T" []) (.ofClass "Left"), .argument (typeVar "U" []) .object,
    .argument (typeVar "T" []) (.ofClass "Right"), .target (.ofClass "Left") (.ofClass "Base")]

/-- The first variable is bound to a type for both, and the second one keeps its type argument. -/
theorem leftAndRight_bound :
    siblings.toEnv.PlainSupertypes ∧
      (∃ t, (stringForU.afterAll siblings.toEnv leftAndRight).bindings.find? "T" = some t ∧
        ∀ a ∈ [.ofClass "Left", .ofClass "Right"], accepts siblings.toEnv t a = true) ∧
      (stringForU.afterAll siblings.toEnv leftAndRight).IsWritten "U"
        (JType.string.withBinding .explicit) := by
  have hplain : siblings.toEnv.PlainSupertypes := ClassTable.plainSupertypes_of_classes (by decide)
  obtain ⟨hwritten, -, -, hwiden⟩ :=
    bound_afterAll siblings.toEnv hplain [.of "T" [], .of "U" []] [.of "U" []] [.string] 8
  have hclass : ∀ name, isClassName name = true → (ofClass name).IsErasedReference :=
    fun name hname => ⟨_, .ofClass name 0 hname, rfl⟩
  have hleft : Directly siblings.toEnv stringForU "T" [.argument (typeVar "T" []) (.ofClass "Left")]
      [.ofClass "Left"] := .argument .start rfl rfl rfl (hclass "Left" (by decide))
  have haway : ¬ Meets siblings.toEnv stringForU (.argument (typeVar "U" []) .object) "T" := nofun
  have hright : Directly siblings.toEnv stringForU "T" (leftAndRight.take 3)
      [.ofClass "Left", .ofClass "Right"] :=
    .argument (hleft.other haway) rfl rfl rfl (hclass "Right" (by decide))
  have hdirect : Directly siblings.toEnv stringForU "T" leftAndRight
      [.ofClass "Left", .ofClass "Right"] :=
    hright.target (List.cons_ne_nil _ _)
  have hwitness : ¬ HasWitness [.of "U" []] [.string] "T" := fun h => absurd h.2 (by decide)
  exact ⟨hplain, hwiden "T" (by decide) hwitness _ _ hdirect (List.cons_ne_nil _ _),
    (hwritten leftAndRight "U" _).mpr rfl⟩

end Inference

end JavaSema
