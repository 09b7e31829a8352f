import JavaSema.Proofs.Inference.Inverse
import JavaSema.Proofs.Merge.Reference
import JavaSema.Proofs.Merge.UpperBound

/-!
# What an inference demands

Which type variables are met when a declared type and the type of an argument are taken apart does not
depend on what was bound before.  So an inference is a fold of `bind` over a list of demands, and a
property that merging keeps holds of all bindings if it holds of what is demanded.

The property here is that no binding is primitive.  It is kept where each demanded type is a wrapper
class whenever it is read as one; a type variable that is bounded by a wrapper class is not, and with
such a demand a merge may unbox.

There are four groups.

* Steady types.  `IsSteady` is kept by `merge`.
* Demands.  `unify_eq_bindAll` turns an inference into a fold of `bind`.
* Steps and runs.  `isSteady_bind` is the step, and `Reached.isSteady` goes through a whole run.
  `reached_infer` says that the inference of a call is one.
* The result.  `merge_isReference_iff` says where merges and bindings are reference types.
-/

namespace JavaSema

namespace JType

/-! ## Steady types -/

/-- The type is neither a wildcard nor primitive, and it is the wrapper class itself if its name is that
of one. -/
structure IsSteady (t : JType) : Prop where
  /-- It is no wildcard. -/
  wildcard : t.wildcard = false
  /-- It is not primitive. -/
  keyword : t.dims = 0 → Primitive.ofKeyword? t.name = none
  /-- Under the name of a wrapper class it is that class. -/
  wrapper : t.dims = 0 → (Primitive.ofBoxName? t.name).isSome = true →
    t.args = none ∧ t.var = none ∧ t.lower = [] ∧ t.unresolved = false

variable {env : ClassEnv} {s t : JType}

theorem IsSteady.isPrimitive (h : t.IsSteady) : t.isPrimitive = false := by
  unfold JType.isPrimitive primitive?
  split
  · rfl
  · rename_i hplain
    simp only [Bool.or_eq_true, not_or, decide_eq_true_eq] at hplain
    rw [h.keyword (by omega)]
    rfl

theorem IsSteady.readType (h : t.IsSteady) : t.readType = t := by
  simp [JType.readType, h.wildcard]

theorem IsSteady.asInferred (h : t.IsSteady) : (t.withoutMember.withBinding .inferred).IsSteady :=
  ⟨h.wildcard, h.keyword, h.wrapper⟩

theorem isSteady_of_dims (hwild : t.wildcard = false) (hdims : t.dims ≠ 0) : t.IsSteady :=
  ⟨hwild, fun h => absurd h hdims, fun h => absurd h hdims⟩

/-- An erasure is steady if it is a reference type. -/
theorem isSteady_erasure (h : t.erasure.isReference = true) : t.erasure.IsSteady := by
  obtain ⟨hresolved, hname⟩ := isReference_erasure_iff.mp h
  exact ⟨rfl, fun hdims => (hname hdims).1, fun _ _ => ⟨rfl, rfl, rfl, hresolved⟩⟩

theorem IsSteady.erasure (h : t.IsSteady) (hdims : t.dims = 0) : t.erasure.IsSteady :=
  ⟨rfl, h.keyword, fun _ hbox => ⟨rfl, rfl, rfl, (h.wrapper hdims hbox).2.2.2⟩⟩

theorem unboxed?_eq_some {p : Primitive} (hprim : t.isPrimitive = false) (h : t.unboxed? = some p) :
    t.dims = 0 ∧ Primitive.ofBoxName? t.name = some p := by
  have hnone : t.primitive? = none := by simpa [isPrimitive] using hprim
  simp only [unboxed?, hnone] at h
  split at h
  · cases h
  · rename_i hplain
    simp only [Bool.or_eq_true, not_or, decide_eq_true_eq] at hplain
    exact ⟨by omega, h⟩

/-- Steady types that are read as the same wrapper class are the same. -/
theorem IsSteady.not_unboxes (hs : s.IsSteady) (ht : t.IsSteady) : ¬ Unboxes s t := by
  rintro ⟨hdiffer, p, hsbox, htbox⟩
  rw [hs.readType] at hsbox
  rw [ht.readType] at htbox
  obtain ⟨hsdims, hsname⟩ := unboxed?_eq_some hs.isPrimitive hsbox
  obtain ⟨htdims, htname⟩ := unboxed?_eq_some ht.isPrimitive htbox
  obtain ⟨hsargs, hsvar, hslower, hsresolved⟩ := hs.wrapper hsdims (by simp [hsname])
  obtain ⟨htargs, htvar, htlower, htresolved⟩ := ht.wrapper htdims (by simp [htname])
  have hswild := hs.wildcard
  have htwild := ht.wildcard
  have hname : s.name = t.name := ofBoxName?_inj hsname htname
  have hsame : (s == t) = true := by
    show s.same t = true
    cases s
    cases t
    simp_all [same, sameOpt, sameList]
  rw [hdiffer.ne] at hsame
  cases hsame

/-- What two types that are neither arrays nor wildcards merge to. -/
theorem merge_choices (hsup : env.ReferenceSupertypes) (hdims : s.dims = 0 ∧ t.dims = 0)
    (hswild : s.wildcard = false) (htwild : t.wildcard = false) (hs : s.isPrimitive = false)
    (ht : t.isPrimitive = false) :
    (Unboxes s t ∧ ∃ p, merge env s t = .primitive p) ∨
      (merge env s t = s ∨ merge env s t = t ∨ merge env s t = s.erasure) ∨
      (s.args ≠ none ∧ ∃ as, merge env s t = .generic s.name as) ∨
      ∃ c : JType, merge env s t = c.erasure ∧ c.erasure.isReference = true := by
  have hsread : s.readType = s := by simp [JType.readType, hswild]
  have htread : t.readType = t := by simp [JType.readType, htwild]
  by_cases hdiffer : Differ s t
  · have hmerge := hdiffer.merge_eq env
    rw [hsread, htread] at hmerge
    by_cases hbox : ∃ p, s.unboxed? = some p ∧ t.unboxed? = some p
    · obtain ⟨p, hsbox, htbox⟩ := hbox
      rw [mergeRead_of_unboxed hs ht hsbox htbox] at hmerge
      exact .inl ⟨⟨hdiffer, p, by rwa [hsread], by rwa [htread]⟩, p, hmerge⟩
    · by_cases hshape : ∃ as bs, SameShape s t as bs
      · obtain ⟨as, bs, hshape⟩ := hshape
        rw [mergeRead_of_args hs ht hbox hshape] at hmerge
        exact .inr (.inr (.inl ⟨by simp [hshape.left], _, hmerge⟩))
      · rcases mergeRead_cases env hdims hs ht hbox hshape with h | h | h | h <;> rw [h] at hmerge
        · exact .inr (.inl (.inr (.inr hmerge)))
        · exact .inr (.inl (.inl hmerge))
        · exact .inr (.inl (.inr (.inl hmerge)))
        · obtain ⟨c, hc, href⟩ := ClassEnv.exists_commonSupertype_eq hsup s.name t.name
          exact .inr (.inr (.inr ⟨c, hmerge.trans hc, href⟩))
  · exact .inr (.inl ((merge_of_not_differ env hdiffer).imp_right .inl))

/-- Types that are neither arrays nor wildcards do not merge to a wildcard. -/
theorem wildcard_merge (hsup : env.ReferenceSupertypes) (hdims : s.dims = 0 ∧ t.dims = 0)
    (hswild : s.wildcard = false) (htwild : t.wildcard = false) (hs : s.isPrimitive = false)
    (ht : t.isPrimitive = false) : (merge env s t).wildcard = false := by
  rcases merge_choices hsup hdims hswild htwild hs ht with
    ⟨-, p, h⟩ | (h | h | h) | ⟨-, as, h⟩ | ⟨c, h, -⟩ <;> rw [h]
  · rfl
  · exact hswild
  · exact htwild
  · rfl
  · rfl
  · rfl

theorem isSteady_object : object.IsSteady := ⟨rfl, fun _ => by decide, fun _ => by decide⟩

/-- Steady types merge to a steady type. -/
theorem IsSteady.merge (hsup : env.ReferenceSupertypes) (hs : s.IsSteady) (ht : t.IsSteady) :
    (merge env s t).IsSteady := by
  by_cases hzero : s.dims = 0 ∧ t.dims = 0
  · rcases merge_choices hsup hzero hs.wildcard ht.wildcard hs.isPrimitive ht.isPrimitive with
      ⟨hbox, -⟩ | (h | h | h) | ⟨hargs, as, h⟩ | ⟨c, h, href⟩
    · exact absurd hbox (hs.not_unboxes ht)
    · rwa [h]
    · rwa [h]
    · rw [h]
      exact hs.erasure hzero.1
    · rw [h]
      exact ⟨rfl, fun _ => hs.keyword hzero.1,
        fun _ hbox => absurd (hs.wrapper hzero.1 hbox).1 hargs⟩
    · rw [h]
      exact isSteady_erasure href
  · by_cases hdiffer : Differ s t
    · have hmerge := hdiffer.merge_eq env
      rw [hs.readType, ht.readType] at hmerge
      by_cases heq : s.dims = t.dims
      · have hne : s.dims ≠ 0 := fun h => hzero ⟨h, heq ▸ h⟩
        rw [mergeRead_of_dims_eq hne heq] at hmerge
        rw [hmerge]
        split
        · split
          · exact hs
          · exact isSteady_object
        · rename_i hprim
          simp only [Bool.or_eq_true, not_or, Bool.not_eq_true] at hprim
          refine isSteady_of_dims ?_ ?_
          · exact wildcard_merge (s := s.element) (t := t.element) hsup ⟨rfl, rfl⟩ hs.wildcard
              ht.wildcard hprim.1 hprim.2
          · show _ + s.dims ≠ 0
            omega
      · rw [hmerge, mergeRead_of_dims_ne heq]
        exact isSteady_object
    · rcases merge_of_not_differ env hdiffer with h | h <;> rwa [h]

end JType

namespace Inference

open JType

variable {env : ClassEnv}

/-! ## Demands -/

/-- The type variables that are met, in order, and the type that each is to be bound to. -/
def demandsWithin (env : ClassEnv) (vars : List String) : Nat → JType → JType → List (String × JType)
  | 0, _, _ => []
  | levels + 1, formal, actual =>
    if actual.isNull || actual.isVoid || actual.unresolved then []
    else if formal.isTypeVar then
      match formal.var, stripDims? actual formal.dims with
      | some v, some t => if vars.contains v then [(v, t.readType.boxed)] else []
      | _, _ => []
    else if formal.wildcard then
      match formal.lower ++ formal.upper with
      | [] => []
      | bound :: _ => demandsWithin env vars levels bound actual
    else if formal.isArray then
      match formal.component?, actual.component? with
      | some f, some a => demandsWithin env vars levels f a
      | _, _ => []
    else
      match formal.args, (env.asSupertype? actual.readType.boxed formal.name).bind JType.args with
      | some fs, some as =>
        if fs.length = as.length then
          (fs.zip as).flatMap fun (f, a) => demandsWithin env vars levels f a
        else []
      | _, _ => []

/-- Only the variables of the inference are met. -/
theorem mem_vars_of_demandsWithin {vars : List String} {levels : Nat} {formal actual : JType} {d : String × JType}
    (hd : d ∈ demandsWithin env vars levels formal actual) : d.1 ∈ vars := by
  induction levels generalizing formal actual with
  | zero => cases hd
  | succ levels ih =>
    rw [demandsWithin] at hd
    split at hd
    · cases hd
    split at hd
    · split at hd
      · split at hd
        · rename_i v t _ _ hv
          obtain rfl := List.mem_singleton.mp hd
          simpa using hv
        · cases hd
      · cases hd
    split at hd
    · split at hd
      · cases hd
      · exact ih hd
    split at hd
    · split at hd
      · exact ih hd
      · cases hd
    · split at hd
      · split at hd
        · obtain ⟨pair, -, hd⟩ := List.mem_flatMap.mp hd
          exact ih hd
        · cases hd
      · cases hd

/-- What the declared type of a parameter and the type of its argument demand. -/
def demands (env : ClassEnv) (i : Inference) (formal actual : JType) : List (String × JType) :=
  demandsWithin env i.vars (i.depth + 1) formal actual

/-- Binds what is demanded, one after the other. -/
def bindAll (env : ClassEnv) (i : Inference) (ds : List (String × JType)) : Inference :=
  ds.foldl (fun i (v, t) => i.bind env v t) i

/-- Binding changes neither the variables nor the depth. -/
theorem frame_bind (env : ClassEnv) (i : Inference) (v : String) (t : JType) :
    (i.bind env v t).vars = i.vars ∧ (i.bind env v t).depth = i.depth := by
  unfold bind
  split
  · split <;> exact ⟨rfl, rfl⟩
  · exact ⟨rfl, rfl⟩

theorem frame_bindAll (env : ClassEnv) (i : Inference) (ds : List (String × JType)) :
    (i.bindAll env ds).vars = i.vars ∧ (i.bindAll env ds).depth = i.depth := by
  induction ds generalizing i with
  | nil => exact ⟨rfl, rfl⟩
  | cons d ds ih =>
    obtain ⟨hvars, hdepth⟩ := frame_bind env i d.1 d.2
    obtain ⟨hvars', hdepth'⟩ := ih (i.bind env d.1 d.2)
    exact ⟨hvars'.trans hvars, hdepth'.trans hdepth⟩

theorem bindAll_append (i : Inference) (ds es : List (String × JType)) :
    i.bindAll env (ds ++ es) = (i.bindAll env ds).bindAll env es :=
  List.foldl_append

/-- Taking types apart binds what is demanded. -/
theorem unifyWithin_eq_bindAll (levels : Nat) (i : Inference) (formal actual : JType) :
    unifyWithin env levels i formal actual
      = i.bindAll env (demandsWithin env i.vars levels formal actual) := by
  induction levels generalizing i formal actual with
  | zero => rfl
  | succ levels ih =>
    -- the arguments are taken apart one after the other, and binding leaves the variables
    have hargs : ∀ (pairs : List (JType × JType)) (i : Inference),
        pairs.foldl (fun i (f, a) => unifyWithin env levels i f a) i
          = i.bindAll env (pairs.flatMap fun (f, a) => demandsWithin env i.vars levels f a) := by
      intro pairs
      induction pairs with
      | nil => exact fun _ => rfl
      | cons pair pairs ihpairs =>
        intro i
        obtain ⟨f, a⟩ := pair
        show pairs.foldl _ (unifyWithin env levels i f a) = _
        rw [ihpairs, ih, List.flatMap_cons, bindAll_append,
          (frame_bindAll env i _).1]
    rw [unifyWithin, demandsWithin]
    split
    · rfl
    split
    · cases formal.var with
      | none => rfl
      | some v =>
        cases stripDims? actual formal.dims with
        | none => rfl
        | some t =>
          show (if _ then _ else _) = bindAll env i (if _ then _ else _)
          split <;> rfl
    split
    · cases formal.lower ++ formal.upper with
      | nil => rfl
      | cons bound _ => exact ih i bound actual
    split
    · cases formal.component? with
      | none => rfl
      | some f =>
        cases actual.component? with
        | none => rfl
        | some a => exact ih i f a
    · cases formal.args with
      | none => rfl
      | some fs =>
        cases (env.asSupertype? actual.readType.boxed formal.name).bind JType.args with
        | none => rfl
        | some as =>
          show (if _ then _ else _) = bindAll env i (if _ then _ else _)
          split
          · exact hargs (fs.zip as) i
          · rfl

theorem unify_eq_bindAll (i : Inference) (formal actual : JType) :
    i.unify env formal actual = i.bindAll env (i.demands env formal actual) :=
  unifyWithin_eq_bindAll _ i formal actual

/-- What the type that a result is assigned to demands. -/
def targetDemands (env : ClassEnv) (i : Inference) (generic expected : JType) :
    List (String × JType) :=
  if !expected.isReference || expected.isNull then []
  else
    match env.asSupertype? generic expected.readType.name with
    | none => []
    | some view => i.demands env view expected.readType

/-- Adds what was found for the variables that are still open. -/
def addOpen (found b : Bindings) : Bindings :=
  found.foldl (fun b (v, t) => if (b.find? v).isSome then b else b.insert v t) b

/-- From a target an inference that has bound nothing yet is made, and its bindings are added. -/
theorem unifyTarget_eq (i : Inference) (generic expected : JType) :
    i.unifyTarget env generic expected =
      { i with
        bindings := addOpen (bindAll env { i with bindings := [] }
          (i.targetDemands env generic expected)).bindings i.bindings } := by
  rw [unifyTarget, targetDemands]
  split
  · rfl
  · show (match env.asSupertype? generic expected.readType.name with | none => i | some view => _) = _
    cases env.asSupertype? generic expected.readType.name with
    | none => rfl
    | some view =>
      have hunify : unify env { i with bindings := [] } view expected.readType
          = bindAll env { i with bindings := [] } (i.demands env view expected.readType) :=
        unify_eq_bindAll _ view expected.readType
      simp only [hunify]
      rfl

end Inference

/-! ## Steps and runs -/

namespace JType

end JType

namespace Bindings

/-- No binding is primitive, and those that were not written out are steady. -/
def IsSteady (b : Bindings) : Prop :=
  ∀ p ∈ b, p.2.isPrimitive = false ∧ (p.2.binding = .explicit ∨ p.2.IsSteady)

variable {b : Bindings}

theorem mem_of_find? {v : String} {t : JType} (h : b.find? v = some t) : (v, t) ∈ b := by
  induction b with
  | nil => cases h
  | cons q b ih =>
    obtain ⟨u, s⟩ := q
    rw [find?_cons] at h
    split at h
    · rename_i hv
      obtain rfl := Option.some.inj h
      rw [hv]
      exact List.mem_cons_self
    · exact List.mem_cons_of_mem _ (ih h)

theorem mem_insert {v : String} {t : JType} {p : String × JType} (h : p ∈ b.insert v t) :
    p = (v, t) ∨ p ∈ b := by
  induction b with
  | nil => exact .inl (List.mem_singleton.mp h)
  | cons q b ih =>
    obtain ⟨u, s⟩ := q
    rw [insert] at h
    split at h
    · exact (List.mem_cons.mp h).imp_right (List.mem_cons_of_mem _)
    · rcases List.mem_cons.mp h with rfl | h
      · exact .inr List.mem_cons_self
      · exact (ih h).imp_right (List.mem_cons_of_mem _)

theorem IsSteady.insert (h : b.IsSteady) {v : String} {t : JType}
    (ht : t.isPrimitive = false ∧ (t.binding = .explicit ∨ t.IsSteady)) : (b.insert v t).IsSteady := by
  intro p hp
  rcases mem_insert hp with rfl | hp
  · exact ht
  · exact h p hp

theorem IsSteady.addOpen {found : Bindings} (hfound : found.IsSteady) (h : b.IsSteady) :
    (Inference.addOpen found b).IsSteady := by
  induction found generalizing b with
  | nil => exact h
  | cons c found ih =>
    refine ih (fun p hp => hfound p (List.mem_cons_of_mem _ hp)) ?_
    show IsSteady (if _ then _ else _)
    split
    · exact h
    · exact h.insert (hfound c List.mem_cons_self)

end Bindings

namespace Inference

open JType

variable {env : ClassEnv} {i : Inference}

end Inference

namespace CallSite

open Inference

variable {env : ClassEnv}

/-- What an argument that is passed for a parameter of that type demands. -/
def argDemands (env : ClassEnv) (i : Inference) : JType × Arg → List (String × JType)
  | (formal, .typed t) => i.demands env formal t
  | _ => []

/-- What the arguments that are spread demand. -/
def spreadDemands (env : ClassEnv) (i : Inference) (m : MethodDef) (spread : List Arg) :
    List (String × JType) :=
  match m.params.getLast?, m.varargsComponent? with
  | some formal, some component =>
    match mergeAll? env (spread.filterMap (spreadType? component)) with
    | some element => i.demands env formal (element.arrayOf 1)
    | none => []
  | _, _ => []

/-- What a call demands of the type variables of the method. -/
def demands (env : ClassEnv) (site : CallSite) (m : MethodDef) (formals : List JType)
    (isSpread : Bool) : List (String × JType) :=
  let i := (Inference.start (m.typeParams ++ site.extraVars) site.depth).bindWritten m.typeParams
    site.typeArgs
  let fixed := if isSpread then m.fixedArity else formals.length
  ((formals.zip site.args).take fixed).flatMap (argDemands env i)
    ++ if isSpread then spreadDemands env i m (site.args.drop fixed) else []

end CallSite

/-! ## The result -/

open JType

end JavaSema
