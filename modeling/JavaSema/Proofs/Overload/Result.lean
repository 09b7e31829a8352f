import JavaSema.Proofs.Analysis.MethodRefs
import JavaSema.Proofs.Hierarchy.Capture
import JavaSema.Proofs.Inference.Demands
import JavaSema.Proofs.Overload.Ranking

/-!
# The type of a call

The type of a call is the type that the method returns for the receiver, with the bindings of the call
applied and each type variable that has none replaced by its erasure.  A variable has no binding if
nothing was inferred for it, but also if it was never to be inferred: one of the class or method that
the call stands in, which the type arguments of the receiver mention.

There are three groups.

* Variables without a binding.  `IsVar.subst_of_dropped` says what replaces them, and
  `IsClosed.subst_eq` that nothing else changes.
* Inferences.  `bindsOnly_infer` says that a call binds its own variables only.
* The result.  `returnType_of_ranked` says which variables are lost in the type of a call, and where
  none is.
-/

namespace JavaSema

namespace JType

variable {b : Bindings} {r t x : JType} {v : String}

/-! ## Variables without a binding -/

/-- Reading commutes with a substitution that does not replace the type as a whole. -/
theorem readType_subst {drop : Bool} (h : ∀ v, r.IsVar v → b.find? v = none) :
    (r.subst b drop).readType = r.readType.subst b drop := by
  cases hwild : r.wildcard with
  | true =>
    obtain ⟨hwild', hupper, -⟩ := subst_of_wildcard hwild b drop
    rw [readType, if_pos hwild', hupper, readType, if_pos hwild]
    cases r.upper <;> rfl
  | false =>
    have hplain : (r.subst b drop).wildcard = false := by
      cases hvar : r.isTypeVar with
      | true =>
        obtain ⟨v, hv⟩ := exists_isVar hvar
        cases drop with
        | true => rw [hv.subst_of_dropped (h v hv), erasure]
        | false => rw [hv.subst_of_unbound (h v hv), hwild]
      | false =>
        rw [subst_of_none (by simpa [isTypeVar, hwild] using hvar) hwild]
        exact hwild
    simp [readType, hwild, hplain]

/-- The member of a type is no part of what stands inside it. -/
theorem at?_withMember (t : JType) (m : MemberRef) (path : List Step) :
    (t.withMember m).at? path = if path = [] then some (t.withMember m) else t.at? path := by
  cases path with
  | nil => rfl
  | cons s path => cases s <;> rfl

theorem isTypeVar_of_same {s t : JType} (h : s.same t = true) : s.isTypeVar = t.isTypeVar := by
  cases s
  cases t
  simp only [same, Bool.and_eq_true, beq_iff_eq] at h
  simp only [isTypeVar]
  rw [h.1.1.1.1.2, h.1.1.1.2]

theorem getElem?_of_sameList {ss ts : List JType} (h : sameList ss ts = true) {i : Nat} {s : JType}
    (hs : ss[i]? = some s) : ∃ t, ts[i]? = some t ∧ s.same t = true := by
  induction ss generalizing ts i with
  | nil => cases hs
  | cons u ss ih =>
    cases ts with
    | nil => cases h
    | cons w ts =>
      simp only [sameList, Bool.and_eq_true] at h
      cases i with
      | zero =>
        obtain rfl := Option.some.inj hs
        exact ⟨w, rfl, h.1⟩
      | succ i => exact ih h.2 hs

/-- The parts of types that are the same. -/
theorem parts_of_same {s t : JType} (h : s.same t = true) :
    s.wildcard = t.wildcard ∧ sameOpt s.args t.args = true ∧ sameList s.lower t.lower = true ∧
      (s.wildcard = true → sameList s.upper t.upper = true) := by
  cases s
  simp only [same, Bool.and_eq_true, Bool.or_eq_true, beq_iff_eq, Bool.not_eq_true'] at h
  obtain ⟨⟨⟨⟨⟨⟨-, hargs⟩, -⟩, hwild⟩, -⟩, hlower⟩, hupper⟩ := h
  exact ⟨hwild, hargs, hlower, fun htrue => hupper.resolve_left (Bool.not_eq_false _ ▸ htrue)⟩

/-- Nothing stands inside a type variable but itself. -/
theorem IsVar.eq_of_at? (h : t.IsVar v) {path : List Step} (hx : t.at? path = some x) : x = t := by
  cases path with
  | nil => exact (Option.some.inj hx).symm
  | cons s path =>
    rw [at?, child?_of_isTypeVar h.1] at hx
    cases hx

/-- Types that are the same have the same types inside. -/
theorem child?_of_same {s t c : JType} (h : s.same t = true) {p : Step} (hc : s.child? p = some c) :
    ∃ d, t.child? p = some d ∧ c.same d = true := by
  have hvar := isTypeVar_of_same h
  obtain ⟨hwild, hargs, hlower, hupper⟩ := parts_of_same h
  cases p with
  | arg i =>
    simp only [child?, Option.ite_none_left_eq_some, Option.bind_eq_some_iff] at hc
    obtain ⟨hplain, as, has, hc⟩ := hc
    rw [has] at hargs
    cases hbs : t.args with
    | none =>
      rw [hbs] at hargs
      cases hargs
    | some bs =>
      rw [hbs] at hargs
      obtain ⟨d, hd, hsame⟩ := getElem?_of_sameList hargs hc
      rw [hwild, hvar] at hplain
      exact ⟨d, by rw [child?, if_neg hplain, hbs]; exact hd, hsame⟩
  | upper i =>
    simp only [child?, Option.ite_none_right_eq_some] at hc
    obtain ⟨d, hd, hsame⟩ := getElem?_of_sameList (hupper hc.1) hc.2
    exact ⟨d, by rw [child?, if_pos (hwild ▸ hc.1)]; exact hd, hsame⟩
  | lower i =>
    simp only [child?, Option.ite_none_right_eq_some] at hc
    obtain ⟨d, hd, hsame⟩ := getElem?_of_sameList hlower hc.2
    exact ⟨d, by rw [child?, if_pos (hwild ▸ hc.1)]; exact hd, hsame⟩

theorem at?_of_same {s t x : JType} (h : s.same t = true) {path : List Step}
    (hx : s.at? path = some x) : ∃ y, t.at? path = some y ∧ x.same y = true := by
  induction path generalizing s t with
  | nil =>
    obtain rfl := Option.some.inj hx
    exact ⟨t, rfl, h⟩
  | cons p path ih =>
    obtain ⟨c, hc, hat⟩ := Option.bind_eq_some_iff.mp hx
    obtain ⟨d, hd, hsame⟩ := child?_of_same h hc
    obtain ⟨y, hy, hxy⟩ := ih hsame hat
    exact ⟨y, by rw [at?, hd]; exact hy, hxy⟩

/-- No type variable stands anywhere in the type. -/
def IsClosed (t : JType) : Prop := ∀ path x, t.at? path = some x → x.isTypeVar = false

theorem IsClosed.child {c : JType} (h : t.IsClosed) {p : Step} (hc : t.child? p = some c) :
    c.IsClosed := fun path x hx => h (p :: path) x (by rw [at?, hc]; exact hx)

theorem wildcardsAsWritten_of_mem {ts : List JType} (h : wildcardsAsWrittenList ts = true)
    (ht : t ∈ ts) : t.wildcardsAsWritten = true := by
  induction ts with
  | nil => cases ht
  | cons u ts ih =>
    simp only [wildcardsAsWrittenList, Bool.and_eq_true] at h
    rcases List.mem_cons.mp ht with rfl | ht
    · exact h.1
    · exact ih h.2 ht

theorem withArgs_args (t : JType) : t.withArgs t.args = t := by
  cases t
  rfl

/-- A substitution leaves a type in which no type variable stands. -/
theorem IsClosed.subst_eq {t : JType} (h : t.IsClosed) (hwild : t.wildcardsAsWritten = true) (b : Bindings)
    (drop : Bool) : t.subst b drop = t := by
  -- the bounds and arguments of the type are left, each at its place
  have hlist : ∀ ts : List JType, (∀ c ∈ ts, c.IsClosed ∧ c.nodes < t.nodes) →
      wildcardsAsWrittenList ts = true → substList b drop ts = ts := by
    intro ts hts hlist
    rw [substList_eq_map]
    refine (List.map_congr_left fun c hc => ?_).trans (List.map_id ts)
    have := (hts c hc).2
    exact (hts c hc).1.subst_eq (wildcardsAsWritten_of_mem hlist hc) b drop
  cases hw : t.wildcard with
  | false =>
    have hvar : t.var = none := by simpa [isTypeVar, hw] using h [] t rfl
    rw [subst_of_none hvar hw]
    cases hargs : t.args with
    | none => rw [substOpt, ← hargs, withArgs_args]
    | some as =>
      have hwritten : wildcardsAsWrittenList as = true := by
        cases t
        cases hw
        cases hargs
        simpa [wildcardsAsWritten, wildcardsAsWrittenOpt] using hwild
      have hclosed : ∀ c ∈ as, c.IsClosed ∧ c.nodes < t.nodes := by
        intro c hc
        obtain ⟨i, hi⟩ := List.getElem?_of_mem hc
        refine ⟨h.child (p := .arg i) ?_, nodes_lt_of_mem_args hargs hc⟩
        simp [child?, hw, isTypeVar, hvar, hargs, hi]
      rw [substOpt, hlist as hclosed hwritten, ← hargs, withArgs_args]
  | true =>
    have hupper : ∀ c ∈ t.upper, c.IsClosed ∧ c.nodes < t.nodes := by
      intro c hc
      obtain ⟨i, hi⟩ := List.getElem?_of_mem hc
      exact ⟨h.child (p := .upper i) (by rw [child?, if_pos hw, hi]), nodes_lt_of_mem_upper hc⟩
    have hlower : ∀ c ∈ t.lower, c.IsClosed ∧ c.nodes < t.nodes := by
      intro c hc
      obtain ⟨i, hi⟩ := List.getElem?_of_mem hc
      exact ⟨h.child (p := .lower i) (by rw [child?, if_pos hw, hi]), nodes_lt_of_mem_lower hc⟩
    obtain ⟨name, args, dims, upper, lower, var, wildcard, unresolved, binding, member⟩ := t
    cases hw
    simp only [wildcardsAsWritten, if_true, Bool.and_eq_true, Option.isNone_iff_eq_none,
      beq_iff_eq] at hwild
    obtain ⟨⟨⟨⟨⟨⟨hhead, rfl⟩, rfl⟩, rfl⟩, rfl⟩, hupperWritten⟩, hlowerWritten⟩ := hwild
    have hsame := hlist upper hupper hupperWritten
    have hsameLower := hlist lower hlower hlowerWritten
    cases upper with
    | nil => cases hhead
    | cons u us =>
      simp only [List.head?_cons, Option.any_some, Bool.and_eq_true, beq_iff_eq] at hhead
      obtain ⟨⟨rfl, rfl⟩, rfl⟩ := hhead
      simp only [subst, hsame, hsameLower, erasure]
termination_by t.nodes

end JType

/-! ## Inferences -/

namespace Inference

variable {env : ClassEnv} {i : Inference}

/-- The variables are these, and no others are bound. -/
def BindsOnly (vars : List String) (i : Inference) : Prop :=
  i.vars = vars ∧ ∀ p ∈ i.bindings, p.1 ∈ vars

variable {vars : List String}

theorem BindsOnly.bind (h : i.BindsOnly vars) {v : String} (hv : v ∈ vars) (t : JType) :
    (i.bind env v t).BindsOnly vars := by
  refine ⟨(frame_bind env i v t).1.trans h.1, ?_⟩
  have hset : ∀ s : JType, ∀ p ∈ i.bindings.insert v s, p.1 ∈ vars := by
    intro s p hp
    rcases Bindings.mem_insert hp with rfl | hp
    · exact hv
    · exact h.2 p hp
  unfold Inference.bind
  split
  · split
    · exact h.2
    · exact hset _
  · exact hset _

theorem BindsOnly.bindAll (h : i.BindsOnly vars) {ds : List (String × JType)}
    (hds : ∀ d ∈ ds, d.1 ∈ vars) : (i.bindAll env ds).BindsOnly vars := by
  induction ds generalizing i with
  | nil => exact h
  | cons d ds ih =>
    exact ih (h.bind (hds d List.mem_cons_self) d.2) fun e he => hds e (List.mem_cons_of_mem _ he)

theorem BindsOnly.unify (h : i.BindsOnly vars) (formal actual : JType) :
    (i.unify env formal actual).BindsOnly vars := by
  rw [unify_eq_bindAll]
  refine h.bindAll fun d hd => ?_
  rw [← h.1]
  exact mem_vars_of_demandsWithin hd

theorem BindsOnly.bindWritten (h : i.BindsOnly vars) {params : List TypeParam}
    (hparams : ∀ p ∈ params, p.name ∈ vars) (args : List JType) :
    (i.bindWritten params args).BindsOnly vars := by
  have hinsert : ∀ (pairs : List (TypeParam × JType)) (b : Bindings),
      (∀ q ∈ pairs, q.1.name ∈ vars) → (∀ p ∈ b, p.1 ∈ vars) →
      ∀ p ∈ pairs.foldl (fun b q => b.insert q.1.name (q.2.boxed.withBinding .explicit)) b,
        p.1 ∈ vars := by
    intro pairs
    induction pairs with
    | nil => exact fun b _ hb => hb
    | cons pair pairs ih =>
      intro b hpairs hb
      refine ih _ (fun q hq => hpairs q (List.mem_cons_of_mem _ hq)) fun p hp => ?_
      rcases Bindings.mem_insert hp with rfl | hp
      · exact hpairs pair List.mem_cons_self
      · exact hb p hp
  unfold Inference.bindWritten
  split
  · exact ⟨h.1, hinsert _ _ (fun q hq => hparams _ (List.of_mem_zip hq).1) h.2⟩
  · exact h

end Inference

namespace CallSite

open Inference

variable {env : ClassEnv}

/-- The type variables that are inferred for a call of the method. -/
def ownVars (site : CallSite) (m : MethodDef) : List String :=
  (m.typeParams ++ site.extraVars).map TypeParam.name

/-- A call binds its own variables only. -/
theorem bindsOnly_infer (site : CallSite) (m : MethodDef) (formals : List JType) (isSpread : Bool) :
    (site.infer env m formals isSpread).BindsOnly (site.ownVars m) := by
  have hfold : ∀ (pairs : List (JType × Arg)) (i : Inference), i.BindsOnly (site.ownVars m) →
      (pairs.foldl (inferFrom env) i).BindsOnly (site.ownVars m) := by
    intro pairs
    induction pairs with
    | nil => exact fun i hi => hi
    | cons pair pairs ih =>
      intro i hi
      obtain ⟨formal, arg⟩ := pair
      refine ih _ ?_
      cases arg with
      | typed t => exact hi.unify formal t
      | lambda shape => exact hi
      | methodRef ref => exact hi
  have hspread : ∀ (i : Inference) (spread : List Arg), i.BindsOnly (site.ownVars m) →
      (inferSpread env i m spread).BindsOnly (site.ownVars m) := by
    intro i spread hi
    unfold inferSpread
    split
    · split
      · exact hi.unify _ _
      · exact hi
    · exact hi
  have hstart : (Inference.start (m.typeParams ++ site.extraVars) site.depth).BindsOnly
      (site.ownVars m) := ⟨rfl, fun p hp => by cases hp⟩
  have hparams : ∀ p ∈ m.typeParams, p.name ∈ site.ownVars m := fun p hp =>
    List.mem_map_of_mem (List.mem_append_left _ hp)
  have hwritten := hstart.bindWritten hparams site.typeArgs
  unfold infer
  cases isSpread with
  | false => exact hfold _ _ hwritten
  | true => exact hspread _ _ (hfold _ _ hwritten)

theorem bindsOnly_of_tryForm {refFits : RefTest} {site : CallSite} {candidate : MethodCandidate}
    {formals : List JType} {isSpread : Bool} {a : Applicable}
    (h : site.tryForm env refFits candidate formals isSpread = some a) :
    a.inference.BindsOnly (site.ownVars a.candidate.definition) := by
  unfold tryForm at h
  simp only [Option.ite_none_right_eq_some, Option.some.injEq] at h
  obtain ⟨-, rfl⟩ := h
  exact bindsOnly_infer site candidate.definition formals isSpread

theorem bindsOnly_of_ranked {site : CallSite} {candidates : List MethodCandidate} {a : Applicable}
    (h : a ∈ site.ranked env candidates) :
    a.inference.BindsOnly (site.ownVars a.candidate.definition) := by
  have hmem := (Applicable.ranked_perm env _).mem_iff.mp h
  obtain ⟨candidate, -, htry⟩ := List.mem_filterMap.mp hmem
  unfold tryCandidate at htry
  rcases Option.or_eq_some_iff.mp htry with hform | ⟨-, hform⟩
  · simp only [Option.ite_none_right_eq_some] at hform
    exact bindsOnly_of_tryForm hform.2
  · obtain ⟨component, -, hform⟩ := Option.bind_eq_some_iff.mp hform
    exact bindsOnly_of_tryForm hform

end CallSite

/-! ## The result -/

open JType

/-- A call has no binding for a variable that is not one of its own. -/
theorem CallSite.find?_of_ranked {env : ClassEnv} {site : CallSite} {candidates : List MethodCandidate}
    {a : Applicable} (ha : a ∈ site.ranked env candidates) {v : String}
    (hv : v ∉ site.ownVars a.candidate.definition) : a.inference.bindings.find? v = none := by
  obtain ⟨-, hown⟩ := bindsOnly_of_ranked ha
  by_contra hfind
  obtain ⟨w, hw⟩ := Option.ne_none_iff_exists'.mp hfind
  exact hv (hown _ (Bindings.mem_of_find? hw))

/-- A type variable without a binding is replaced by its erasure wherever it stands. -/
theorem Applicable.at?_returnType_of_unbound {a : Applicable} {path : List Step} {x : JType}
    {v : String} (hx : a.candidate.definition.returnType.readType.at? path = some x)
    (hvar : x.IsVar v) (hv : a.inference.bindings.find? v = none) :
    ∃ y, a.returnType.at? path = some y ∧ y.isTypeVar = false ∧ y.erasure = x.erasure := by
  have hreads : ∀ u, a.candidate.definition.returnType.IsVar u →
      a.inference.bindings.find? u = none := by
    intro u hu
    rw [readType, if_neg (by simp [hu.wildcard])] at hx
    obtain rfl := hu.eq_of_at? hx
    obtain rfl := Option.some.inj (hu.2.symm.trans hvar.2)
    exact hv
  have hat := at?_subst hx a.inference.bindings true
  rw [← readType_subst hreads, hvar.subst_of_dropped hv] at hat
  rw [Applicable.returnType, at?_withMember]
  split
  -- the type as a whole is the variable, and becomes the method's
  · rename_i hpath
    rw [hpath] at hat
    have hread : (a.inference.apply a.candidate.definition.returnType true).readType
        = { x.erasure with member := x.member } := Option.some.inj hat
    exact ⟨_, rfl, by rw [hread]; rfl, by rw [hread]; rfl⟩
  · exact ⟨_, hat, rfl, rfl⟩

/-- What is lost in the type of a call.  Against the type that the method returns for the receiver, each
type variable that is not one of the call is replaced by its erasure, whether it is in scope where the
call stands or not.  A call without type variables of its own has the type that the method returns, as
the method's, if no type variable stands in that type, and never otherwise. -/
theorem returnType_of_ranked (env : ClassEnv) (site : CallSite) (candidates : List MethodCandidate)
    {a : Applicable} (ha : a ∈ site.ranked env candidates) :
    (∀ path x v, a.candidate.definition.returnType.readType.at? path = some x → x.IsVar v →
        v ∉ site.ownVars a.candidate.definition →
          ∃ y, a.returnType.at? path = some y ∧ y.isTypeVar = false ∧ y.erasure = x.erasure) ∧
    (a.candidate.definition.typeParams = [] → site.extraVars = [] →
      ((a.returnType == a.candidate.definition.returnType.readType) = true →
          a.candidate.definition.returnType.readType.IsClosed) ∧
        (a.candidate.definition.returnType.readType.IsClosed →
          a.candidate.definition.returnType.readType.wildcardsAsWritten = true →
            a.returnType
              = a.candidate.definition.returnType.readType.withMember a.candidate.member)) := by
  have hlost : ∀ path x v, a.candidate.definition.returnType.readType.at? path = some x → x.IsVar v →
      v ∉ site.ownVars a.candidate.definition →
        ∃ y, a.returnType.at? path = some y ∧ y.isTypeVar = false ∧ y.erasure = x.erasure :=
    fun _ _ _ hx hvar hv => Applicable.at?_returnType_of_unbound hx hvar (CallSite.find?_of_ranked ha hv)
  refine ⟨hlost, fun htypeParams hextra => ⟨fun hsame path x hx => ?_, fun hclosed hwild => ?_⟩⟩
  · by_contra hvar
    obtain ⟨v, hv⟩ := exists_isVar (by simpa using hvar)
    obtain ⟨y, hy, hplain, -⟩ := hlost path x v hx hv (by simp [CallSite.ownVars, htypeParams, hextra])
    obtain ⟨x', hx', hsame'⟩ := at?_of_same hsame hy
    obtain rfl := Option.some.inj (hx.symm.trans hx')
    rw [← isTypeVar_of_same hsame', hplain] at hvar
    exact hvar rfl
  · have hnone : ∀ v, a.inference.bindings.find? v = none := fun v =>
      CallSite.find?_of_ranked ha (by simp [CallSite.ownVars, htypeParams, hextra])
    show ((a.candidate.definition.returnType.subst a.inference.bindings true).readType).withMember _ = _
    rw [readType_subst fun v _ => hnone v, hclosed.subst_eq hwild]

/-- A class with a type variable and a method that returns a value of it. -/
def holder : ClassDef :=
  { ClassDef.empty "Holder" .interface with
    typeParams := [.of "T" []]
    methods := [{ name := "get", params := [], returnType := typeVar "T" [] }] }

/-- A table with this class only. -/
def holders : ClassEnv := ClassTable.toEnv ⟨[holder]⟩

/-- A call of the method. -/
def callGet : CallSite := { name := "get", args := [], depth := 8 }

/-- The method, with a type in place of the type variable. -/
def getOf (t : JType) : MethodCandidate :=
  { member := .method "Holder" 0
    definition :=
      { name := "get", params := [], returnType := (typeVar "T" []).subst [("T", t)] false } }

/-- A holder offers the method, and it takes a call without arguments. -/
theorem ranked_getOf (t : JType) :
    { candidate := getOf t, formals := [], inference := { vars := [], depth := 8 } }
      ∈ callGet.ranked holders (holders.methodsNamed (.generic "Holder" [t]) "get") := by
  have hclosure : holders.closure (.generic "Holder" [t])
      = [Instantiation.of (.generic "Holder" [t]) holder] :=
    ClassEnv.closure_of_length_names rfl ⟨rfl, rfl, rfl, rfl, rfl⟩ rfl
  rw [ClassEnv.methodsNamed, hclosure]
  exact List.mem_cons_self

/-- The method of a holder of strings returns a string. -/
theorem returnType_getOf_string :
    ∃ a ∈ callGet.ranked holders (holders.methodsNamed (.generic "Holder" [string]) "get"),
      a.candidate.definition.typeParams = [] ∧ callGet.extraVars = [] ∧
        a.candidate.definition.returnType.readType.IsClosed ∧
        a.candidate.definition.returnType.readType.wildcardsAsWritten = true ∧
        a.returnType = string.withMember (.method "Holder" 0) := by
  have hranked := ranked_getOf string
  obtain ⟨-, hcall⟩ := returnType_of_ranked holders callGet _ hranked
  have hclosed : string.IsClosed := by
    intro path x hx
    cases path with
    | nil => obtain rfl := Option.some.inj hx; rfl
    | cons s path => cases s <;> cases hx
  exact ⟨_, hranked, rfl, rfl, hclosed, rfl, (hcall rfl rfl).2 hclosed rfl⟩

/-- Inside the class a call of the method is a call on a holder of the type variable itself, and that is
replaced by the root class, although it is in scope. -/
theorem returnType_getOf_enclosing :
    holder.asType = .generic "Holder" [typeVar "T" []] ∧
      ∃ a ∈ callGet.ranked holders (holders.methodsNamed holder.asType "get"),
        a.candidate.definition.typeParams = [] ∧ callGet.extraVars = [] ∧
          (a.candidate.definition.returnType.readType == typeVar "T" []) = true ∧
          a.returnType = object.withMember (.method "Holder" 0) ∧
          (a.returnType == a.candidate.definition.returnType.readType) = false :=
  ⟨rfl, _, ranked_getOf (typeVar "T" []), rfl, rfl, by decide, rfl, by decide⟩

end JavaSema
