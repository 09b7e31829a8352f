import JavaSema.Proofs.Analysis.Returns
import JavaSema.Proofs.Overload.Result

/-!
# Lambdas before and after selection

Overload resolution tests a lambda by its shape (`LambdaShape.fits`).  Where the type of a variable or
of a selected parameter is known, the lambda is checked against it (`checkFunctional`).

There are four groups.

* Open type variables.  A check replaces those that no scope declares, which keeps what is compared.
* `ReadsTypes` says that a step depends on no more than what type names denote.  Steps that resolve
  types are of this kind.
* Blocks of variables.  The variables of a lambda hide no types, so that the types of its parameters
  are the same inside and outside of it.
* The result.  `fits_of_checkFunctional` says which of the lambdas that are accepted have a shape that
  fits.
-/

namespace JavaSema

namespace JType

/-! ## Open type variables -/

mutual

/-- A substitution brings no type variables into a type without them. -/
theorem mentionsVar_subst (b : Bindings) (dropUnbound : Bool) : ∀ t : JType, t.mentionsVar = false →
    (t.subst b dropUnbound).mentionsVar = false
  | { name, args, dims, upper, lower, var, wildcard, unresolved, binding, member }, h => by
    simp only [mentionsVar, Bool.or_eq_false_iff] at h
    obtain ⟨⟨⟨hvar, hargs⟩, hupper⟩, hlower⟩ := h
    cases wildcard with
    | false =>
      obtain rfl : var = none := by simpa using hvar
      simp [subst, mentionsVar, mentionsVarOpt_subst b dropUnbound args hargs, hlower]
    | true =>
      have hupper := mentionsVarList_subst b dropUnbound upper hupper
      have hlower := mentionsVarList_subst b dropUnbound lower hlower
      simp only [subst]
      split
      · simp [mentionsVar, mentionsVarOpt, mentionsVarList, object, ofClass, hlower]
      · rename_i hsubst
        rw [hsubst] at hupper
        simp [mentionsVar, mentionsVarOpt, erasure, hupper, hlower]

theorem mentionsVarList_subst (b : Bindings) (dropUnbound : Bool) : ∀ ts : List JType,
    mentionsVarList ts = false → mentionsVarList (substList b dropUnbound ts) = false
  | [], _ => rfl
  | t :: ts, h => by
    simp only [mentionsVarList, Bool.or_eq_false_iff] at h
    rw [substList, mentionsVarList, mentionsVar_subst b dropUnbound t h.1,
      mentionsVarList_subst b dropUnbound ts h.2, Bool.or_self]

theorem mentionsVarOpt_subst (b : Bindings) (dropUnbound : Bool) : ∀ args : Option (List JType),
    mentionsVarOpt args = false → mentionsVarOpt (substOpt b dropUnbound args) = false
  | none, _ => rfl
  | some ts, h => mentionsVarList_subst b dropUnbound ts h

end

end JType

namespace Analysis

open Source

/-- What is read through a parameter without type variables is erased to the same type. -/
theorem erasure_eraseOpen (table : SymbolTable) {t : JType} (hvars : t.mentionsVar = false)
    (hwild : t.readType.wildcard = true → t.readType.wildcardsAsWritten = true) :
    (eraseOpen table t).readType.erasure = t.readType.erasure := by
  have hclosed := t.mentionsVar_eq_false.mp hvars
  have hread := t.readType.mentionsVar_eq_false.mpr (JType.vars_readType hclosed)
  have hnone : ∀ v, ¬ t.IsVar v := fun v hv => by simpa [hclosed] using hv.mem_vars
  rw [eraseOpen, JType.readType_subst fun v hv => absurd hv (hnone v)]
  cases hw : t.readType.wildcard with
  | true => rw [t.readType.subst_eq_self _ _ hread (hwild hw)]
  | false => rw [JType.subst_of_none (JType.var_eq_none hread hw) hw, JType.withArgs, JType.erasure,
      JType.erasure]

/-- A result stays `void`, and none becomes it. -/
theorem isVoid_eraseOpen (table : SymbolTable) {t : JType}
    (hwild : t.wildcard = true → t.mentionsVar = false ∧ t.wildcardsAsWritten = true)
    (hvoid : t.erasure.isVoid = t.isVoid) (hdims : t.dims < UInt32.size) :
    (eraseOpen table t).isVoid = t.isVoid := by
  cases hw : t.wildcard with
  | true => rw [eraseOpen_eq table (hwild hw).1 (hwild hw).2]
  | false =>
    obtain ⟨name, args, dims, upper, lower, var, wildcard, unresolved, binding, member⟩ := t
    obtain rfl : wildcard = false := hw
    cases var with
    | none => rfl
    | some v =>
      cases hopen : isOpenVar table v with
      | false => simp [eraseOpen, openVars, hopen, JType.subst, Bindings.find?]
      | true =>
        have hsum : JType.addDims 0 dims = dims := by
          rw [JType.addDims_of_lt (by rwa [Nat.zero_add]), Nat.zero_add]
        rw [← hvoid]
        simp [eraseOpen, openVars, hopen, JType.subst, Bindings.find?, Bindings.insert, JType.isVoid,
          JType.erasure, JType.element, hsum]

variable {α β : Type}

/-! ## What type names denote -/

/-- The states agree on what type names denote. -/
structure State.SameTypes (s t : State) : Prop where
  declared : t.declared = s.declared
  catalog : t.catalog = s.catalog
  bound : ∀ simple, boundType? t.table.scopes simple = boundType? s.table.scopes simple
  enclosing : t.table.enclosingClasses = s.table.enclosingClasses

/-- The step does the same in states that agree on what type names denote, and leaves the bindings. -/
def ReadsTypes ⦃α : Type⦄ (m : Check α) : Prop :=
  ∀ setting (s s' : State), s.SameTypes s' →
    ∃ r t t', exec (m setting) s = (r, t) ∧ exec (m setting) s' = (r, t') ∧ t.SameTypes t' ∧
      t.table = s.table ∧ t'.table = s'.table

namespace ReadsTypes

theorem pure (a : α) : ReadsTypes (Pure.pure a : Check α) :=
  fun _ s s' hs => ⟨.ok a, s, s', rfl, rfl, hs, rfl, rfl⟩

theorem throw (e : AnalysisError) : ReadsTypes (MonadExcept.throw e : Check α) :=
  fun _ s s' hs => ⟨.error e, s, s', rfl, rfl, hs, rfl, rfl⟩

theorem bind {m : Check α} {k : α → Check β} (hm : ReadsTypes m) (hk : ∀ a, ReadsTypes (k a)) :
    ReadsTypes (m >>= k) := by
  intro setting s s' hs
  obtain ⟨r, t, t', hrun, hrun', ht, htable, htable'⟩ := hm setting s s' hs
  cases r with
  | error e => exact ⟨.error e, t, t', run_bind_error hrun, run_bind_error hrun', ht, htable, htable'⟩
  | ok a =>
    obtain ⟨r, u, u', hnext, hnext', hu, hlater, hlater'⟩ := hk a setting t t' ht
    rw [run_bind_ok hrun, run_bind_ok hrun']
    exact ⟨r, u, u', hnext, hnext', hu, hlater.trans htable, hlater'.trans htable'⟩

theorem record (id : NodeId) (t : JType) : ReadsTypes (record id t) :=
  fun _ _ _ hs =>
    ⟨.ok (), _, _, rfl, rfl, ⟨hs.declared, hs.catalog, hs.bound, hs.enclosing⟩, rfl, rfl⟩

/-- What follows sees of a state what type names denote. -/
theorem look {k : State → Check α} (hsame : ∀ s s' : State, s.SameTypes s' → k s' = k s)
    (hk : ∀ s, ReadsTypes (k s)) : ReadsTypes (get >>= k) := by
  intro setting s s' hs
  rw [run_bind_ok (run_get _ s), run_bind_ok (run_get _ s'), hsame s s' hs]
  exact hk s setting s s' hs

theorem read : ReadsTypes (MonadReader.read : Check Setting) :=
  fun setting s s' hs => ⟨.ok setting, s, s', rfl, rfl, hs, rfl, rfl⟩

theorem classes : ReadsTypes classes :=
  look (fun _ _ hs => by rw [hs.declared]) fun _ => read.bind fun _ => pure _

theorem inCatalog (op : StateM Catalog α) : ReadsTypes (inCatalog op) := by
  intro setting s s' hs
  have hrun : ∀ t : State, exec (Analysis.inCatalog op setting) t
      = (.ok (op.run t.catalog).1, { t with catalog := (op.run t.catalog).2 }) := fun _ => rfl
  refine ⟨.ok (op.run s.catalog).1, { s with catalog := (op.run s.catalog).2 },
    { s' with catalog := (op.run s.catalog).2 }, hrun s, ?_,
    ⟨hs.declared, rfl, hs.bound, hs.enclosing⟩, rfl, rfl⟩
  rw [hrun s', hs.catalog]

theorem simpleType? (simple : String) : ReadsTypes (simpleType? simple) := by
  refine look (fun s s' hs => ?_) fun s => ?_
  · simp only [hs.bound, hs.enclosing, hs.catalog]
  · split
    · exact pure _
    · refine classes.bind fun env => ?_
      split
      · exact pure _
      · exact (inCatalog _).bind fun _ => pure _

theorem namedType? (name : QualifiedName) : ReadsTypes (namedType? name) := by
  unfold Analysis.namedType?
  split
  · exact pure _
  · refine (simpleType? _).bind fun found => ?_
    split
    · exact pure _
    · split
      · exact pure _
      · exact look (fun s s' hs => by rw [hs.catalog]) fun _ => classes.bind fun _ => pure _
    · exact pure _
    · exact classes.bind fun _ => pure _

theorem naming : Naming (fun _ => True) ReadsTypes where
  pure := pure
  throw := throw
  bind := bind
  record := record
  namedType? name _ := namedType? name

end ReadsTypes

/-! ## Blocks of variables -/

/-- The scopes are these and one more, in which nothing but variables is bound. -/
def AddsVariables (outer scopes : List Scope) : Prop :=
  ∃ scope, scopes = scope :: outer ∧ scope.owner = none ∧ ∀ x ∈ scope.index, x.kind = .var

namespace AddsVariables

variable {outer scopes : List Scope}

/-- A variable is no type. -/
theorem boundType? (h : AddsVariables outer scopes) (simple : String) :
    boundType? scopes simple = Analysis.boundType? outer simple := by
  obtain ⟨scope, rfl, -, hvars⟩ := h
  have hnone : ∀ kind, kind ≠ SymbolKind.var → scope.find? simple kind = none := by
    intro kind hkind
    rw [Scope.find?, List.find?_eq_none]
    intro x hx
    rw [hvars x (List.mem_filter.mp hx).1]
    simpa using hkind.symm
  rw [Analysis.boundType?, List.findSome?_cons, hnone _ (by decide), hnone _ (by decide)]
  rfl

/-- One more variable is bound. -/
theorem bindSymbol {x : Symbol} (hx : x.kind = .var) :
    Keeps (fun t t' => AddsVariables outer t.scopes → AddsVariables outer t'.scopes)
      (bindSymbol x) := by
  refine Keeps.discard fun t ⟨scope, hscopes, howner, hvars⟩ => ?_
  rcases SymbolTable.pushSymbol_cases x t with hsame | ⟨first, rest, hcons, hpushed⟩
  · exact ⟨scope, hsame.1.trans hscopes, howner, hvars⟩
  · obtain ⟨rfl, rfl⟩ := List.cons.inj (hcons.symm.trans hscopes)
    rcases hpushed with ⟨hnew, -⟩ | ⟨old, -, -, hkind, name, hnew, -⟩
    · exact ⟨_, hnew, howner, List.forall_mem_append.mpr ⟨hvars, List.forall_mem_singleton.mpr hx⟩⟩
    · -- The variable that it hides is kept as a placeholder.
      have hkept : ∀ y ∈ (first.substitute old (old.placeholder t.nextId name)).index,
          y.kind = .var :=
        List.forall_mem_append.mpr ⟨fun y hy => hvars y (List.mem_filter.mp hy).1,
          List.forall_mem_singleton.mpr (hkind.trans hx)⟩
      exact ⟨_, hnew, howner, List.forall_mem_append.mpr ⟨hkept, List.forall_mem_singleton.mpr hx⟩⟩

end AddsVariables

/-- A step inside a block runs where one more scope is open. -/
theorem ok_of_run_inBlock {n : Node} {step : Check α} {setting : Setting} {s s' : State} {a : α}
    (h : exec (inBlock n step setting) s = (.ok a, s')) :
    ∃ scope : Scope, scope.index = [] ∧ scope.owner = none ∧
      ∃ u, exec (step setting) { s with table := { s.table with scopes := scope :: s.table.scopes } }
        = (.ok a, u) := by
  let scope : Scope := { kind := .block, observer := setting.observers.ofNode n }
  have hopen : exec (inBlock n step setting) s
      = exec (closing (discard (inTable n SymbolTable.popScope)) step setting)
          { s with table := { s.table with scopes := scope :: s.table.scopes } } := rfl
  rw [hopen] at h
  obtain ⟨-, hvalue⟩ := exec_closing (discard (inTable n SymbolTable.popScope)) step setting
    { s with table := { s.table with scopes := scope :: s.table.scopes } }
  rw [h] at hvalue
  exact ⟨scope, rfl, rfl, _, Prod.ext (hvalue a rfl) rfl⟩

/-- The types that are written are those of all parameters, and none of them is left to inference. -/
theorem types_of_written {params : List LambdaParam} {ts : List TypeRef}
    (h : writtenTypes? params = some ts) :
    params.map LambdaParam.type = ts.map some ∧ ∀ t ∈ ts, t.isInferred = false := by
  unfold writtenTypes? at h
  split at h
  · cases h
  · clear * - h
    induction params generalizing ts with
    | nil =>
      obtain rfl := Option.some.inj h
      exact ⟨rfl, List.forall_mem_nil _⟩
    | cons p rest ih =>
      simp only [List.mapM_cons, Option.bind_eq_bind, Option.bind_eq_some_iff,
        Option.filter_eq_some_iff, Option.pure_def, Option.some.injEq] at h
      obtain ⟨t, ⟨htype, hwritten⟩, us, hus, rfl⟩ := h
      obtain ⟨hrest, hall⟩ := ih hus
      exact ⟨by rw [List.map_cons, htype, hrest, List.map_cons],
        List.forall_mem_cons.mpr ⟨by simpa using hwritten, hall⟩⟩

/-- A parameter whose type is written has that type, which agrees with the one that is given unless
that mentions type variables. -/
theorem ok_of_run_paramType {e : Expr} {f : FunctionType} {sam : List JType} {p : LambdaParam}
    {given : JType} {t : TypeRef} (htype : p.type = some t) (hwritten : t.isInferred = false)
    {setting : Setting} {s s' : State} {w : JType}
    (h : exec (paramType e f sam p given setting) s = (.ok w, s')) :
    exec (resolveType t setting) s = (.ok w, s') ∧
      (given.mentionsVar || w.erasure == given.readType.erasure) = true := by
  unfold paramType at h
  rw [htype] at h
  simp only [hwritten, Bool.false_eq_true, if_false] at h
  obtain ⟨written, u, hresolve, hrest⟩ := ok_of_run_bind h
  cases hmismatch : !given.mentionsVar && !(written.erasure == given.readType.erasure) with
  | true =>
    rw [hmismatch] at hrest
    cases hrest
  | false =>
    rw [hmismatch] at hrest
    cases hrest
    refine ⟨hresolve, ?_⟩
    simpa [← Bool.not_or] using hmismatch

/-- Variables leave what type names denote. -/
theorem AddsVariables.sameTypes {s u : State} (h : AddsVariables s.table.scopes u.table.scopes)
    (hdeclared : u.declared = s.declared) (hcatalog : u.catalog = s.catalog) : s.SameTypes u where
  declared := hdeclared
  catalog := hcatalog
  bound := h.boundType?
  enclosing := by
    obtain ⟨scope, hscopes, howner, -⟩ := h
    rw [SymbolTable.enclosingClasses, hscopes, List.filterMap_cons_none howner]
    rfl

/-- The types of parameters that are bound agree with those of the function, and are the same outside of
the block that they are bound in. -/
theorem agrees_of_run_bindParams {e : Expr} {f : FunctionType} {sam : List JType} {setting : Setting}
    {pairs : List (LambdaParam × JType)} {ts : List TypeRef}
    (htypes : pairs.map (LambdaParam.type ∘ Prod.fst) = ts.map some)
    (hwritten : ∀ t ∈ ts, t.isInferred = false) {s u u' : State} (hsame : s.SameTypes u)
    (hadds : AddsVariables s.table.scopes u.table.scopes)
    (hrun : exec (bindParams e f sam pairs setting) u = (.ok (), u')) :
    ∃ ws t, exec (resolveTypes ts setting) s = (.ok ws, t) ∧
      LambdaShape.agrees ws (pairs.map Prod.snd) = true := by
  induction pairs generalizing ts s u with
  | nil =>
    obtain rfl := List.map_eq_nil_iff.mp htypes.symm
    exact ⟨[], s, rfl, rfl⟩
  | cons q pairs ih =>
    obtain ⟨p, given⟩ := q
    cases ts with
    | nil => cases htypes
    | cons t ts =>
      obtain ⟨htype, htypes⟩ := List.cons.inj htypes
      obtain ⟨hfirst, hwritten⟩ := List.forall_mem_cons.mp hwritten
      obtain ⟨w, u₁, hparam, hrest⟩ := ok_of_run_bind hrun
      obtain ⟨hresolve, hagrees⟩ := ok_of_run_paramType htype hfirst hparam
      obtain ⟨_, u₂, hbind, hrest⟩ := ok_of_run_bind hrest
      -- Outside of the block the type is the same.
      obtain ⟨r, s₁, _, hout, hin, hsame₁, htable, htable'⟩ :=
        ReadsTypes.naming.resolveType t setting s u hsame
      obtain ⟨rfl, rfl⟩ := Prod.mk.inj (hresolve.symm.trans hin)
      -- The parameter is one more variable of the block.
      have hstate := exec_inTable (.expr e)
        (bindSymbol { name := p.name, kind := .var, type := w }) setting u₁
      rw [hbind] at hstate
      replace hstate : u₂ = _ := hstate
      have hadds₁ : AddsVariables s₁.table.scopes u₁.table.scopes := by rwa [htable, htable']
      have hadds₂ : AddsVariables s₁.table.scopes u₂.table.scopes := by
        rw [hstate]
        exact AddsVariables.bindSymbol rfl u₁.table hadds₁
      have hsame₂ : s₁.SameTypes u₂ := by
        refine hadds₂.sameTypes ?_ ?_ <;> rw [hstate]
        · exact hsame₁.declared
        · exact hsame₁.catalog
      obtain ⟨ws, s₂, hws, hall⟩ := ih htypes hwritten hsame₂ hadds₂ hrest
      refine ⟨w :: ws, s₂, ?_, ?_⟩
      · rw [resolveTypes, run_bind_ok hout, run_bind_ok hws]
        rfl
      · exact Bool.and_eq_true_iff.mpr ⟨hagrees, hall⟩

/-- Types that agree with the parameters in which the open type variables are replaced agree with the
parameters. -/
theorem agrees_of_eraseOpen (table : SymbolTable) {params : List JType}
    (hwild : ∀ t ∈ params, t.mentionsVar = false → t.readType.wildcard = true →
      t.readType.wildcardsAsWritten = true) {ws : List JType}
    (h : LambdaShape.agrees ws (params.map (eraseOpen table)) = true) :
    LambdaShape.agrees ws params = true := by
  rw [LambdaShape.agrees, List.zip_map_right, List.all_map] at h
  refine List.all_eq_true.mpr fun ⟨w, t⟩ hmem => ?_
  have hchecked := List.all_eq_true.mp h (w, t) hmem
  cases hvars : t.mentionsVar with
  | true => exact Bool.or_eq_true_iff.mpr (.inl hvars)
  | false =>
    have hsame := erasure_eraseOpen table hvars (hwild t (List.of_mem_zip hmem).2 hvars)
    have hreplaced : (eraseOpen table t).mentionsVar = false := t.mentionsVar_subst _ _ hvars
    simpa [hvars, hreplaced, hsame] using hchecked

/-! ## Accepted lambdas -/

/-- A wildcard that is read through a parameter, or that is returned, is as it is written, no type
variable stands for a class that is called `void`, and the dimensions returned can be counted. -/
structure IsOrdinary (f : FunctionType) : Prop where
  params : ∀ t ∈ f.params, t.mentionsVar = false → t.readType.wildcard = true →
    t.readType.wildcardsAsWritten = true
  result : f.returnType.wildcard = true →
    f.returnType.mentionsVar = false ∧ f.returnType.wildcardsAsWritten = true
  void : f.returnType.erasure.isVoid = f.returnType.isVoid
  dims : f.returnType.dims < UInt32.size

/-- The shape of a lambda whose parameters can be bound agrees with what they are bound to. -/
theorem exists_lambdaShape {e : Expr} {f : FunctionType} {sam : List JType} {params : List LambdaParam}
    (body : LambdaBody) {setting : Setting} {s u u' : State} (hlength : params.length = sam.length)
    (hrun : exec (bindParams e f sam (params.zip sam) setting) u = (.ok (), u'))
    (hsame : s.SameTypes u) (hadds : AddsVariables s.table.scopes u.table.scopes) :
    ∃ written t, exec (lambdaShape params body setting) s
        = (.ok { arity := params.length, written, givesValue := (bodyGives body).1
                 givesVoid := (bodyGives body).2 }, t) ∧
      ∀ ws ∈ written, LambdaShape.agrees ws sam = true := by
  cases hwritten : writtenTypes? params with
  | none =>
    refine ⟨none, s, ?_, nofun⟩
    rw [lambdaShape, hwritten]
    rfl
  | some ts =>
    obtain ⟨htypes, hall⟩ := types_of_written hwritten
    have hparams : (params.zip sam).map (LambdaParam.type ∘ Prod.fst) = ts.map some := by
      rw [← htypes, ← List.map_map, List.map_fst_zip hlength.le]
    obtain ⟨ws, t, hws, hagrees⟩ := agrees_of_run_bindParams hparams hall hsame hadds hrun
    rw [List.map_snd_zip hlength.ge] at hagrees
    refine ⟨some ws, t, ?_, fun _ h => Option.some.inj h ▸ hagrees⟩
    have hsome : exec ((some ts).mapM resolveTypes setting) s = (.ok (some ws), t) := by
      show exec ((some <$> resolveTypes ts : Check (Option (List JType))) setting) s = _
      rw [map_eq_pure_bind, run_bind_ok hws]
      rfl
    rw [lambdaShape, hwritten, run_bind_ok hsome]
    rfl

/-- A body that produced something can give a value. -/
theorem givesValue_of_produced {height : Nat} {expected : JType} {body : LambdaBody} {setting : Setting}
    {s s' : State} {produced : Option JType}
    (hrun : exec (bodyType (Checker.upTo height) expected body setting) s = (.ok produced, s'))
    (hproduced : produced.isSome = true) : (bodyGives body).1 = true := by
  cases body with
  | expr e => rfl
  | block block =>
    have hreturns : produced.isSome = decide (0 < valueReturns (.stmt block)) :=
      returns_bodyType height expected block hrun
    rw [hproduced, eq_comm, decide_eq_true_iff, valueReturns, List.countP_pos_iff] at hreturns
    exact List.any_eq_true.mpr hreturns

/-- A lambda that is accepted against a function type has a shape, which agrees with the parameters, and
gives a value unless the function returns none. -/
theorem shape_of_checkLambda {height : Nat} {e : Expr} {f : FunctionType} {params : List LambdaParam}
    {body : LambdaBody} {setting : Setting} {s s' : State} {outcome : Outcome} (hf : IsOrdinary f)
    (hrun : exec (checkLambda (Checker.upTo height) e f params body setting) s = (.ok outcome, s')) :
    ∃ written t, exec (lambdaShape params body setting) s
        = (.ok { arity := params.length, written, givesValue := (bodyGives body).1
                 givesVoid := (bodyGives body).2 }, t) ∧
      f.params.length = params.length ∧ (∀ ws ∈ written, LambdaShape.agrees ws f.params = true) ∧
      (f.returnType.isVoid = false → (bodyGives body).1 = true) := by
  rw [checkLambda, run_bind_ok (run_get _ _)] at hrun
  dsimp only at hrun
  split at hrun
  · cases hrun
  rename_i hlength
  obtain ⟨produced, u, hblock, hrest⟩ := ok_of_run_bind hrun
  rw [run_bind_ok (run_classes _ _)] at hrest
  split at hrest
  · cases hrest
  rename_i hfits
  obtain ⟨scope, hindex, howner, v, hinside⟩ := ok_of_run_inBlock hblock
  obtain ⟨⟨⟩, w, hbind, hbody⟩ := ok_of_run_bind hinside
  -- The types of the parameters do not depend on the block.
  have hadds : AddsVariables s.table.scopes (scope :: s.table.scopes) :=
    ⟨scope, rfl, howner, by simp [hindex]⟩
  have hcount : params.length = (f.params.map (eraseOpen s.table)).length := not_not.mp hlength
  obtain ⟨written, t, hshape, hagrees⟩ :=
    exists_lambdaShape (s := s) body hcount hbind (hadds.sameTypes rfl rfl) hadds
  rw [List.length_map] at hcount
  refine ⟨written, t, hshape, hcount.symm, fun ws hws =>
    agrees_of_eraseOpen s.table hf.params (hagrees ws hws), fun hvoid => ?_⟩
  apply givesValue_of_produced hbody
  rw [Bool.not_eq_true, Bool.not_eq_false', returnFits,
    isVoid_eraseOpen s.table hf.result hf.void hf.dims, hvoid, Bool.false_or] at hfits
  exact Option.isSome_of_any hfits

/-- The shape of a lambda that is accepted for a target type fits the type, unless the function returns
nothing and the body of the lambda cannot give nothing.

The check accepts any body where nothing is returned, which overload resolution does not. -/
theorem fits_of_checkFunctional (height : Nat) (e : Expr) (target : JType) (setting : Setting)
    (s s' : State) (params : List LambdaParam) (body : LambdaBody) (outcome : Outcome)
    (hshape : e.shape = .lambda params body)
    (hordinary : ∀ f ∈ (overlay s.declared setting.classes).functionType? target, IsOrdinary f)
    (hrun : exec (checkFunctional (Checker.upTo height) e target setting) s = (.ok outcome, s')) :
    ∃ f shape t, (overlay s.declared setting.classes).functionType? target = some f ∧
      exec (lambdaShape params body setting) s = (.ok shape, t) ∧
      shape.fits (overlay s.declared setting.classes) target
        = (!f.returnType.isVoid || shape.givesVoid) := by
  rw [checkFunctional, run_bind_ok (run_classes _ _)] at hrun
  cases hf : (overlay s.declared setting.classes).functionType? target with
  | none =>
    rw [hf] at hrun
    cases hrun
  | some f =>
    rw [hf] at hrun
    dsimp only at hrun
    rw [hshape] at hrun
    obtain ⟨checked, u, hchecked, -⟩ := ok_of_run_bind hrun
    obtain ⟨written, t, hlambda, hlength, hagrees, hgives⟩ :=
      shape_of_checkLambda (hordinary f hf) hchecked
    refine ⟨f, _, t, rfl, hlambda, ?_⟩
    have hwritten : (written.all fun w => LambdaShape.agrees w f.params) = true := by
      cases written with
      | none => rfl
      | some ws => exact hagrees ws rfl
    simp only [LambdaShape.fits, hf, hlength, hwritten, beq_self_eq_true, Bool.and_self,
      Bool.true_and]
    cases hvoid : f.returnType.isVoid with
    | true => rfl
    | false => exact hgives hvoid

/-- The interfaces `Step`, with the method `int next(int)`, and `Task`, with the method `void run()`. -/
def callbackClasses : Setting :=
  { classes := ClassTable.toEnv
      ⟨[ClassDef.empty objectName .ordinary,
        { ClassDef.empty "Step" .interface with
          methods := [{ name := "next", params := [.primitive .int], returnType := .primitive .int
                        isAbstract := true }] },
        { ClassDef.empty "Task" .interface with
          methods := [{ name := "run", params := [], returnType := .void, isAbstract := true }] }]⟩ }

/-- The lambda `(int n) -> 5`. -/
def constantStep : Expr :=
  ⟨0, .lambda [{ name := "n", type := some ⟨1, .primitive .int⟩ }] (.expr ⟨2, .literal .int "5"⟩)⟩

/-- The lambda is accepted for `Step`, and its shape fits. -/
theorem constantStep_fits :
    (∀ f ∈ (overlay {} callbackClasses.classes).functionType? (.ofClass "Step"), IsOrdinary f) ∧
      (exec (checkFunctional (Checker.upTo 1) constantStep (.ofClass "Step") callbackClasses)
        {}).1.toOption.isSome = true ∧
      ∃ shape t, exec (lambdaShape [{ name := "n", type := some ⟨1, .primitive .int⟩ }]
          (.expr ⟨2, .literal .int "5"⟩) callbackClasses) {} = (.ok shape, t) ∧
        shape.fits (overlay {} callbackClasses.classes) (.ofClass "Step") = true := by
  have hordinary : ∀ f ∈ (overlay {} callbackClasses.classes).functionType? (.ofClass "Step"),
      IsOrdinary f := by
    have hparts : ∀ f ∈ (overlay {} callbackClasses.classes).functionType? (.ofClass "Step"),
        (∀ t ∈ f.params, t.mentionsVar = false → t.readType.wildcard = true →
            t.readType.wildcardsAsWritten = true) ∧
          (f.returnType.wildcard = true →
            f.returnType.mentionsVar = false ∧ f.returnType.wildcardsAsWritten = true) ∧
          f.returnType.erasure.isVoid = f.returnType.isVoid ∧ f.returnType.dims < UInt32.size := by
      decide +kernel
    exact fun f hf =>
      let ⟨hparams, hresult, hvoid, hdims⟩ := hparts f hf
      ⟨hparams, hresult, hvoid, hdims⟩
  have hvalue : ∀ f ∈ (overlay {} callbackClasses.classes).functionType? (.ofClass "Step"),
      f.returnType.isVoid = false := by decide +kernel
  have haccepted : (exec (checkFunctional (Checker.upTo 1) constantStep (.ofClass "Step")
      callbackClasses) {}).1.toOption.isSome = true := by decide +kernel
  refine ⟨hordinary, haccepted, ?_⟩
  rcases hrun : exec (checkFunctional (Checker.upTo 1) constantStep (.ofClass "Step")
    callbackClasses) {} with ⟨error | outcome, s'⟩
  · rw [hrun] at haccepted
    cases haccepted
  · obtain ⟨f, shape, t, hf, hshape, hfits⟩ := fits_of_checkFunctional 1 constantStep _
      callbackClasses {} s' _ _ outcome rfl hordinary hrun
    refine ⟨shape, t, hshape, ?_⟩
    rw [hfits, hvalue f hf]
    rfl

/-- The lambda `() -> 5`. -/
def constantTask : Expr := ⟨0, .lambda [] (.expr ⟨1, .literal .int "5"⟩)⟩

/-- The lambda is accepted for `Task`, where nothing is returned, and its shape does not fit: a literal
is no statement. -/
theorem constantTask_unfit :
    ¬ ∀ (height : Nat) (e : Expr) (target : JType) (setting : Setting) (s s' t : State)
      (params : List LambdaParam) (body : LambdaBody) (outcome : Outcome) (shape : LambdaShape),
      e.shape = .lambda params body → target.mentionsVar = false →
        exec (checkFunctional (Checker.upTo height) e target setting) s = (.ok outcome, s') →
        exec (lambdaShape params body setting) s = (.ok shape, t) →
        shape.fits (overlay s.declared setting.classes) target = true := by
  intro hall
  have haccepted : (exec (checkFunctional (Checker.upTo 1) constantTask (.ofClass "Task")
      callbackClasses) {}).1.toOption.isSome = true := by decide +kernel
  have hunfit : (LambdaShape.mk 0 none true false).fits (overlay {} callbackClasses.classes)
      (.ofClass "Task") = false := by decide +kernel
  rcases hrun : exec (checkFunctional (Checker.upTo 1) constantTask (.ofClass "Task")
    callbackClasses) {} with ⟨error | outcome, s'⟩
  · rw [hrun] at haccepted
    cases haccepted
  · have hfits := hall 1 constantTask (.ofClass "Task") callbackClasses {} s' {} [] _ outcome _ rfl
      (by decide) hrun rfl
    exact Bool.false_ne_true (hunfit.symm.trans hfits)

end Analysis

end JavaSema
