import JavaSema.Proofs.Hierarchy.Overriding
import JavaSema.Proofs.Inference.Inverse

/-!
# Closed receivers

No type variable leaks out of a receiver that mentions none.  The walk over the hierarchy substitutes
type arguments on some of its steps and erases on others, and where the number of arguments is wrong
it binds nothing.  In a hierarchy whose classes mention their own type parameters only, each type that
it reaches is again without type variables, and raw or with an argument for each type parameter.

There are four groups.

* Mentioned variables.  `vars` lists them, and `isRegular` says that lower bounds and type arguments
  stand where the language has them.
* Substitution.  `mem_vars_subst` says that closed types close what they are substituted in.
* The bindings of an instantiation.  `Instantiation.binds` is the step of the walk: each type
  parameter is bound to a closed type, in the raw case as in the other one.
* The walk.  `forall_closureFrom` carries a property of types along it, and
  `closure_closed_and_members_closed` reads fields and methods off.
-/

namespace JavaSema

namespace JType

/-! ## Mentioned variables -/

mutual

/-- The type variables that the type mentions: the one that it stands for, and those in its type
arguments and in the bounds of a wildcard. -/
def vars : JType → List String
  | { args, upper, lower, var, wildcard, .. } =>
    (if wildcard then varsList upper else var.toList) ++ varsOpt args ++ varsList lower

/-- The type variables that one of the types mentions. -/
def varsList : List JType → List String
  | [] => []
  | t :: ts => t.vars ++ varsList ts

/-- The type variables that one of the type arguments mentions. -/
def varsOpt : Option (List JType) → List String
  | none => []
  | some ts => varsList ts

end

mutual

/-- Whether only wildcards have lower bounds and no type variable has type arguments.  The first part
leaves nothing out: by `Obtained.wellBuilt` no operation on types gives a lower bound to a type that is
no wildcard. -/
def isRegular : JType → Bool
  | { args, upper, lower, var, wildcard, .. } =>
    isRegularOpt args &&
      if wildcard then isRegularList upper && isRegularList lower
      else lower.isEmpty && (var.isNone || args.isNone)

/-- Whether each of the types is regular. -/
def isRegularList : List JType → Bool
  | [] => true
  | t :: ts => t.isRegular && isRegularList ts

/-- Whether each of the type arguments is regular. -/
def isRegularOpt : Option (List JType) → Bool
  | none => true
  | some ts => isRegularList ts

end

theorem vars_eq (t : JType) :
    t.vars = (if t.wildcard then varsList t.upper else t.var.toList) ++ varsOpt t.args
      ++ varsList t.lower := by
  cases t
  rfl

mutual

theorem mentionsVar_eq_false : ∀ t : JType, t.mentionsVar = false ↔ t.vars = []
  | { args, upper, lower, var, wildcard, .. } => by
    have hargs := mentionsVarOpt_eq_false args
    have hupper := mentionsVarList_eq_false upper
    have hlower := mentionsVarList_eq_false lower
    cases wildcard <;> cases var <;>
      simp [mentionsVar, vars, hargs, hupper, hlower, and_comm, and_left_comm]

theorem mentionsVarList_eq_false : ∀ ts : List JType, mentionsVarList ts = false ↔ varsList ts = []
  | [] => by simp [mentionsVarList, varsList]
  | t :: ts => by
    simp [mentionsVarList, varsList, mentionsVar_eq_false t, mentionsVarList_eq_false ts]

theorem mentionsVarOpt_eq_false :
    ∀ args : Option (List JType), mentionsVarOpt args = false ↔ varsOpt args = []
  | none => by simp [mentionsVarOpt, varsOpt]
  | some ts => by simp [mentionsVarOpt, varsOpt, mentionsVarList_eq_false ts]

end

/-- A type without mentioned variables is no type variable. -/
theorem isTypeVar_of_vars {t : JType} (h : t.vars = []) : t.isTypeVar = false := by
  rw [vars_eq] at h
  cases hwild : t.wildcard <;> simp_all [isTypeVar]

theorem vars_of_mem {t : JType} {ts : List JType} (h : varsList ts = []) (ht : t ∈ ts) :
    t.vars = [] := by
  induction ts with
  | nil => cases ht
  | cons u ts ih =>
    rw [varsList, List.append_eq_nil_iff] at h
    rcases List.mem_cons.mp ht with rfl | ht
    · exact h.1
    · exact ih h.2 ht

/-- The type arguments of a closed type are closed. -/
theorem vars_of_mem_args {t a : JType} {args : List JType} (h : t.vars = [])
    (hargs : t.args = some args) (ha : a ∈ args) : a.vars = [] := by
  rw [vars_eq, hargs] at h
  simp only [List.append_eq_nil_iff, varsOpt] at h
  exact vars_of_mem h.1.2 ha

theorem vars_erasure (t : JType) : t.erasure.vars = [] := rfl

/-- What is read through a closed type is closed. -/
theorem vars_readType {t : JType} (h : t.vars = []) : t.readType.vars = [] := by
  unfold readType
  split
  · rename_i hwild
    rw [vars_eq, if_pos hwild] at h
    simp only [List.append_eq_nil_iff] at h
    cases hupper : t.upper with
    | nil => rfl
    | cons u us => exact vars_of_mem h.1.1 (by simp [hupper])
  · exact h

/-! ## Substitution -/

mutual

/-- Bound variables are gone where closed types are substituted for them. -/
theorem mem_vars_subst {b : Bindings} (hb : ∀ v s, b.find? v = some s → s.vars = []) :
    ∀ t : JType, t.isRegular = true → ∀ v ∈ (t.subst b false).vars,
      v ∈ t.vars ∧ b.find? v = none
  | { args, upper, lower, var, wildcard, .. }, hreg, v, hv => by
    have hargs := mem_varsOpt_subst hb args
    have hupper := mem_varsList_subst hb upper
    have hlower := mem_varsList_subst hb lower
    simp only [isRegular, Bool.and_eq_true] at hreg
    cases wildcard with
    | true =>
      simp only [if_true, Bool.and_eq_true] at hreg
      have hmem : v ∈ varsList (substList b false upper) ∨ v ∈ varsList (substList b false lower) := by
        simp only [subst] at hv
        split at hv
        · simpa [vars_eq, varsOpt, varsList, object, ofClass] using .inr hv
        · simp_all [vars_eq, varsOpt, erasure]
      simp only [vars, if_true, List.mem_append]
      rcases hmem with hv | hv
      · exact (hupper hreg.2.1 v hv).imp_left fun h => .inl (.inl h)
      · exact (hlower hreg.2.2 v hv).imp_left .inr
    | false =>
      simp only [Bool.false_eq_true, if_false, Bool.and_eq_true, Bool.or_eq_true] at hreg
      obtain ⟨hregArgs, hnil, hvar⟩ := hreg
      obtain rfl := List.isEmpty_iff.mp hnil
      cases var with
      | none =>
        simp only [subst, vars, varsList, Bool.false_eq_true, if_false, Option.toList_none,
          List.nil_append, List.append_nil] at hv ⊢
        exact hargs hregArgs v hv
      | some u =>
        obtain rfl := Option.isNone_iff_eq_none.mp (hvar.resolve_left (by simp))
        simp only [subst] at hv
        split at hv
        · rename_i s hs
          have hclosed := hb u s hs
          simp_all [vars_eq]
        · simp_all [vars, varsList, varsOpt]

theorem mem_varsList_subst {b : Bindings} (hb : ∀ v s, b.find? v = some s → s.vars = []) :
    ∀ ts : List JType, isRegularList ts = true → ∀ v ∈ varsList (substList b false ts),
      v ∈ varsList ts ∧ b.find? v = none
  | [], _, v, hv => by simp [substList, varsList] at hv
  | t :: ts, hreg, v, hv => by
    simp only [isRegularList, Bool.and_eq_true] at hreg
    simp only [substList, varsList, List.mem_append] at hv ⊢
    rcases hv with hv | hv
    · exact (mem_vars_subst hb t hreg.1 v hv).imp_left .inl
    · exact (mem_varsList_subst hb ts hreg.2 v hv).imp_left .inr

theorem mem_varsOpt_subst {b : Bindings} (hb : ∀ v s, b.find? v = some s → s.vars = []) :
    ∀ args : Option (List JType), isRegularOpt args = true → ∀ v ∈ varsOpt (substOpt b false args),
      v ∈ varsOpt args ∧ b.find? v = none
  | none, _, v, hv => by simp [substOpt, varsOpt] at hv
  | some ts, hreg, v, hv => mem_varsList_subst hb ts hreg v hv

end

theorem length_substList (b : Bindings) (drop : Bool) (ts : List JType) :
    (substList b drop ts).length = ts.length := by
  induction ts with
  | nil => rfl
  | cons t ts ih => simp [substList, ih]

end JType

namespace Bindings

/-- A list binds each of its variables, and unbinds none. -/
theorem find?_foldl_insert_ne_none {l : List (String × JType)} {b : Bindings} {v : String}
    (h : v ∈ l.map Prod.fst ∨ b.find? v ≠ none) :
    find? (l.foldl (fun b (u, t) => insert b u t) b) v ≠ none := by
  induction l generalizing b with
  | nil => simpa using h
  | cons p l ih =>
    obtain ⟨u, t⟩ := p
    apply ih
    rw [find?_insert]
    by_cases hu : v = u
    · exact .inr (by simp [hu])
    · simpa [hu] using h

/-- What a list binds a variable to stands beside it. -/
theorem mem_of_find?_foldl_insert {l : List (String × JType)} {b : Bindings} {v : String}
    {s : JType} (h : find? (l.foldl (fun b (u, t) => insert b u t) b) v = some s) :
    (v, s) ∈ l ∨ b.find? v = some s := by
  induction l generalizing b with
  | nil => exact .inr h
  | cons p l ih =>
    obtain ⟨u, t⟩ := p
    rcases ih h with h | h
    · exact .inl (List.mem_cons_of_mem _ h)
    · rw [find?_insert] at h
      by_cases hu : v = u
      · simp_all
      · exact .inr (by simpa [hu] using h)

theorem find?_ofList_ne_none {l : List (String × JType)} {v : String} (h : v ∈ l.map Prod.fst) :
    find? (ofList l) v ≠ none :=
  find?_foldl_insert_ne_none (.inl h)

theorem mem_of_find?_ofList {l : List (String × JType)} {v : String} {s : JType}
    (h : find? (ofList l) v = some s) : (v, s) ∈ l := by
  rcases mem_of_find?_foldl_insert h with h | h
  · exact h
  · cases h

end Bindings

/-! ## The bindings of an instantiation -/

namespace MethodDef

/-- The names of the type parameters that the method declares itself. -/
def paramNames (m : MethodDef) : List String := m.typeParams.map TypeParam.name

end MethodDef

namespace ClassDef

/-- The names of the type parameters. -/
def paramNames (d : ClassDef) : List String := d.typeParams.map TypeParam.name

/-- Whether the type is raw or has an argument for each type parameter of the class. -/
def admits (d : ClassDef) (t : JType) : Bool :=
  t.args.all fun args => args.length == d.typeParams.length

theorem find?_rawBindings_ne_none {d : ClassDef} {v : String} (h : v ∈ d.paramNames) :
    d.rawBindings.find? v ≠ none :=
  Bindings.find?_ofList_ne_none (by simpa [paramNames] using h)

/-- A raw type binds the type parameters to erased bounds. -/
theorem vars_of_rawBindings {d : ClassDef} {v : String} {s : JType}
    (h : d.rawBindings.find? v = some s) : s.vars = [] := by
  obtain ⟨p, _, hp⟩ := List.mem_map.mp (Bindings.mem_of_find?_ofList h)
  obtain ⟨rfl, rfl⟩ := Prod.mk.inj hp
  unfold TypeParam.erasedBound
  split <;> rfl

theorem find?_bindingsFor_ne_none {d : ClassDef} {t : JType} {args : List JType}
    (hargs : t.args = some args) (h : d.admits t = true) {v : String} (hv : v ∈ d.paramNames) :
    (d.bindingsFor t).find? v ≠ none := by
  have hlen : args.length = d.typeParams.length := by simpa [admits, hargs] using h
  unfold bindingsFor
  simp only [hargs, hlen, if_true]
  apply Bindings.find?_ofList_ne_none
  rwa [List.map_fst_zip (by simp [hlen])]

/-- An instantiation binds the type parameters to its arguments. -/
theorem vars_of_bindingsFor {d : ClassDef} {t : JType} (ht : t.vars = []) {v : String} {s : JType}
    (h : (d.bindingsFor t).find? v = some s) : s.vars = [] := by
  unfold bindingsFor at h
  split at h
  · rename_i args hargs
    split at h
    · exact JType.vars_of_mem_args ht hargs (List.of_mem_zip (Bindings.mem_of_find?_ofList h)).2
    · cases h
  · cases h

end ClassDef

namespace Instantiation

/-- What a closed type of a class binds is closed, and it binds each type parameter. -/
theorem of_binds {d : ClassDef} {t : JType} (ht : t.vars = []) (h : d.admits t = true) :
    (∀ v s, (Instantiation.of t d).bindings.find? v = some s → s.vars = []) ∧
      ∀ v ∈ d.paramNames, (Instantiation.of t d).bindings.find? v ≠ none := by
  unfold Instantiation.of
  by_cases hraw : isRaw t d = true
  · simp only [hraw, if_true]
    exact ⟨fun _ _ => ClassDef.vars_of_rawBindings, fun _ => ClassDef.find?_rawBindings_ne_none⟩
  · simp only [hraw]
    refine ⟨fun _ _ => ClassDef.vars_of_bindingsFor ht, ?_⟩
    intro v hv
    cases hargs : t.args with
    | some args => exact ClassDef.find?_bindingsFor_ne_none hargs h hv
    | none =>
      -- a class that is used without arguments and not raw has no type parameters
      simp_all [isRaw, ClassDef.paramNames]

end Instantiation

/-! ## The walk -/

namespace JType

/-- A regular type that mentions none but the named type variables. -/
def IsOver (names : List String) (t : JType) : Prop :=
  t.isRegular = true ∧ ∀ v ∈ t.vars, v ∈ names

instance (names : List String) (t : JType) : Decidable (t.IsOver names) :=
  inferInstanceAs (Decidable (_ ∧ _))

end JType

namespace ClassEnv

variable {env : ClassEnv}

/-- Whether the type is raw or has an argument for each type parameter of its class, if the class can
be loaded. -/
def fits (env : ClassEnv) (t : JType) : Bool :=
  (env.find? t.name).all fun d => d.admits t

/-- The supertypes and members of the class mention its type parameters only, methods also their own.
Each supertype is raw or has the right number of arguments, and none is a type variable. -/
structure Confines (env : ClassEnv) (d : ClassDef) : Prop where
  /-- The supertypes are types over the type parameters. -/
  supertypes : ∀ s ∈ d.directSupertypes, s.IsOver d.paramNames
  /-- They are raw or have the right number of arguments. -/
  fits : ∀ s ∈ d.directSupertypes, env.fits s = true
  /-- They are no type variables. -/
  isTypeVar : ∀ s ∈ d.directSupertypes, s.isTypeVar = false
  /-- The fields are of types over the type parameters. -/
  fields : ∀ f ∈ d.fields, f.type.IsOver d.paramNames
  /-- The methods are over these and their own type parameters. -/
  methods : ∀ m ∈ d.methods, ∀ t ∈ m.returnType :: m.params, t.IsOver (d.paramNames ++ m.paramNames)

/-- What the walk settles on stands in the queue, and so does what follows it. -/
theorem settle_mem {seen : List String} {queue rest : List JType} {t : JType} {d : ClassDef}
    (hqueue : ∀ s ∈ queue, s.isTypeVar = false) (h : env.settle seen queue = some (t, d, rest)) :
    t ∈ queue ∧ env.find? t.name = some d ∧ ∀ s ∈ rest, s ∈ queue := by
  induction queue with
  | nil => simp [settle] at h
  | cons u queue ih =>
    have hu : u.isTypeVar = false := hqueue u List.mem_cons_self
    have ih := ih fun s hs => hqueue s (List.mem_cons_of_mem _ hs)
    have hskip : env.settle seen queue = some (t, d, rest) →
        t ∈ u :: queue ∧ env.find? t.name = some d ∧ ∀ s ∈ rest, s ∈ u :: queue := by
      intro h
      obtain ⟨ht, hd, hrest⟩ := ih h
      exact ⟨List.mem_cons_of_mem _ ht, hd, fun s hs => List.mem_cons_of_mem _ (hrest s hs)⟩
    rw [settle] at h
    simp only [hu, Bool.false_eq_true, if_false] at h
    split at h
    · exact hskip h
    · split at h
      · exact hskip h
      · rename_i c hc
        obtain ⟨rfl, rfl, rfl⟩ : u = t ∧ c = d ∧ queue = rest := by simpa using h
        exact ⟨List.mem_cons_self, hc, fun s hs => List.mem_cons_of_mem _ hs⟩

/-- A property of types that excludes type variables and passes on to supertypes holds all the way
up. -/
theorem forall_closureFrom {P : JType → Prop} (hvar : ∀ t, P t → t.isTypeVar = false)
    (hstep : ∀ t d, P t → env.find? t.name = some d → ∀ s ∈ (Instantiation.of t d).supertypes, P s)
    (budget : Nat) (seen : List String) {queue : List JType} (hqueue : ∀ t ∈ queue, P t) :
    ∀ i ∈ env.closureFrom budget seen queue,
      ∃ t d, P t ∧ env.find? t.name = some d ∧ i = Instantiation.of t d := by
  induction budget generalizing seen queue with
  | zero => simp [closureFrom]
  | succ budget ih =>
    intro i hi
    rw [closureFrom] at hi
    split at hi
    · cases hi
    · rename_i t d rest hsettle
      obtain ⟨ht, hd, hrest⟩ := settle_mem (fun s hs => hvar s (hqueue s hs)) hsettle
      rcases List.mem_cons.mp hi with rfl | hi
      · exact ⟨t, d, hqueue t ht, hd, rfl⟩
      · refine ih (t.name :: seen) ?_ i hi
        intro s hs
        rcases List.mem_append.mp hs with hs | hs
        · exact hqueue s (hrest s hs)
        · exact hstep t d (hqueue t ht) hd s hs

/-- A type without type variables that is raw or has the right number of arguments. -/
structure Closed (env : ClassEnv) (t : JType) : Prop where
  /-- It mentions no type variable. -/
  vars : t.vars = []
  /-- It is raw or has an argument for each type parameter. -/
  fits : env.fits t = true

/-- A raw class is raw under whatever name. -/
theorem fits_of_args_eq_none {t : JType} (h : t.args = none) : env.fits t = true := by
  simp [fits, ClassDef.admits, h]

/-- Substitution changes neither the class of a type nor the number of its arguments.  A wildcard
comes out raw. -/
theorem fits_subst {t : JType} (hvar : t.isTypeVar = false) (h : env.fits t = true)
    (b : Bindings) : env.fits (t.subst b false) = true := by
  obtain ⟨name, args, dims, upper, lower, var, wildcard, unresolved, binding, member⟩ := t
  cases wildcard with
  | true =>
    apply fits_of_args_eq_none
    rw [JType.subst]
    split <;> rfl
  | false =>
    cases var with
    | some v => simp [JType.isTypeVar] at hvar
    | none =>
      rw [JType.subst_of_none rfl rfl]
      cases args with
      | none => exact fits_of_args_eq_none rfl
      | some args =>
        simpa [fits, ClassDef.admits, JType.withArgs, JType.substOpt, JType.length_substList] using h

theorem Closed.admits {t : JType} {d : ClassDef} (ht : env.Closed t) (hd : env.find? t.name = some d) :
    d.admits t = true := by
  simpa [ClassEnv.fits, hd] using ht.fits

/-- A closed type of a class replaces all type parameters of the class, and brings in no others. -/
theorem Closed.mem_of_mem_vars_subst {t s : JType} {d : ClassDef} (ht : env.Closed t)
    (hd : env.find? t.name = some d) {own : List String} (hs : s.IsOver (d.paramNames ++ own)) :
    ∀ v ∈ (s.subst (Instantiation.of t d).bindings false).vars, v ∈ own := by
  obtain ⟨hclosed, hbound⟩ := Instantiation.of_binds ht.vars (ht.admits hd)
  intro v hv
  obtain ⟨hmem, hnone⟩ := JType.mem_vars_subst hclosed s hs.1 v hv
  rcases List.mem_append.mp (hs.2 v hmem) with h | h
  · exact absurd hnone (hbound v h)
  · exact h

theorem Closed.vars_subst {t s : JType} {d : ClassDef} (ht : env.Closed t)
    (hd : env.find? t.name = some d) (hs : s.IsOver d.paramNames) :
    (s.subst (Instantiation.of t d).bindings false).vars = [] := by
  have hs : s.IsOver (d.paramNames ++ []) := by simpa using hs
  apply List.eq_nil_iff_forall_not_mem.mpr
  intro v hv
  cases ht.mem_of_mem_vars_subst hd hs v hv

/-- One step of the walk: the supertypes of a closed type are closed. -/
theorem Closed.supertypes {t : JType} {d : ClassDef} (ht : env.Closed t)
    (hd : env.find? t.name = some d) (hconf : env.Confines d) :
    ∀ s ∈ (Instantiation.of t d).supertypes, env.Closed s := by
  intro s hs
  obtain ⟨r, hr, rfl⟩ := List.mem_map.mp hs
  split
  · exact ⟨r.vars_erasure, fits_of_args_eq_none rfl⟩
  · constructor
    · exact ht.vars_subst hd (hconf.supertypes r hr)
    · exact fits_subst (hconf.isTypeVar r hr) (hconf.fits r hr) _

/-- The walk starts at closed types. -/
theorem Closed.startingPoints {t : JType} (hvars : t.vars = []) (hfits : env.fits t.readType = true) :
    ∀ s ∈ startingPoints t, env.Closed s := by
  have hread : t.readType.vars = [] := JType.vars_readType hvars
  intro s hs
  unfold ClassEnv.startingPoints at hs
  simp only [JType.isTypeVar_of_vars hread, Bool.false_eq_true, if_false] at hs
  split at hs
  · simp only [List.mem_cons, List.not_mem_nil, or_false] at hs
    rcases hs with rfl | rfl | rfl <;> exact ⟨rfl, fits_of_args_eq_none rfl⟩
  · split at hs
    · cases hs
    · obtain rfl := List.mem_singleton.mp hs
      exact ⟨hread, hfits⟩

/-- All that a closed type reaches are instantiations by closed types. -/
theorem closure_closed (hconf : ∀ name d, env.find? name = some d → env.Confines d) {t : JType}
    (hvars : t.vars = []) (hfits : env.fits t.readType = true) :
    ∀ i ∈ env.closure t, ∃ s d, env.Closed s ∧ env.find? s.name = some d ∧
      i = Instantiation.of s d := by
  apply forall_closureFrom
  · exact fun s hs => JType.isTypeVar_of_vars hs.vars
  · exact fun s d hs hd => hs.supertypes hd (hconf s.name d hd)
  · exact Closed.startingPoints hvars hfits

/-- Methods of one name are methods of the instantiations that the receiver reaches. -/
theorem mem_of_mem_methodsNamed {receiver : JType} {name : String} {c : MethodCandidate}
    (h : c ∈ env.methodsNamed receiver name) :
    ∃ i ∈ env.closure receiver, ∃ m ∈ i.definition.methods, c.definition = m.subst i.bindings := by
  obtain ⟨before, i, after, hwalk, hc, -⟩ := exists_of_mem_methodsNamed h
  obtain ⟨index, hindex, rfl⟩ := List.mem_mapIdx.mp hc
  exact ⟨i, by simp [hwalk], _, List.getElem_mem hindex, rfl⟩

/-- From a receiver that mentions no type variable, and is raw or has the right number of arguments,
only such types are reached.  The fields that it offers mention no type variable, and the parameters
and results of its methods mention those that the method declares itself. -/
theorem closure_closed_and_members_closed
    (hconf : ∀ name d, env.find? name = some d → env.Confines d) (t : JType)
    (hvars : t.mentionsVar = false) (hfits : env.fits t.readType = true) :
    (∀ i ∈ env.closure t, i.type.mentionsVar = false ∧ i.definition.admits i.type = true) ∧
      (∀ name f, env.findField? t name = some f → f.definition.type.mentionsVar = false) ∧
      ∀ name, ∀ c ∈ env.methodsNamed t name, ∀ p ∈ c.definition.returnType :: c.definition.params,
        ∀ v ∈ p.vars, v ∈ c.definition.paramNames := by
  simp only [JType.mentionsVar_eq_false] at hvars ⊢
  have hclosure := closure_closed hconf hvars hfits
  refine ⟨?_, ?_, ?_⟩
  · intro i hi
    obtain ⟨s, d, hs, hd, rfl⟩ := hclosure i hi
    exact ⟨hs.vars, hs.admits hd⟩
  · intro name f hf
    obtain ⟨i, hi, hf⟩ := List.exists_of_findSome?_eq_some hf
    obtain ⟨s, d, hs, hd, rfl⟩ := hclosure i hi
    obtain ⟨g, hg, rfl⟩ := Option.map_eq_some_iff.mp hf
    exact hs.vars_subst hd ((hconf _ d hd).fields g (List.mem_of_find?_eq_some hg))
  · intro name c hc p hp v hv
    obtain ⟨i, hi, m, hm, hdef⟩ := mem_of_mem_methodsNamed hc
    obtain ⟨s, d, hs, hd, rfl⟩ := hclosure i hi
    rw [hdef] at hp ⊢
    obtain ⟨q, hq, rfl⟩ : ∃ q ∈ m.returnType :: m.params,
        p = q.subst (Instantiation.of s d).bindings false := by
      simpa [MethodDef.subst, eq_comm] using hp
    exact hs.mem_of_mem_vars_subst hd ((hconf _ d hd).methods m hm q hq) v hv

instance (env : ClassEnv) (d : ClassDef) : Decidable (env.Confines d) :=
  decidable_of_iff
    ((∀ s ∈ d.directSupertypes, s.IsOver d.paramNames) ∧
      (∀ s ∈ d.directSupertypes, env.fits s = true) ∧
      (∀ s ∈ d.directSupertypes, s.isTypeVar = false) ∧
      (∀ f ∈ d.fields, f.type.IsOver d.paramNames) ∧
      ∀ m ∈ d.methods, ∀ t ∈ m.returnType :: m.params, t.IsOver (d.paramNames ++ m.paramNames))
    ⟨fun ⟨h1, h2, h3, h4, h5⟩ => ⟨h1, h2, h3, h4, h5⟩,
      fun h => ⟨h.supertypes, h.fits, h.isTypeVar, h.fields, h.methods⟩⟩

end ClassEnv

namespace ClassTable

/-- A generic class, one that extends it with wildcard and array arguments, one that extends the
latter raw, and one that is not generic. -/
def boxes : ClassTable :=
  let x := JType.typeVar "X" [.object]
  let y := JType.typeVar "Y" [.object]
  ⟨[{ ClassDef.empty "Box" .ordinary with
        typeParams := [.of "X" []]
        fields := [{ name := "value", type := x, isStatic := false }]
        methods := [{ name := "put", typeParams := [.of "Y" []]
                      params := [.generic "Pair" [x, .wildUpper y]], returnType := y }] },
      { ClassDef.empty "Pair" .ordinary with
        typeParams := [.of "X" [], .of "Y" []]
        superclass := some (.generic "Box" [.generic "Pair" [.wildLower y, x.arrayOf 1]]) },
      { ClassDef.empty "Bare" .ordinary with
        typeParams := [.of "X" []]
        superclass := some (.ofClass "Pair") },
      { ClassDef.empty "Names" .ordinary with superclass := some (.generic "Bare" [.string]) }]⟩

/-- A table whose classes are confined is so as an environment. -/
theorem confines_of_classes {table : ClassTable}
    (h : ∀ d ∈ table.classes, table.toEnv.Confines d) :
    ∀ name d, table.toEnv.find? name = some d → table.toEnv.Confines d :=
  fun _ d hd => h d (mem_classes_of_get? (get?_of_find? hd))

/-- Nothing leaks where arguments are substituted, erased and substituted again on the way up. -/
theorem boxes_closed :
    (∀ name d, boxes.toEnv.find? name = some d → boxes.toEnv.Confines d) ∧
      (JType.generic "Pair" [.wildUpper (.ofClass "Names"), .string]).mentionsVar = false ∧
      boxes.toEnv.fits (JType.generic "Pair" [.wildUpper (.ofClass "Names"), .string]) = true ∧
      ∀ c ∈ boxes.toEnv.methodsNamed
          (.generic "Pair" [.wildUpper (.ofClass "Names"), .string]) "put",
        ∀ p ∈ c.definition.returnType :: c.definition.params,
          ∀ v ∈ p.vars, v ∈ c.definition.paramNames := by
  have hconf : ∀ name d, boxes.toEnv.find? name = some d → boxes.toEnv.Confines d :=
    confines_of_classes (by decide)
  refine ⟨hconf, by decide, by decide, ?_⟩
  exact (ClassEnv.closure_closed_and_members_closed hconf _ (by decide) (by decide)).2.2 "put"

/-- A chain of two generic classes, one that extends its own type variable, and one with a method whose
result is a type variable of the method with a type argument. -/
def leaky : ClassTable :=
  let t := JType.typeVar "T" [.object]
  let x := JType.typeVar "X" [.object]
  ⟨[{ ClassDef.empty "Box" .ordinary with
        typeParams := [.of "X" []]
        fields := [{ name := "value", type := x, isStatic := false }] },
      { ClassDef.empty "Pair" .ordinary with
        typeParams := [.of "X" [], .of "Y" []]
        superclass := some (.generic "Box" [x]) },
      { ClassDef.empty "Bag" .ordinary with typeParams := [.of "T" []], superclass := some t },
      { ClassDef.empty "Maker" .ordinary with
        typeParams := [.of "T" []]
        methods := [{ name := "make", typeParams := [.of "M" []], params := []
                      returnType := (JType.typeVar "M" [.object]).withArgs (some [t]) }] }]⟩

/-- A class that extends its type variable hands on whatever the variable is bound to: a type with a
wrong number of arguments, which binds nothing, and above it a type variable of another class.  In the
arguments of a type variable nothing is substituted. -/
theorem leaky_leaks :
    (∀ d ∈ leaky.classes,
        (∀ s ∈ d.directSupertypes, leaky.toEnv.fits s = true ∧ ∀ v ∈ s.vars, v ∈ d.paramNames) ∧
          (∀ f ∈ d.fields, ∀ v ∈ f.type.vars, v ∈ d.paramNames) ∧
          ∀ m ∈ d.methods, ∀ s ∈ m.returnType :: m.params, ∀ v ∈ s.vars,
            v ∈ d.paramNames ++ m.paramNames) ∧
      (∀ s ∈ [JType.generic "Bag" [.generic "Pair" [.string]], .generic "Maker" [.string]],
        s.mentionsVar = false ∧ leaky.toEnv.fits s = true) ∧
      (∃ i ∈ leaky.toEnv.closure (.generic "Bag" [.generic "Pair" [.string]]),
        i.definition.admits i.type = false) ∧
      (∃ i ∈ leaky.toEnv.closure (.generic "Bag" [.generic "Pair" [.string]]),
        i.type.mentionsVar = true) ∧
      (∃ f, leaky.toEnv.findField? (.generic "Bag" [.generic "Pair" [.string]]) "value" = some f ∧
        f.definition.type.mentionsVar = true) ∧
      ∃ c ∈ leaky.toEnv.methodsNamed (.generic "Maker" [.string]) "make",
        "T" ∈ c.definition.returnType.vars ∧ "T" ∉ c.definition.paramNames := by
  decide +kernel

end ClassTable

end JavaSema
