import JavaSema.Proofs.Hierarchy.Closed

/-!
# Type parameters of methods under substitution

A receiver's type arguments are substituted in the whole type of a method, by the names of the type
variables alone.  So a type parameter that a method declares itself stays where it is as long as its
class declares none of the same name, and new occurrences of it come in with the type arguments that
mention it.

There are three groups.

* Positions.  `at?` looks a type up inside another one, and `at?_subst` and `at?_of_subst` say what
  stands where after a substitution.
* Methods.  `keeps_subst_iff` says when all occurrences of a type variable are kept, and
  `keeps_of_avoids` when none come in.
* Receivers.  `methodsNamed_keeps` puts this together for the candidates of a receiver.
-/

namespace JavaSema

namespace JType

/-! ## Positions -/

/-- A step from a type to one that it is built from: a type argument, or a bound of a wildcard. -/
inductive Step where
  | arg (i : Nat)
  | upper (i : Nat)
  | lower (i : Nat)
deriving DecidableEq

/-- The type that a step leads to.  No step leads out of a type variable. -/
def child? (t : JType) : Step → Option JType
  | .arg i => if t.wildcard || t.isTypeVar then none else t.args.bind fun as => as[i]?
  | .upper i => if t.wildcard then t.upper[i]? else none
  | .lower i => if t.wildcard then t.lower[i]? else none

/-- The type at the end of a path. -/
def at? : JType → List Step → Option JType
  | t, [] => some t
  | t, s :: path => (t.child? s).bind fun c => c.at? path

/-- The type is the variable of that name. -/
def IsVar (v : String) (t : JType) : Prop := t.isTypeVar = true ∧ t.var = some v

theorem IsVar.wildcard {v : String} {t : JType} (h : t.IsVar v) : t.wildcard = false := by
  simpa [isTypeVar, h.2] using h.1

theorem IsVar.mem_vars {v : String} {t : JType} (h : t.IsVar v) : v ∈ t.vars := by
  rw [vars_eq, if_neg (by simp [h.wildcard]), h.2]
  simp

theorem exists_isVar {t : JType} (h : t.isTypeVar = true) : ∃ v, t.IsVar v := by
  obtain ⟨hsome, -⟩ := Bool.and_eq_true_iff.mp h
  obtain ⟨v, hv⟩ := Option.isSome_iff_exists.mp hsome
  exact ⟨v, h, hv⟩

theorem child?_of_isTypeVar {t : JType} (h : t.isTypeVar = true) (s : Step) : t.child? s = none := by
  obtain ⟨v, hv⟩ := exists_isVar h
  cases s <;> simp [child?, h, hv.wildcard]

theorem varsList_subset {t : JType} {ts : List JType} (h : t ∈ ts) : t.vars ⊆ varsList ts := by
  induction ts with
  | nil => cases h
  | cons u ts ih =>
    rcases List.mem_cons.mp h with rfl | h
    · exact List.subset_append_left _ _
    · exact List.Subset.trans (ih h) (List.subset_append_right _ _)

theorem vars_child?_subset {t c : JType} {s : Step} (h : t.child? s = some c) : c.vars ⊆ t.vars := by
  intro v hv
  rw [vars_eq, List.mem_append, List.mem_append]
  cases s with
  | arg i =>
    simp only [child?, Option.ite_none_left_eq_some, Option.bind_eq_some_iff] at h
    obtain ⟨-, args, hargs, hc⟩ := h
    rw [hargs]
    exact .inl (.inr (varsList_subset (List.mem_of_getElem? hc) hv))
  | upper i =>
    simp only [child?, Option.ite_none_right_eq_some] at h
    rw [if_pos h.1]
    exact .inl (.inl (varsList_subset (List.mem_of_getElem? h.2) hv))
  | lower i =>
    simp only [child?, Option.ite_none_right_eq_some] at h
    exact .inr (varsList_subset (List.mem_of_getElem? h.2) hv)

/-- A type variable that stands somewhere in a type is mentioned by it. -/
theorem mem_vars_of_at? {t x : JType} {path : List Step} (h : t.at? path = some x) {v : String}
    (hx : x.IsVar v) : v ∈ t.vars := by
  induction path generalizing t with
  | nil =>
    obtain rfl := Option.some.inj h
    exact hx.mem_vars
  | cons s path ih =>
    obtain ⟨c, hc, hat⟩ := Option.bind_eq_some_iff.mp h
    exact vars_child?_subset hc (ih hat)

theorem substList_eq_map (b : Bindings) (drop : Bool) (ts : List JType) :
    substList b drop ts = ts.map (subst b drop) := by
  induction ts with
  | nil => rfl
  | cons t ts ih => rw [substList, ih, List.map_cons]

theorem substOpt_eq_map (b : Bindings) (drop : Bool) (args : Option (List JType)) :
    substOpt b drop args = args.map (List.map (subst b drop)) := by
  cases args with
  | none => rfl
  | some ts => rw [substOpt, substList_eq_map, Option.map_some]

variable {b : Bindings} {t : JType}

/-- A wildcard stays one.  Its bounds are substituted in, and it takes the erasure of the first. -/
theorem subst_eq_of_wildcard (h : t.wildcard = true) (b : Bindings) (drop : Bool) :
    t.subst b drop =
      { ((t.upper.map (subst b drop)).headD object).erasure with
        wildcard := true
        upper := t.upper.map (subst b drop)
        lower := t.lower.map (subst b drop) } := by
  cases t
  cases h
  simp only [subst, ← substList_eq_map]
  split
  · next hupper =>
    rw [hupper]
    rfl
  · next hupper =>
    rw [hupper]
    rfl

/-- A type that is neither a wildcard nor a type variable is substituted in by its type arguments. -/
theorem subst_eq_of_none (hvar : t.var = none) (hwild : t.wildcard = false) (b : Bindings)
    (drop : Bool) : t.subst b drop = t.withArgs (t.args.map (List.map (subst b drop))) := by
  rw [subst_of_none hvar hwild, substOpt_eq_map]

theorem subst_of_wildcard (h : t.wildcard = true) (b : Bindings) (drop : Bool) :
    (t.subst b drop).wildcard = true ∧
      (t.subst b drop).upper = t.upper.map (subst b drop) ∧
      (t.subst b drop).lower = t.lower.map (subst b drop) := by
  rw [subst_eq_of_wildcard h]
  exact ⟨rfl, rfl, rfl⟩

/-- A type variable that is not bound stays. -/
theorem IsVar.subst_of_unbound {v : String} (h : t.IsVar v) (hv : b.find? v = none) :
    t.subst b false = t := by
  have hwild := h.wildcard
  obtain ⟨-, hvar⟩ := h
  cases t
  cases hvar
  cases hwild
  simp only [subst, hv, Bool.false_eq_true, if_false]

/-- What becomes of a type variable that is dropped: its erasure, as the same member. -/
theorem IsVar.subst_of_dropped {v : String} (h : t.IsVar v) (hv : b.find? v = none) :
    t.subst b true = { t.erasure with member := t.member } := by
  have hwild := h.wildcard
  obtain ⟨-, hvar⟩ := h
  cases t
  cases hvar
  cases hwild
  simp only [subst, hv, if_true, erasure]

/-- Only a type variable becomes one. -/
theorem isTypeVar_subst (h : t.isTypeVar = false) (b : Bindings) (drop : Bool) :
    (t.subst b drop).isTypeVar = false := by
  cases hwild : t.wildcard with
  | true => simp [isTypeVar, (subst_of_wildcard hwild b drop).1]
  | false =>
    have hvar : t.var = none := by simpa [isTypeVar, hwild] using h
    rw [subst_of_none hvar hwild]
    exact h

/-- Substitution goes on at the same steps, except that it stops at a type variable. -/
theorem child?_subst (h : t.isTypeVar = false) (b : Bindings) (drop : Bool) (s : Step) :
    (t.subst b drop).child? s = (t.child? s).map (subst b drop) := by
  cases hwild : t.wildcard with
  | true =>
    obtain ⟨hwild', hupper, hlower⟩ := subst_of_wildcard hwild b drop
    cases s <;> simp [child?, hwild, hwild', hupper, hlower]
  | false =>
    have hvar : t.var = none := by simpa [isTypeVar, hwild] using h
    rw [subst_eq_of_none hvar hwild]
    cases s with
    | arg i => cases hargs : t.args <;> simp [child?, withArgs, isTypeVar, hwild, hvar, hargs]
    | upper i => simp [child?, withArgs, hwild]
    | lower i => simp [child?, withArgs, hwild]

/-- What stood somewhere stands there with the types substituted. -/
theorem at?_subst {x : JType} {path : List Step} (h : t.at? path = some x) (b : Bindings)
    (drop : Bool) : (t.subst b drop).at? path = some (x.subst b drop) := by
  induction path generalizing t with
  | nil =>
    obtain rfl := Option.some.inj h
    rfl
  | cons s path ih =>
    obtain ⟨c, hc, hat⟩ := Option.bind_eq_some_iff.mp h
    have hplain : t.isTypeVar = false := by
      by_contra hvar
      rw [child?_of_isTypeVar (by simpa using hvar)] at hc
      cases hc
    rw [at?, child?_subst hplain, hc]
    exact ih hat

/-- What stands somewhere after a substitution has stood there before, or it is part of what a type
variable was replaced by. -/
theorem at?_of_subst {y : JType} {path : List Step} (h : (t.subst b false).at? path = some y) :
    (∃ x, t.at? path = some x ∧ x.subst b false = y) ∨
      ∃ front back x v, path = front ++ back ∧ t.at? front = some x ∧ x.IsVar v ∧
        (b.find? v).isSome = true ∧ (x.subst b false).at? back = some y := by
  induction path generalizing t with
  | nil => exact .inl ⟨t, rfl, Option.some.inj h⟩
  | cons s path ih =>
    cases hvar : t.isTypeVar with
    | true =>
      obtain ⟨v, hv⟩ := exists_isVar hvar
      refine .inr ⟨[], s :: path, t, v, rfl, rfl, hv, ?_, h⟩
      by_contra hfind
      rw [hv.subst_of_unbound (by simpa using hfind), at?, child?_of_isTypeVar hvar] at h
      cases h
    | false =>
      rw [at?, child?_subst hvar] at h
      obtain ⟨c', hc', hat⟩ := Option.bind_eq_some_iff.mp h
      obtain ⟨c, hc, rfl⟩ := Option.map_eq_some_iff.mp hc'
      rcases ih hat with ⟨x, hx, hy⟩ | ⟨front, back, x, v, rfl, hx, hv, hfind, hy⟩
      · exact .inl ⟨x, by rw [at?, hc]; exact hx, hy⟩
      · exact .inr ⟨s :: front, back, x, v, rfl, by rw [at?, hc]; exact hx, hv, hfind, hy⟩

end JType

namespace Bindings

/-- No type that is bound mentions the type variable. -/
def Avoids (b : Bindings) (v : String) : Prop := ∀ u w, b.find? u = some w → v ∉ w.vars

end Bindings

namespace JType

variable {b : Bindings} {t x : JType} {v : String}

/-- A type that replaces a variable mentions what it mentions anywhere. -/
theorem vars_subst_of_isVar {w : JType} (hx : x.IsVar v) (hw : b.find? v = some w) :
    (x.subst b false).vars = w.vars := by
  rw [subst_of_var hx.2 hx.wildcard hw, vars_eq, vars_eq w]

/-- A variable that is neither bound nor mentioned by a bound type is nowhere but where it was. -/
theorem at?_subst_isVar (hv : b.find? v = none) (havoid : b.Avoids v) (hx : x.IsVar v)
    (path : List Step) : (t.subst b false).at? path = some x ↔ t.at? path = some x := by
  constructor
  · intro h
    rcases at?_of_subst h with ⟨y, hy, rfl⟩ | ⟨front, back, y, u, rfl, -, hyu, hu, hback⟩
    · have hyvar : y.isTypeVar = true := by
        by_contra hyvar
        rw [IsVar, isTypeVar_subst (by simpa using hyvar)] at hx
        cases hx.1
      obtain ⟨u, hu⟩ := exists_isVar hyvar
      cases hfind : b.find? u with
      | none =>
        rw [hu.subst_of_unbound hfind]
        exact hy
      | some w =>
        have hmem := hx.mem_vars
        rw [vars_subst_of_isVar hu hfind] at hmem
        exact absurd hmem (havoid u w hfind)
    · obtain ⟨w, hw⟩ := Option.isSome_iff_exists.mp hu
      have hmem := mem_vars_of_at? hback hx
      rw [vars_subst_of_isVar hyu hw] at hmem
      exact absurd hmem (havoid u w hw)
  · intro h
    rw [at?_subst h, hx.subst_of_unbound hv]

end JType

/-! ## Methods -/

namespace MethodDef

open JType

/-- The type at the end of a path into the result, which is at place 0, or into a parameter. -/
def at? (m : MethodDef) (place : Nat) (path : List Step) : Option JType :=
  (m.returnType :: m.params)[place]?.bind fun t => t.at? path

theorem at?_eq_some (m : MethodDef) {place : Nat} {path : List Step} {x : JType} :
    m.at? place path = some x ↔
      ∃ t, (m.returnType :: m.params)[place]? = some t ∧ t.at? path = some x :=
  Option.bind_eq_some_iff

theorem at?_subst_eq_some (m : MethodDef) (b : Bindings) {place : Nat} {path : List Step}
    {x : JType} : (m.subst b).at? place path = some x ↔
      ∃ t, (m.returnType :: m.params)[place]? = some t ∧ (t.subst b false).at? path = some x := by
  have hmap : (m.subst b).returnType :: (m.subst b).params
      = (m.returnType :: m.params).map (JType.subst b false) := rfl
  rw [at?_eq_some, hmap, List.getElem?_map]
  simp

/-- The occurrences of a type variable in the types of a method stay as they are. -/
def Keeps (m n : MethodDef) (v : String) : Prop :=
  ∀ place path x, x.IsVar v → m.at? place path = some x → n.at? place path = some x

/-- The type variable occurs in the types of a method. -/
def Occurs (m : MethodDef) (v : String) : Prop :=
  ∃ place path x, x.IsVar v ∧ m.at? place path = some x

variable {m : MethodDef} {b : Bindings} {v : String}

theorem keeps_of_unbound (hv : b.find? v = none) : m.Keeps (m.subst b) v := by
  intro place path x hx h
  obtain ⟨t, ht, hat⟩ := m.at?_eq_some.mp h
  refine (m.at?_subst_eq_some b).mpr ⟨t, ht, ?_⟩
  rw [at?_subst hat, hx.subst_of_unbound hv]

/-- Of a bound variable each occurrence is replaced. -/
theorem not_keeps_of_bound {w : JType} (hw : b.find? v = some w) (hmem : v ∉ w.vars)
    (hoccurs : m.Occurs v) : ¬ m.Keeps (m.subst b) v := by
  intro hkeeps
  obtain ⟨place, path, x, hx, h⟩ := hoccurs
  obtain ⟨t, ht, hat⟩ := m.at?_eq_some.mp h
  obtain ⟨t', ht', hat'⟩ := (m.at?_subst_eq_some b).mp (hkeeps place path x hx h)
  obtain rfl := Option.some.inj (ht.symm.trans ht')
  have hx' : x.subst b false = x := by
    rw [at?_subst hat] at hat'
    exact Option.some.inj hat'
  apply hmem
  rw [← vars_subst_of_isVar hx hw, hx']
  exact hx.mem_vars

/-- All occurrences of a variable are kept exactly if the variable is not bound or does not occur. -/
theorem keeps_subst_iff (h : ∀ w, b.find? v = some w → v ∉ w.vars) :
    m.Keeps (m.subst b) v ↔ b.find? v = none ∨ ¬ m.Occurs v := by
  constructor
  · intro hkeeps
    cases hfind : b.find? v with
    | none => exact .inl rfl
    | some w => exact .inr fun hoccurs => not_keeps_of_bound hfind (h w hfind) hoccurs hkeeps
  · rintro (hfind | hoccurs)
    · exact keeps_of_unbound hfind
    · exact fun place path x hx hat => absurd ⟨place, path, x, hx, hat⟩ hoccurs

/-- A variable that is neither bound nor mentioned by a bound type comes in nowhere. -/
theorem keeps_of_avoids (hv : b.find? v = none) (havoid : b.Avoids v) : (m.subst b).Keeps m v := by
  intro place path x hx h
  obtain ⟨t, ht, hat⟩ := (m.at?_subst_eq_some b).mp h
  exact m.at?_eq_some.mpr ⟨t, ht, (at?_subst_isVar hv havoid hx path).mp hat⟩

end MethodDef

/-! ## Receivers -/

namespace ClassDef

/-- Only the type parameters of a class are bound by its types. -/
theorem find?_bindingsFor_of_not_mem {d : ClassDef} (t : JType) {v : String} (hv : v ∉ d.paramNames) :
    (d.bindingsFor t).find? v = none := by
  by_contra hfind
  obtain ⟨w, hw⟩ := Option.ne_none_iff_exists'.mp hfind
  unfold bindingsFor at hw
  split at hw
  · split at hw
    · exact hv (List.of_mem_zip (Bindings.mem_of_find?_ofList hw)).1
    · cases hw
  · cases hw

theorem find?_rawBindings_of_not_mem {d : ClassDef} {v : String} (hv : v ∉ d.paramNames) :
    d.rawBindings.find? v = none := by
  by_contra hfind
  obtain ⟨w, hw⟩ := Option.ne_none_iff_exists'.mp hfind
  obtain ⟨p, hp, heq⟩ := List.mem_map.mp (Bindings.mem_of_find?_ofList hw)
  obtain ⟨rfl, -⟩ := Prod.mk.inj heq
  exact hv (List.mem_map_of_mem hp)

end ClassDef

namespace Instantiation

theorem find?_of_not_mem {d : ClassDef} (t : JType) {v : String} (hv : v ∉ d.paramNames) :
    (Instantiation.of t d).bindings.find? v = none := by
  unfold Instantiation.of
  split
  · exact ClassDef.find?_rawBindings_of_not_mem hv
  · exact ClassDef.find?_bindingsFor_of_not_mem t hv

end Instantiation

namespace ClassEnv

open MethodDef

variable {env : ClassEnv}

/-- All that the walk reaches are instantiations of classes by types. -/
theorem exists_of_mem_closureFrom {budget : Nat} {seen : List String} {queue : List JType}
    {i : Instantiation} (h : i ∈ env.closureFrom budget seen queue) :
    ∃ t d, i = Instantiation.of t d := by
  induction budget generalizing seen queue with
  | zero => cases h
  | succ budget ih =>
    rw [closureFrom] at h
    split at h
    · cases h
    · rename_i t d rest hsettle
      rcases List.mem_cons.mp h with rfl | h
      · exact ⟨t, d, rfl⟩
      · exact ih h

/-- What a substitution does with the type parameters that a method declares itself: one that is bound
is replaced wherever it occurs, and one that is not bound stays where it is and, unless a bound type
mentions it, comes in nowhere.  So each method that a receiver offers is generic in those of its type
parameters that its class does not declare as well: they occur where they are declared to, and nowhere
else if the type arguments do not mention them.  The same holds for constructors. -/
theorem methodsNamed_keeps (env : ClassEnv) :
    (∀ (m : MethodDef) (b : Bindings) (v : String),
        (∀ w, b.find? v = some w → v ∉ w.vars) →
          (m.Keeps (m.subst b) v ↔ b.find? v = none ∨ ¬ m.Occurs v)) ∧
      (∀ (receiver : JType) (name : String), ∀ c ∈ env.methodsNamed receiver name,
        ∃ i ∈ env.closure receiver, ∃ m ∈ i.definition.methods, c.definition = m.subst i.bindings ∧
          ∀ v ∈ c.definition.paramNames, v ∉ i.definition.paramNames →
            m.Keeps c.definition v ∧ (i.bindings.Avoids v → c.definition.Keeps m v)) ∧
      ∀ t : JType, ∀ c ∈ env.constructorsOf t,
        ∃ d, env.find? t.name = some d ∧ ∃ m ∈ d.constructors,
          c.definition = m.subst (d.bindingsFor t) ∧ ∀ v ∈ c.definition.paramNames, v ∉ d.paramNames →
            m.Keeps c.definition v ∧ ((d.bindingsFor t).Avoids v → c.definition.Keeps m v) := by
  refine ⟨fun m b v => keeps_subst_iff, ?_, ?_⟩
  · intro receiver name c hc
    obtain ⟨i, hi, m, hm, hdef⟩ := mem_of_mem_methodsNamed hc
    obtain ⟨t, d, rfl⟩ := exists_of_mem_closureFrom hi
    refine ⟨_, hi, m, hm, hdef, fun v _ hv => ?_⟩
    have hfind := Instantiation.find?_of_not_mem t hv
    rw [hdef]
    exact ⟨keeps_of_unbound hfind, keeps_of_avoids hfind⟩
  · intro t c hc
    unfold constructorsOf at hc
    split at hc
    · cases hc
    · rename_i d hd
      obtain ⟨index, hindex, rfl⟩ := List.mem_mapIdx.mp hc
      refine ⟨d, hd, _, List.getElem_mem hindex, rfl, fun v _ hv => ?_⟩
      have hfind := ClassDef.find?_bindingsFor_of_not_mem t hv
      exact ⟨keeps_of_unbound hfind, keeps_of_avoids hfind⟩

end ClassEnv

open JType

/-- A method over the type variable `T` of its class and its own `U`. -/
def pairing : MethodDef :=
  { name := "pair"
    typeParams := [.of "U" []]
    params := [(typeVar "U" []).arrayOf 1]
    returnType := .generic "Map" [typeVar "T" [], wildLower (typeVar "U" [])] }

/-- A method over its own type variable `T`. -/
def identity : MethodDef :=
  { name := "id", typeParams := [.of "T" []], params := [typeVar "T" []], returnType := typeVar "T" [] }

/-- A class with a type variable `T` and these two methods. -/
def cell : ClassDef :=
  { ClassDef.empty "Cell" .interface with
    typeParams := [.of "T" []]
    methods := [pairing, identity] }

/-- A table with this class only. -/
def cells : ClassTable := ⟨[cell]⟩

/-- From a cell the walk reaches the cell. -/
theorem closure_cell (t : JType) :
    cells.toEnv.closure (.generic "Cell" [t]) = [Instantiation.of (.generic "Cell" [t]) cell] :=
  ClassEnv.closure_of_length_names rfl ⟨rfl, rfl, rfl, rfl, rfl⟩ rfl

/-- A cell offers a method under its name with the argument substituted. -/
theorem methodsNamed_cell (t : JType) :
    cells.toEnv.methodsNamed (.generic "Cell" [t]) "pair"
        = [⟨.method "Cell" 0, pairing.subst [("T", t)]⟩] ∧
      cells.toEnv.methodsNamed (.generic "Cell" [t]) "id"
        = [⟨.method "Cell" 1, identity.subst [("T", t)]⟩] := by
  constructor <;>
  · rw [ClassEnv.methodsNamed, closure_cell]
    rfl

/-- On a cell of strings the own type parameter of the first method stays where it is. -/
theorem pairing_keeps :
    (∀ w, Bindings.find? [("T", string)] "U" = some w → "U" ∉ w.vars) ∧
      pairing.Keeps (pairing.subst [("T", string)]) "U" ∧
      ∃ c ∈ cells.toEnv.methodsNamed (.generic "Cell" [string]) "pair",
        "U" ∈ c.definition.paramNames ∧ "U" ∉ cell.paramNames ∧ pairing.Keeps c.definition "U" ∧
          c.definition.Keeps pairing "U" := by
  obtain ⟨hmethod, hreceiver, -⟩ := ClassEnv.methodsNamed_keeps cells.toEnv
  have hstring : ∀ w, Bindings.find? [("T", string)] "U" = some w → "U" ∉ w.vars := nofun
  refine ⟨hstring, (hmethod pairing _ "U" hstring).mpr (.inl rfl), ?_⟩
  have hc : ⟨.method "Cell" 0, pairing.subst [("T", string)]⟩
      ∈ cells.toEnv.methodsNamed (.generic "Cell" [string]) "pair" := by
    rw [(methodsNamed_cell string).1]
    exact List.mem_cons_self
  obtain ⟨i, hi, m, hm, hdef, hkeeps⟩ := hreceiver _ _ _ hc
  rw [closure_cell, List.mem_singleton] at hi
  subst hi
  obtain rfl : m = pairing := by
    rcases List.mem_cons.mp hm with rfl | hm
    · rfl
    · obtain rfl := List.mem_singleton.mp hm
      exact absurd (congrArg MethodDef.name hdef) (by decide)
  obtain ⟨hkept, hnone⟩ := hkeeps "U" List.mem_cons_self (by decide)
  refine ⟨_, hc, List.mem_cons_self, by decide, hkept, hnone ?_⟩
  intro u w hw
  obtain ⟨rfl, rfl⟩ := Prod.mk.inj (List.mem_singleton.mp (Bindings.mem_of_find?_ofList hw))
  decide

/-- On a cell of strings the other method, which declares a type parameter `T` of its own, is offered
with strings in place of it.  And on a cell of `U` the `U` of the receiver is taken for the type
parameter of the first method. -/
theorem identity_not_kept :
    (∃ c ∈ cells.toEnv.methodsNamed (.generic "Cell" [string]) "id",
        c.definition.paramNames = ["T"] ∧ identity.at? 0 [] = some (typeVar "T" []) ∧
          c.definition.at? 0 [] = some string ∧ ¬ identity.Keeps c.definition "T") ∧
      ∃ c ∈ cells.toEnv.methodsNamed (.generic "Cell" [typeVar "U" []]) "pair",
        c.definition.paramNames = ["U"] ∧ pairing.at? 0 [.arg 0] = some (typeVar "T" []) ∧
          c.definition.at? 0 [.arg 0] = some (typeVar "U" []) ∧
          ¬ c.definition.Keeps pairing "U" := by
  rw [(methodsNamed_cell string).2, (methodsNamed_cell (typeVar "U" [])).1]
  have hvar : ∀ v, (typeVar v []).IsVar v := fun v => ⟨rfl, rfl⟩
  refine ⟨⟨_, List.mem_cons_self, rfl, rfl, rfl, ?_⟩, _, List.mem_cons_self, rfl, rfl, rfl, ?_⟩
  · exact MethodDef.not_keeps_of_bound (w := string) rfl (by decide) ⟨0, [], _, hvar "T", rfl⟩
  · intro hkeeps
    have hvars : some (typeVar "T" []) = some (typeVar "U" []) :=
      hkeeps 0 [.arg 0] (typeVar "U" []) (hvar "U") rfl
    exact absurd (congrArg (Option.map JType.vars) hvars) (by decide)

end JavaSema
