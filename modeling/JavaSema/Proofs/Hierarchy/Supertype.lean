import JavaSema.Proofs.Hierarchy.Walk

/-!
# The two walks agree

`ClassEnv.closure` walks over instantiated types and `ClassEnv.reached` over names.  Where every
direct supertype is a class type, the two visit the same classes in the same order, so that a type can
be seen as a supertype exactly where the test of subclasses says so.

There are three groups.

* Class types.  `IsClass` is a class type with or without type arguments, and `PlainSupertypes` says
  that a hierarchy has no other supertypes.  Erasing and substituting keep the name of a class type.
* The simulation.  `settle_cases` matches one step of the two walks, and `closureFrom_definitions`
  runs them side by side.
* The result.  `isSubclass_iff_and_asSupertype_isSome_iff` puts the two walks over a class table
  together.
-/

namespace JavaSema

namespace JType

/-! ## Class types -/

/-- Whether the word names a class: it is no primitive type, not `void` and not `null`. -/
def isClassName (name : String) : Bool :=
  (Primitive.ofKeyword? name).isNone && name != "void" && name != "null"

/-- A class type, with or without type arguments. -/
structure IsClass (t : JType) : Prop where
  /-- It is no array. -/
  dims : t.dims = 0
  /-- It is no type variable. -/
  var : t.var = none
  /-- It is no wildcard. -/
  wildcard : t.wildcard = false
  /-- It is resolved. -/
  unresolved : t.unresolved = false
  /-- Its name is that of a class. -/
  name : isClassName t.name = true

instance (t : JType) : Decidable t.IsClass :=
  decidable_of_iff
    (t.dims = 0 ∧ t.var = none ∧ t.wildcard = false ∧ t.unresolved = false ∧
      isClassName t.name = true)
    ⟨fun ⟨h1, h2, h3, h4, h5⟩ => ⟨h1, h2, h3, h4, h5⟩,
      fun h => ⟨h.dims, h.var, h.wildcard, h.unresolved, h.name⟩⟩

/-- A class type is not a type variable. -/
theorem IsClass.isTypeVar {t : JType} (h : t.IsClass) : t.isTypeVar = false := by
  simp [JType.isTypeVar, h.var]

/-- Substitution goes into the arguments of a class type and leaves the rest. -/
theorem IsClass.subst_eq {t : JType} (h : t.IsClass) (b : Bindings) (dropUnbound : Bool) :
    t.subst b dropUnbound = t.withArgs (substOpt b dropUnbound t.args) := by
  obtain ⟨name, args, dims, upper, lower, var, wildcard, unresolved, binding, member⟩ := t
  have hvar := h.var
  have hwild := h.wildcard
  simp only at hvar hwild
  subst hvar hwild
  rw [subst]
  rfl

end JType

namespace ClassEnv

variable {env : ClassEnv}

/-- Every direct supertype of a class is a class type. -/
def PlainSupertypes (env : ClassEnv) : Prop :=
  ∀ name d, env.find? name = some d → ∀ s ∈ d.directSupertypes, s.IsClass

/-- The supertypes of an instantiation have the names that the class lists, and are no type
variables. -/
theorem supertypes_of_plain {d : ClassDef} (h : ∀ s ∈ d.directSupertypes, s.IsClass) (t : JType) :
    (Instantiation.of t d).supertypes.map JType.name = supertypeNames d ∧
      ∀ s ∈ (Instantiation.of t d).supertypes, s.isTypeVar = false := by
  unfold Instantiation.supertypes supertypeNames
  constructor
  · rw [List.map_map]
    apply List.map_congr_left
    intro s hs
    simp only [Function.comp_apply, Instantiation.of]
    split
    · rfl
    · rw [(h s hs).subst_eq]
      rfl
  · intro s hs
    obtain ⟨r, hr, rfl⟩ := List.mem_map.mp hs
    split
    · rfl
    · rw [(h r hr).subst_eq]
      exact (h r hr).isTypeVar

/-! ## The simulation -/

/-- The walk over types and the walk by name go on from the same place of the queue. -/
theorem settle_cases (env : ClassEnv) (seen : List String) {queue : List JType}
    (hqueue : ∀ t ∈ queue, t.isTypeVar = false) :
    (env.settle seen queue = none ∧
        ((queue.map JType.name).dropWhile fun n => seen.contains n || !env.isLoadable n) = []) ∨
      ∃ t d rest, env.settle seen queue = some (t, d, rest) ∧ env.find? t.name = some d ∧
        (∀ s ∈ rest, s.isTypeVar = false) ∧
        ((queue.map JType.name).dropWhile fun n => seen.contains n || !env.isLoadable n)
          = t.name :: rest.map JType.name := by
  induction queue with
  | nil => exact .inl ⟨by rw [settle], rfl⟩
  | cons t queue ih =>
    have ht : t.isTypeVar = false := hqueue t List.mem_cons_self
    have hrest : ∀ s ∈ queue, s.isTypeVar = false := fun s hs =>
      hqueue s (List.mem_cons_of_mem _ hs)
    rw [settle, List.map_cons, List.dropWhile_cons]
    simp only [ht, Bool.false_eq_true, if_false]
    by_cases hseen : t.name ∈ seen
    · simpa [hseen] using ih hrest
    cases hd : env.find? t.name with
    | none => simpa [hseen, isLoadable, hd] using ih hrest
    | some d =>
      refine .inr ⟨t, d, queue, ?_, hd, hrest, ?_⟩
      · simp [hseen]
      · simp [hseen, isLoadable, hd]

/-- The two walks visit the same classes in the same order. -/
theorem closureFrom_definitions (hplain : env.PlainSupertypes) (budget : Nat) (seen : List String)
    (queue : List JType) (hqueue : ∀ t ∈ queue, t.isTypeVar = false) :
    (env.closureFrom budget seen queue).map Instantiation.definition
      = env.reachFrom supertypeNames budget seen (queue.map JType.name) := by
  induction budget generalizing seen queue with
  | zero => rfl
  | succ budget ih =>
    rw [closureFrom, reachFrom]
    rcases settle_cases env seen hqueue with ⟨hnone, hdrop⟩ | ⟨t, d, rest, hsome, hd, hrest, hdrop⟩
    · rw [hnone, hdrop]
      rfl
    · obtain ⟨hnames, hvars⟩ := supertypes_of_plain (hplain t.name d hd) t
      simp only [hsome, hdrop, hd, List.map_cons]
      rw [ih _ _ ?_]
      · rw [List.map_append, hnames]
        rfl
      · intro s hs
        rcases List.mem_append.mp hs with hs | hs
        · exact hrest s hs
        · exact hvars s hs

/-- The walk from a class type starts at the type itself. -/
theorem startingPoints_of_isClass {t : JType} (h : t.IsClass) : startingPoints t = [t] := by
  have hname := h.name
  simp only [JType.isClassName, Bool.and_eq_true, bne_iff_ne, Option.isNone_iff_eq_none] at hname
  obtain ⟨⟨hprim, hvoid⟩, hnull⟩ := hname
  simp [startingPoints, JType.readType, h.wildcard, JType.isArray, h.dims, JType.isTypeVar, h.var,
    JType.isPrimitive, JType.primitive?, hprim, JType.isNull, hnull, JType.isVoid, hvoid,
    h.unresolved]

/-- Where there is one class only, the walk from it ends with it. -/
theorem closure_of_length_names (hnames : env.names.length = 1) {t : JType} (h : t.IsClass)
    {d : ClassDef} (hd : env.find? t.name = some d) : env.closure t = [Instantiation.of t d] := by
  have hsettle : env.settle [] [t] = some (t, d, []) := by
    rw [settle, if_neg (by simp [h.isTypeVar]), if_neg (by simp), hd]
  rw [closure, startingPoints_of_isClass h, hnames, closureFrom, hsettle]
  rfl

/-- A class type can be seen as its supertypes: the loadable classes that are reachable from it. -/
theorem asSupertype?_isSome_iff (hplain : env.PlainSupertypes) {t : JType} (ht : t.IsClass)
    (target : String) :
    (env.asSupertype? t target).isSome = true ↔
      ∃ n d, Relation.ReflTransGen env.Edge t.name n ∧ env.find? n = some d ∧ d.name = target := by
  have hwalk : (env.closure t).map Instantiation.definition = env.reached supertypeNames t.name := by
    rw [closure, startingPoints_of_isClass ht]
    exact closureFrom_definitions hplain _ _ _ (by simpa using ht.isTypeVar)
  have hmem : (∃ i ∈ env.closure t, i.definition.name = target) ↔
      ∃ d ∈ env.reached supertypeNames t.name, d.name = target := by
    rw [← hwalk]
    simp
  simp only [asSupertype?, Option.isSome_map, List.find?_isSome, beq_iff_eq]
  rw [hmem]
  simp only [mem_reached_iff]
  constructor
  · rintro ⟨d, ⟨n, hpath, hd⟩, hname⟩
    exact ⟨n, d, hpath, hd, hname⟩
  · rintro ⟨n, d, hpath, hd, hname⟩
    exact ⟨d, ⟨n, hpath, hd⟩, hname⟩

end ClassEnv

/-! ## Class tables -/

namespace ClassTable

theorem get?_of_find? {table : ClassTable} {name : String} {d : ClassDef}
    (h : table.toEnv.find? name = some d) : table.get? name = some d := by
  apply load_eq_ok.mp
  unfold ClassEnv.find? at h
  cases hl : table.toEnv.load name with
  | error e => simp [hl, Except.toOption] at h
  | ok c =>
    simp only [hl, Except.toOption, Option.some.injEq] at h
    exact hl.trans (congrArg _ h)

/-- The classes of a table have the names under which they are found. -/
theorem name_of_find? {table : ClassTable} {name : String} {d : ClassDef}
    (h : table.toEnv.find? name = some d) : d.name = name :=
  name_of_get? (get?_of_find? h)

/-- A table has class types as supertypes if each of its classes has. -/
theorem plainSupertypes_of_classes {table : ClassTable}
    (h : ∀ d ∈ table.classes, ∀ s ∈ d.directSupertypes, s.IsClass) :
    table.toEnv.PlainSupertypes := by
  intro name d hd
  exact h d (mem_classes_of_get? (get?_of_find? hd))

/-- In a class table of any shape the test of subclasses is reachability along direct supertypes.
Where all supertypes are class types, a class type can be seen as a target other than the root class
exactly if both can be loaded and the test holds. -/
theorem isSubclass_iff_and_asSupertype_isSome_iff (table : ClassTable) :
    (∀ sub sup : String, table.toEnv.isSubclass sub sup = true ↔
        sup = sub ∨ sup = objectName ∨ Relation.TransGen table.toEnv.Edge sub sup) ∧
      (table.toEnv.PlainSupertypes → ∀ (t : JType) (target : String), t.IsClass →
        target ≠ objectName →
        ((table.toEnv.asSupertype? t target).isSome = true ↔
          table.toEnv.isLoadable t.name = true ∧ table.toEnv.isLoadable target = true ∧
            table.toEnv.isSubclass t.name target = true)) := by
  refine ⟨ClassEnv.isSubclass_iff table.toEnv, ?_⟩
  intro hplain t target ht htarget
  rw [ClassEnv.asSupertype?_isSome_iff hplain ht, ClassEnv.isSubclass_iff]
  simp only [ClassEnv.isLoadable, Option.isSome_iff_exists]
  constructor
  · rintro ⟨n, d, hpath, hd, hname⟩
    obtain rfl : n = target := (name_of_find? hd).symm.trans hname
    rcases Relation.reflTransGen_iff_eq_or_transGen.mp hpath with rfl | hpath
    · exact ⟨⟨d, hd⟩, ⟨d, hd⟩, .inl rfl⟩
    · obtain ⟨_, ⟨c, hc, _⟩, _⟩ := Relation.TransGen.head'_iff.mp hpath
      exact ⟨⟨c, hc⟩, ⟨d, hd⟩, .inr (.inr hpath)⟩
  · rintro ⟨_, ⟨d, hd⟩, hsub⟩
    refine ⟨target, d, ?_, hd, name_of_find? hd⟩
    rcases hsub with rfl | h | h
    · exact .refl
    · exact absurd h htarget
    · exact h.to_reflTransGen

/-- Two generic classes that extend each other; one of them also has an interface that is missing. -/
def mutualSuperclasses : ClassTable :=
  ⟨[{ ClassDef.empty "A" .ordinary with
        typeParams := [.of "T" []]
        superclass := some (.generic "B" [.typeVar "T" [.object]]) },
      { ClassDef.empty "B" .ordinary with
        typeParams := [.of "U" []]
        superclass := some (.generic "A" [.typeVar "U" [.object]])
        interfaces := [.ofClass "Missing"] }]⟩

/-- On a cycle each class is seen as the other one, and no class as one that is missing. -/
theorem mutualSuperclasses_asSupertype :
    mutualSuperclasses.toEnv.PlainSupertypes ∧
      (mutualSuperclasses.toEnv.asSupertype? (.ofClass "B") "A").isSome = true ∧
      ¬ (mutualSuperclasses.toEnv.asSupertype? (.ofClass "B") "Missing").isSome = true := by
  have hplain : mutualSuperclasses.toEnv.PlainSupertypes :=
    plainSupertypes_of_classes (by decide)
  have hseen := (isSubclass_iff_and_asSupertype_isSome_iff mutualSuperclasses).2 hplain
  refine ⟨hplain, ?_, ?_⟩
  · exact (hseen (.ofClass "B") "A" (by decide) (by decide)).mpr (by decide)
  · rw [hseen (.ofClass "B") "Missing" (by decide) (by decide)]
    decide

end ClassTable

end JavaSema
