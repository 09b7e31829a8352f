import Mathlib.Data.List.Induction
import Mathlib.Data.List.Nodup
import JavaSema.ClassEnv.Members
import JavaSema.Proofs.Hierarchy.Nearest

/-!
# Overriding

The methods that a type offers are gathered along the walk over its supertypes, and a method is left out
where one with its erased parameters was found before.  So it is the order of the walk, and not the subclass
relation, that decides which method hides which.  The two differ where a class lists an interface beside one
that extends it.

There are four groups.

* Gathering.  `first_of_mem_gathered` says that the first item of each kind is kept, and `exists_first` in
  which step of a walk it was found.
* Methods of one name.  `methodsNamed_hides` is the main statement.
* Function types.  `IsOpenMethod` describes the method of a functional interface, and `functionType_isOpen`
  finds it.
* A shortcut.  An interface that lists another one before one that extends it.
-/

namespace JavaSema

open ClassEnv

/-! ## Gathering -/

section Gathering

variable {α : Type} (same : α → α → Bool) {add : List α → α → List α}

/-- Where an item is left out if one like it was found before, each item of the list has one like it among
those that are kept, and none before a kept item is like it. -/
theorem first_of_mem_gathered (hrefl : ∀ a, same a a = true)
    (htrans : ∀ {a b c}, same a b = true → same b c = true → same a c = true)
    (hadd : ∀ found a, add found a = if found.any (fun o => same o a) then found else found ++ [a])
    (l : List α) :
    (∀ a ∈ l, ∃ k ∈ l.foldl add [], same k a = true) ∧
      ∀ a ∈ l.foldl add [], ∃ front back, l = front ++ a :: back ∧ ∀ o ∈ front, same o a = false := by
  induction l using List.reverseRecOn with
  | nil => simp
  | append_singleton l x ih =>
    obtain ⟨hlike, hfirst⟩ := ih
    have hkept : ∀ a ∈ l.foldl add [],
        ∃ front back, l ++ [x] = front ++ a :: back ∧ ∀ o ∈ front, same o a = false := by
      intro a ha
      obtain ⟨front, back, rfl, hfront⟩ := hfirst a ha
      exact ⟨front, back ++ [x], by simp, hfront⟩
    rw [List.foldl_append, List.foldl_cons, List.foldl_nil, hadd]
    by_cases hany : (l.foldl add []).any (fun o => same o x) = true
    · rw [if_pos hany]
      refine ⟨fun a ha => ?_, hkept⟩
      rcases List.mem_append.mp ha with ha | ha
      · exact hlike a ha
      · rw [List.mem_singleton.mp ha]
        simpa using hany
    · rw [if_neg hany]
      constructor
      · intro a ha
        rcases List.mem_append.mp ha with ha | ha
        · obtain ⟨k, hk, hsame⟩ := hlike a ha
          exact ⟨k, List.mem_append_left _ hk, hsame⟩
        · exact ⟨a, List.mem_append_right _ ha, hrefl a⟩
      · intro a ha
        rcases List.mem_append.mp ha with ha | ha
        · exact hkept a ha
        · rw [List.mem_singleton.mp ha]
          refine ⟨l, [], rfl, fun o ho => ?_⟩
          -- an item like `x` would have one like it among those that are kept
          by_contra hsame
          obtain ⟨k, hk, hko⟩ := hlike o ho
          exact hany (List.any_eq_true.mpr ⟨k, hk, htrans hko (by simpa using hsame)⟩)

/-- An item of flattened lists stands in one of them, behind all earlier ones. -/
theorem split_of_flatMap_eq {β : Type} {f : β → List α} {l : List β} {front back : List α} {a : α}
    (h : l.flatMap f = front ++ a :: back) :
    ∃ before i after, l = before ++ i :: after ∧ a ∈ f i ∧ ∀ j ∈ before, ∀ o ∈ f j, o ∈ front := by
  induction l generalizing front with
  | nil => simp at h
  | cons i l ih =>
    rw [List.flatMap_cons] at h
    rcases List.append_eq_append_iff.mp h with ⟨middle, rfl, hrest⟩ | ⟨middle, hfi, hrest⟩
    · obtain ⟨before, j, after, rfl, ha, hbefore⟩ := ih hrest
      refine ⟨i :: before, j, after, rfl, ha, fun k hk o ho => ?_⟩
      rcases List.mem_cons.mp hk with rfl | hk
      · exact List.mem_append_left _ ho
      · exact List.mem_append_right _ (hbefore k hk o ho)
    · cases middle with
      | nil =>
        obtain ⟨before, j, after, rfl, ha, hbefore⟩ := ih (show l.flatMap f = [] ++ a :: back by
          simpa using hrest.symm)
        refine ⟨i :: before, j, after, rfl, ha, fun k hk o ho => ?_⟩
        rcases List.mem_cons.mp hk with rfl | hk
        · simpa [hfi] using ho
        · cases hbefore k hk o ho
      | cons b middle =>
        obtain ⟨rfl, -⟩ : a = b ∧ back = middle ++ l.flatMap f := by simpa using hrest
        exact ⟨[], i, l, rfl, by simp [hfi], by simp⟩

/-- A kept item was found in one of the instantiations, and those before it hold none like it. -/
theorem exists_first (hrefl : ∀ a, same a a = true)
    (htrans : ∀ {a b c}, same a b = true → same b c = true → same a c = true)
    (hadd : ∀ found a, add found a = if found.any (fun o => same o a) then found else found ++ [a])
    {β : Type} {f : β → List α} {l : List β} {a : α} (h : a ∈ (l.flatMap f).foldl add []) :
    ∃ before i after, l = before ++ i :: after ∧ a ∈ f i ∧
      ∀ j ∈ before, ∀ o ∈ f j, same o a = false := by
  obtain ⟨front, back, hlist, hfront⟩ := (first_of_mem_gathered same hrefl htrans hadd _).2 a h
  obtain ⟨before, i, after, hl, ha, hbefore⟩ := split_of_flatMap_eq hlist
  exact ⟨before, i, after, hl, ha, fun j hj o ho => hfront o (hbefore j hj o ho)⟩

end Gathering

namespace Instantiation

theorem owner_of_mem_methods {i : Instantiation} {c : MethodCandidate} (h : c ∈ i.methods) :
    c.owner = i.definition.name := by
  obtain ⟨_, _, rfl⟩ := List.mem_mapIdx.mp h
  rfl

end Instantiation

namespace ClassEnv

variable {env : ClassEnv}

/-- What a list has before an item stands in front of it. -/
theorem mem_of_pair_sublist {a b : String} {front back : List String}
    (h : [a, b].Sublist (front ++ b :: back)) (hback : b ∉ back) : a ∈ front := by
  induction front with
  | nil =>
    cases h with
    | cons _ h => exact absurd (h.subset (by simp)) hback
    | cons_cons _ h => exact absurd (h.subset (by simp)) hback
  | cons c front ih =>
    cases h with
    | cons _ h => exact List.mem_cons_of_mem _ (ih h)
    | cons_cons _ h => exact List.mem_cons_self

/-- What a walk comes to before a class stands in front of it. -/
theorem mem_before_of_meetsBefore (hnamed : ∀ name d, env.find? name = some d → d.name = name)
    {t : JType} {before after : List Instantiation} {i j : Instantiation}
    (hwalk : env.closure t = before ++ i :: after) (hj : j ∈ env.closure t)
    (h : env.MeetsBefore t j.definition.name i.definition.name) : j ∈ before := by
  have hnodup := nodup_walkNames hnamed t
  have hinj := List.inj_on_of_nodup_map hnodup
  have hnames : env.walkNames t = before.map (fun k => k.definition.name)
      ++ i.definition.name :: after.map fun k => k.definition.name := by
    rw [walkNames, hwalk, List.map_append, List.map_cons]
  rw [hnames] at hnodup
  have hlast := (List.nodup_cons.mp (List.nodup_append.mp hnodup).2.1).1
  unfold MeetsBefore at h
  rw [hnames] at h
  obtain ⟨k, hk, hkj⟩ := List.mem_map.mp (mem_of_pair_sublist h hlast)
  have hkwalk : k ∈ env.closure t := by
    rw [hwalk]
    exact List.mem_append_left _ hk
  rwa [← hinj hkwalk hj hkj]

/-- What follows an instantiation in a walk is met after it. -/
theorem meetsBefore_of_mem {t : JType} {before after : List Instantiation} {i j : Instantiation}
    (hwalk : env.closure t = before ++ i :: after) (hj : j ∈ after) :
    env.MeetsBefore t i.definition.name j.definition.name := by
  unfold MeetsBefore walkNames
  rw [hwalk, List.map_append, List.map_cons]
  have hname : j.definition.name ∈ after.map fun k => k.definition.name := List.mem_map_of_mem hj
  exact ((List.singleton_sublist.mpr hname).cons_cons _).trans (List.sublist_append_right _ _)

/-! ## Methods of one name -/

/-- A method that a receiver offers is one of an instantiation that the walk comes to, and what the walk
comes to before declares no method of the name with the same erased parameters. -/
theorem exists_of_mem_methodsNamed {receiver : JType} {name : String} {c : MethodCandidate}
    (h : c ∈ env.methodsNamed receiver name) :
    ∃ before i after, env.closure receiver = before ++ i :: after ∧ c ∈ i.methods ∧
      ∀ j ∈ before, ∀ o ∈ j.methods, o.definition.name = name →
        o.definition.sameErasedParams c.definition = false := by
  obtain ⟨before, i, after, hwalk, hc, hbefore⟩ := exists_first
    (fun o c : MethodCandidate => o.definition.sameErasedParams c.definition)
    (fun c => c.definition.sameErasedParams_refl) MethodDef.sameErasedParams_trans (fun _ _ => rfl) h
  refine ⟨before, i, after, hwalk, (List.mem_filter.mp hc).1, fun j hj o ho hname => ?_⟩
  exact hbefore j hj o (List.mem_filter.mpr ⟨ho, beq_iff_eq.mpr hname⟩)

/-- For each method of the name that the walk comes to, the receiver offers one with its erased
parameters. -/
theorem exists_methodsNamed_like {receiver : JType} {name : String} {i : Instantiation}
    (hi : i ∈ env.closure receiver) {o : MethodCandidate} (ho : o ∈ i.methods)
    (hname : o.definition.name = name) :
    ∃ c ∈ env.methodsNamed receiver name, c.definition.sameErasedParams o.definition = true := by
  apply (first_of_mem_gathered (fun o c : MethodCandidate => o.definition.sameErasedParams c.definition)
    (fun c => c.definition.sameErasedParams_refl) MethodDef.sameErasedParams_trans
    (fun _ _ => rfl) _).1
  exact List.mem_flatMap.mpr ⟨i, hi, List.mem_filter.mpr ⟨ho, beq_iff_eq.mpr hname⟩⟩

end ClassEnv

namespace ClassTable

/-- Of the methods of a name with the same erased parameters, a receiver offers the one whose class the walk
comes to first, and leaves out none but for such a one.  Where all supertypes are class types, the walk comes
to nearer classes first. -/
theorem methodsNamed_hides (table : ClassTable) (receiver : JType) (name : String) :
    (∀ c ∈ table.toEnv.methodsNamed receiver name, ∀ j ∈ table.toEnv.closure receiver,
        table.toEnv.MeetsBefore receiver j.definition.name c.owner →
        ∀ o ∈ j.methods, o.definition.name = name →
          o.definition.sameErasedParams c.definition = false) ∧
      (∀ i ∈ table.toEnv.closure receiver, ∀ o ∈ i.methods, o.definition.name = name →
        ∃ c ∈ table.toEnv.methodsNamed receiver name,
          c.definition.sameErasedParams o.definition = true ∧
            (c.owner = i.definition.name ∨
              table.toEnv.MeetsBefore receiver c.owner i.definition.name)) ∧
      (table.toEnv.PlainSupertypes → (∀ s ∈ startingPoints receiver, s.isTypeVar = false) →
        ∀ a ∈ table.toEnv.walkNames receiver, ∀ b ∈ table.toEnv.walkNames receiver,
          table.toEnv.Nearer receiver a b → table.toEnv.MeetsBefore receiver a b) := by
  refine ⟨?_, ?_, ?_⟩
  · intro c hc j hj hmeets
    obtain ⟨before, i, after, hwalk, hci, hbefore⟩ := exists_of_mem_methodsNamed hc
    rw [Instantiation.owner_of_mem_methods hci] at hmeets
    exact hbefore j (mem_before_of_meetsBefore (fun _ _ => name_of_find?) hwalk hj hmeets)
  · intro i hi o ho hname
    obtain ⟨c, hc, hlike⟩ := exists_methodsNamed_like hi ho hname
    obtain ⟨before, k, after, hwalk, hck, hbefore⟩ := exists_of_mem_methodsNamed hc
    refine ⟨c, hc, hlike, ?_⟩
    rw [Instantiation.owner_of_mem_methods hck]
    rw [hwalk, List.mem_append, List.mem_cons] at hi
    rcases hi with hi | rfl | hi
    · have hdiffer := hbefore i hi o ho hname
      simp [MethodDef.sameErasedParams_symm hlike] at hdiffer
    · exact .inl rfl
    · exact .inr (meetsBefore_of_mem hwalk hi)
  · intro hplain hstart a ha b hb
    exact meetsBefore_of_nearer (fun _ _ => name_of_find?) hplain hstart ha hb

/-- Three interfaces in a chain.  The second one has a body for one of the methods of the first one. -/
def stacked : ClassTable :=
  ⟨[{ ClassDef.empty "Top" .interface with
        methods := [{ name := "get", params := [], returnType := .object, isAbstract := true },
          { name := "run", params := [], returnType := .object, isAbstract := true }] },
      { ClassDef.empty "Middle" .interface with
        interfaces := [.ofClass "Top"]
        methods := [{ name := "get", params := [], returnType := .string }] },
      { ClassDef.empty "Bottom" .interface with interfaces := [.ofClass "Middle"] }]⟩

/-- The method of the second interface hides that of the first one, to which more steps lead. -/
theorem stacked_hides :
    ∀ c ∈ stacked.toEnv.methodsNamed (.ofClass "Bottom") "get", c.definition.params = [] →
      c.owner ≠ "Top" := by
  intro c hc hparams howner
  obtain ⟨hhides, -, hnearer⟩ := methodsNamed_hides stacked (.ofClass "Bottom") "get"
  have hmeets : stacked.toEnv.MeetsBefore (.ofClass "Bottom") "Middle" "Top" :=
    hnearer (plainSupertypes_of_classes (by decide)) (by decide) _ (by decide +kernel) _
      (by decide +kernel) ⟨1, by decide, by decide⟩
  have hmiddle : ((stacked.toEnv.closure (.ofClass "Bottom")).any fun j =>
      j.definition.name == "Middle" && j.methods.any fun o =>
        o.definition.name == "get" && o.definition.params.isEmpty) = true := by decide +kernel
  simp only [List.any_eq_true, Bool.and_eq_true, beq_iff_eq, List.isEmpty_iff] at hmiddle
  obtain ⟨j, hj, hjname, o, ho, honame, hoparams⟩ := hmiddle
  have hdiffer := hhides c hc j hj (by rwa [hjname, howner]) o ho honame
  simp [MethodDef.sameErasedParams, hoparams, hparams, MethodDef.sameErasures] at hdiffer

end ClassTable

/-! ## Function types -/

namespace ClassEnv

variable {env : ClassEnv}

/-- A method of an interface is open in the type: it is abstract, no object has it from the root class, and
what the walk over the supertypes of the type comes to before the interface declares no instance method of
its name with the same erased parameters. -/
structure IsOpenMethod (env : ClassEnv) (t : JType) (i : Instantiation) (m : MethodDef)
    (c : MethodCandidate) : Prop where
  /-- The interface is the type or above it. -/
  reached : i ∈ env.closure t
  /-- It declares the method `m`, which the type offers as `c`. -/
  declared : (m, c) ∈ i.definition.methods.zip i.methods
  /-- The method has no body. -/
  isAbstract : m.isAbstract = true
  /-- The method is none of those that every object has. -/
  notRoot : isRootMethod m = false
  /-- Nothing that the walk comes to before overrides it. -/
  notOverridden : ∀ j ∈ env.closure t, env.MeetsBefore t j.definition.name i.definition.name →
    j.definition.name ≠ objectName → ∀ o ∈ j.definition.methods.zip j.methods,
      (o.1.isStatic || o.1.isBridge || o.1.isSynthetic) = false →
      o.2.definition.name = c.definition.name → o.2.definition.sameErasedParams c.definition = false

/-- A method that is kept for a function type stands in an instantiation that the walk comes to, and what
the walk comes to before declares none like it. -/
theorem exists_of_mem_interfaceMethods {t : JType} {m : MethodDef} {c : MethodCandidate}
    (h : (m, c) ∈ env.interfaceMethods t) :
    ∃ before i after, env.closure t = before ++ i :: after ∧
      (m, c) ∈ i.definition.methods.zip i.methods ∧
      ∀ j ∈ before, j.definition.name ≠ objectName → ∀ o ∈ j.definition.methods.zip j.methods,
        (o.1.isStatic || o.1.isBridge || o.1.isSynthetic) = false →
        o.2.definition.name = c.definition.name →
        o.2.definition.sameErasedParams c.definition = false := by
  obtain ⟨before, i, after, hwalk, hc, hbefore⟩ := exists_first
    (fun o c : MethodDef × MethodCandidate =>
      o.2.definition.name == c.2.definition.name && o.2.definition.sameErasedParams c.2.definition)
    (fun c => by simp [MethodDef.sameErasedParams_refl])
    (fun hab hbc => by
      simp only [Bool.and_eq_true, beq_iff_eq] at hab hbc ⊢
      exact ⟨hab.1.trans hbc.1, MethodDef.sameErasedParams_trans hab.2 hbc.2⟩)
    (fun _ _ => rfl) h
  -- the walk itself also comes to the root class, whose methods are left out
  obtain ⟨front, back, hclosure, rfl, hback⟩ := List.filter_eq_append_iff.mp hwalk
  obtain ⟨skipped, rest, rfl, hskipped, -, -⟩ := List.filter_eq_cons_iff.mp hback
  refine ⟨front ++ skipped, i, rest, by simp [hclosure], (List.mem_filter.mp hc).1, ?_⟩
  intro j hj hroot o ho hinstance hname
  have hjfront : j ∈ front := by
    refine (List.mem_append.mp hj).resolve_right fun hj => ?_
    exact hskipped j hj (by simpa using hroot)
  have hlike := hbefore j (List.mem_filter.mpr ⟨hjfront, by simpa using hroot⟩) o
    (List.mem_filter.mpr ⟨ho, by simp [hinstance]⟩)
  simpa [hname] using hlike

theorem mem_interfaceMethods_of_functionType {target : JType} {f : FunctionType}
    (h : env.functionType? target = some f) :
    f.interfaceType = withoutWildcards target ∧
      ∃ m, (m, f.method) ∈ env.interfaceMethods f.interfaceType ∧ isFunctional m = true := by
  unfold functionType? at h
  split at h
  · cases h
  split at h
  · cases h
  split at h
  · dsimp only at h
    split at h
    · rename_i m method honly
      cases h
      have hmem : (m, method) ∈ (env.interfaceMethods (withoutWildcards target)).filter
          fun c => isFunctional c.1 := by
        rw [honly]
        exact List.mem_singleton_self _
      exact ⟨rfl, m, List.mem_filter.mp hmem⟩
    · cases h
  · cases h

end ClassEnv

namespace ClassTable

/-- The method of a functional interface is open in it, where bounds replace wildcard arguments.  Where all
supertypes are class types, at least the interfaces that are nearer come before the one that declares it. -/
theorem functionType_isOpen (table : ClassTable) {target : JType} {f : FunctionType}
    (h : table.toEnv.functionType? target = some f) :
    f.interfaceType = withoutWildcards target ∧
      (∃ i m, table.toEnv.IsOpenMethod f.interfaceType i m f.method) ∧
      (table.toEnv.PlainSupertypes → (∀ s ∈ startingPoints f.interfaceType, s.isTypeVar = false) →
        ∀ a ∈ table.toEnv.walkNames f.interfaceType, ∀ b ∈ table.toEnv.walkNames f.interfaceType,
          table.toEnv.Nearer f.interfaceType a b → table.toEnv.MeetsBefore f.interfaceType a b) := by
  obtain ⟨htype, m, hm, hfunctional⟩ := mem_interfaceMethods_of_functionType h
  refine ⟨htype, ?_, ?_⟩
  · obtain ⟨before, i, after, hwalk, hdeclared, hbefore⟩ := exists_of_mem_interfaceMethods hm
    simp only [isFunctional, Bool.and_eq_true, Bool.not_eq_true'] at hfunctional
    refine ⟨i, m, by simp [hwalk], hdeclared, hfunctional.1, hfunctional.2, ?_⟩
    intro j hj hmeets
    exact hbefore j (mem_before_of_meetsBefore (fun _ _ => name_of_find?) hwalk hj hmeets)
  · intro hplain hstart a ha b hb
    exact meetsBefore_of_nearer (fun _ _ => name_of_find?) hplain hstart ha hb

/-- The function type of the lowest interface is the method without a body, not the overridden one. -/
theorem stacked_isOpen :
    ∃ f, stacked.toEnv.functionType? (.ofClass "Bottom") = some f ∧ f.method.member = .method "Top" 1 ∧
      ∃ i m, stacked.toEnv.IsOpenMethod f.interfaceType i m f.method := by
  have hf : (stacked.toEnv.functionType? (.ofClass "Bottom")).any
      (fun f => f.method.member == .method "Top" 1) = true := by decide +kernel
  obtain ⟨f, hf, hmember⟩ := (Option.any_eq_true _ _).mp hf
  exact ⟨f, hf, by simpa using hmember, (functionType_isOpen stacked hf).2.1⟩

end ClassTable

/-! ## A shortcut -/

namespace ClassEnv

variable {env : ClassEnv}

/-- No class is above itself. -/
def Acyclic (env : ClassEnv) : Prop := ∀ name, ¬ Relation.TransGen env.Edge name name

/-- A hierarchy in which every step goes up to a smaller number has no cycle. -/
theorem acyclic_of_height (height : String → Nat) (h : ∀ a b, env.Edge a b → height b < height a) :
    env.Acyclic := by
  have hpath : ∀ a b, Relation.TransGen env.Edge a b → height b < height a := by
    intro a b hab
    induction hab with
    | single hstep => exact h _ _ hstep
    | tail _ hstep ih => exact Nat.lt_trans (h _ _ hstep) ih
  exact fun name hcycle => Nat.lt_irrefl _ (hpath name name hcycle)

end ClassEnv

namespace ClassTable

/-- An interface, one that extends it and overrides its method, and one that extends both, the former one
first. -/
def shortcut : ClassTable :=
  ⟨[{ ClassDef.empty "Wide" .interface with
        methods := [{ name := "get", params := [], returnType := .object, isAbstract := true }] },
      { ClassDef.empty "Narrow" .interface with
        interfaces := [.ofClass "Wide"]
        methods := [{ name := "get", params := [], returnType := .string }] },
      { ClassDef.empty "Both" .interface with interfaces := [.ofClass "Wide", .ofClass "Narrow"] }]⟩

theorem shortcut_acyclic : shortcut.toEnv.Acyclic := by
  apply ClassEnv.acyclic_of_height fun name =>
    (["Both", "Narrow", "Wide"].dropWhile fun n => n != name).length
  rintro a b ⟨d, hd, hb⟩
  have hheight : ∀ d ∈ shortcut.classes, ∀ b ∈ supertypeNames d,
      (["Both", "Narrow", "Wide"].dropWhile fun n => n != b).length <
        (["Both", "Narrow", "Wide"].dropWhile fun n => n != d.name).length := by decide
  have := hheight d (mem_classes_of_get? (get?_of_find? hd)) b hb
  rwa [name_of_find? hd] at this

theorem shortcut_edge : shortcut.toEnv.Edge "Narrow" "Wide" := ⟨_, rfl, by decide⟩

/-- The overridden method is offered, although the interface that overrides it is reached. -/
theorem shortcut_not_hidden :
    shortcut.toEnv.Acyclic ∧
      ∃ c ∈ shortcut.toEnv.methodsNamed (.ofClass "Both") "get",
        ∃ j ∈ shortcut.toEnv.closure (.ofClass "Both"),
          Relation.TransGen shortcut.toEnv.Edge j.definition.name c.owner ∧
            ∃ o ∈ j.methods, o.definition.name = "get" ∧
              o.definition.sameErasedParams c.definition = true := by
  have h : ((shortcut.toEnv.methodsNamed (.ofClass "Both") "get").any fun c =>
      c.owner == "Wide" && (shortcut.toEnv.closure (.ofClass "Both")).any fun j =>
        j.definition.name == "Narrow" && j.methods.any fun o =>
          o.definition.name == "get" && o.definition.sameErasedParams c.definition) = true := by
    decide +kernel
  simp only [List.any_eq_true, Bool.and_eq_true, beq_iff_eq] at h
  obtain ⟨c, hc, howner, j, hj, hjname, o, ho, hlike⟩ := h
  refine ⟨shortcut_acyclic, c, hc, j, hj, ?_, o, ho, hlike⟩
  rw [howner, hjname]
  exact .single shortcut_edge

/-- The overridden method makes the interface functional, although an interface that overrides it with an
instance method that has a body is reached. -/
theorem shortcut_functional :
    shortcut.toEnv.Acyclic ∧
      ∃ f, shortcut.toEnv.functionType? (.ofClass "Both") = some f ∧
        ∃ j ∈ shortcut.toEnv.closure f.interfaceType, j.definition.isInterface = true ∧
          Relation.TransGen shortcut.toEnv.Edge j.definition.name f.method.owner ∧
            ∃ o ∈ j.definition.methods.zip j.methods,
              (o.1.isAbstract || o.1.isStatic || o.1.isBridge || o.1.isSynthetic) = false ∧
                o.2.definition.name = f.method.definition.name ∧
                  o.2.definition.sameErasedParams f.method.definition = true := by
  have h : (shortcut.toEnv.functionType? (.ofClass "Both")).any (fun f =>
      f.method.owner == "Wide" && (shortcut.toEnv.closure f.interfaceType).any fun j =>
        j.definition.isInterface && (j.definition.name == "Narrow" &&
          (j.definition.methods.zip j.methods).any fun o =>
            !(o.1.isAbstract || o.1.isStatic || o.1.isBridge || o.1.isSynthetic) &&
              (o.2.definition.name == f.method.definition.name &&
                o.2.definition.sameErasedParams f.method.definition))) = true := by
    decide +kernel
  simp only [Option.any_eq_true, List.any_eq_true, Bool.and_eq_true, beq_iff_eq,
    Bool.not_eq_true'] at h
  obtain ⟨f, hf, howner, j, hj, hinterface, hjname, o, ho, hbody, hlike⟩ := h
  refine ⟨shortcut_acyclic, f, hf, j, hj, hinterface, ?_, o, ho, hbody, hlike⟩
  rw [howner, hjname]
  exact .single shortcut_edge

end ClassTable

end JavaSema
