import JavaSema.Catalog.Basic
import JavaSema.Proofs.Run

/-!
# What the catalog remembers

The catalog remembers answers, and does not revise them.  As long as the classes stay the same, this
makes no difference: each name denotes what a search that remembers nothing would find.

There are four groups.

* `Catalog.Same` compares catalogs by all but what they remember, and lookups depend on no more.
* `Catalog.OnlyRemembers` says that an operation changes nothing else, and lookups do not.
* `Catalog.meaning` is the search that remembers nothing.
* `Catalog.Faithful` says that what is remembered is right.  It stays right when a name is looked up.
-/

namespace JavaSema.Catalog

open Source

/-! ## Catalogs that agree -/

/-- The catalogs differ at most in the order of their entries and in what they remember. -/
structure Same (c c' : Catalog) : Prop where
  /-- The package of the unit. -/
  package : c.package = c'.package
  /-- Whether the language package is visible. -/
  hasLanguagePackage : c.hasLanguagePackage = c'.hasLanguagePackage
  /-- The imports. -/
  imports : c.imports = c'.imports
  /-- The types that are imported one by one. -/
  single : c.single = c'.single
  /-- The static members that are imported one by one. -/
  staticSingle : c.staticSingle = c'.staticSingle
  /-- The classes all of whose static members are imported. -/
  staticOnDemand : c.staticOnDemand = c'.staticOnDemand
  /-- The types that the unit declares. -/
  declared : ∀ simple, c.declared.lookup simple = c'.declared.lookup simple
  /-- These types in order. -/
  sorted : c.declared.sorted = c'.declared.sorted
  /-- The binary names of the classes that the unit declares. -/
  isDeclared : ∀ binary, c.isDeclared binary = c'.isDeclared binary
  /-- The binary names of declarations. -/
  names : ∀ id, c.names.lookup id = c'.names.lookup id

theorem Same.refl (c : Catalog) : c.Same c :=
  ⟨rfl, rfl, rfl, rfl, rfl, rfl, fun _ => rfl, rfl, fun _ => rfl, fun _ => rfl⟩

theorem Same.symm {c c' : Catalog} (h : c.Same c') : c'.Same c where
  package := h.package.symm
  hasLanguagePackage := h.hasLanguagePackage.symm
  imports := h.imports.symm
  single := h.single.symm
  staticSingle := h.staticSingle.symm
  staticOnDemand := h.staticOnDemand.symm
  declared simple := (h.declared simple).symm
  sorted := h.sorted.symm
  isDeclared binary := (h.isDeclared binary).symm
  names id := (h.names id).symm

theorem Same.trans {c c' c'' : Catalog} (h : c.Same c') (h' : c'.Same c'') : c.Same c'' where
  package := h.package.trans h'.package
  hasLanguagePackage := h.hasLanguagePackage.trans h'.hasLanguagePackage
  imports := h.imports.trans h'.imports
  single := h.single.trans h'.single
  staticSingle := h.staticSingle.trans h'.staticSingle
  staticOnDemand := h.staticOnDemand.trans h'.staticOnDemand
  declared simple := (h.declared simple).trans (h'.declared simple)
  sorted := h.sorted.trans h'.sorted
  isDeclared binary := (h.isDeclared binary).trans (h'.isDeclared binary)
  names id := (h.names id).trans (h'.names id)

section

variable {c c' : Catalog} (h : c.Same c')

include h

theorem Same.binaryName? (d : Decl) : c.binaryName? d = c'.binaryName? d := h.names d.id

theorem Same.memberClass? (env : ClassEnv) (owner simple : String) :
    c.memberClass? env owner simple = c'.memberClass? env owner simple := by
  unfold Catalog.memberClass?
  simp only [h.isDeclared]

theorem Same.memberPath? (env : ClassEnv) (owner : String) (path : List String) :
    c.memberPath? env owner path = c'.memberPath? env owner path := by
  induction path generalizing owner with
  | nil => rfl
  | cons s rest ih =>
    rw [Catalog.memberPath?, Catalog.memberPath?, h.memberClass?]
    congr 1
    funext member
    exact ih member

theorem Same.populate : c.populate = c'.populate := by
  unfold Catalog.populate
  simp only [h.declared, h.sorted, h.single]

theorem Same.staticOwners (name : String) : c.staticOwners name = c'.staticOwners name := by
  unfold Catalog.staticOwners
  rw [h.staticSingle, h.staticOnDemand]

end

/-! ## Operations that only remember -/

/-- The catalog without what it remembers. -/
def forget (c : Catalog) : Catalog := { c with listings := [], owners := [], answers := [] }

/-- The operation changes nothing but what the catalog remembers. -/
def OnlyRemembers {α : Type} (op : StateM Catalog α) : Prop := ∀ c, (op.run c).2.forget = c.forget

namespace OnlyRemembers

variable {α β : Type}

theorem pure (a : α) : OnlyRemembers (Pure.pure a) := fun _ => rfl

theorem get : OnlyRemembers (MonadState.get : StateM Catalog Catalog) := fun _ => rfl

theorem bind {op : StateM Catalog α} {f : α → StateM Catalog β} (hop : OnlyRemembers op)
    (hf : ∀ a, OnlyRemembers (f a)) : OnlyRemembers (op >>= f) :=
  fun c => (hf _ _).trans (hop c)

theorem listing (env : ClassEnv) (package : String) : OnlyRemembers (listing env package) := by
  refine get.bind fun c => ?_
  split
  · exact pure _
  · exact bind (fun _ => rfl) fun _ => pure _

theorem ownerOf (env : ClassEnv) (dotted : String) : OnlyRemembers (ownerOf env dotted) := by
  refine get.bind fun c => ?_
  split
  · exact pure _
  · exact bind (fun _ => rfl) fun _ => pure _

theorem searchOnDemand (env : ClassEnv) (simple : String) (paths : List QualifiedName) :
    OnlyRemembers (searchOnDemand env simple paths) := by
  induction paths with
  | nil => exact pure _
  | cons path rest ih =>
    refine (listing env _).bind fun classes => ?_
    split
    · exact pure _
    · refine (ownerOf env _).bind fun owner => get.bind fun c => ?_
      split
      · exact pure _
      · exact ih

theorem search (env : ClassEnv) (simple : String) : OnlyRemembers (search env simple) := by
  refine get.bind fun c => ?_
  split
  · exact pure _
  · dsimp only
    split
    · exact pure _
    · refine (searchOnDemand env simple _).bind fun found => ?_
      split
      · exact pure _
      · exact pure _

theorem resolve (env : ClassEnv) (simple : String) : OnlyRemembers (resolve env simple) := by
  refine get.bind fun c => ?_
  split
  · exact pure _
  · refine (search env simple).bind fun answer => ?_
    exact bind (fun _ => rfl) fun _ => pure _

end OnlyRemembers

/-! ## Searching without remembering -/

/-- What a simple name denotes through imports on demand. -/
def meaningOnDemand (env : ClassEnv) (c : Catalog) (simple : String) :
    List QualifiedName → Option String
  | [] => none
  | path :: rest =>
    if (env.packageClasses path.toDotted).contains simple then some (path.toDotted ++ "." ++ simple)
    else
      match (env.loadCanonical path.toDotted).bind (c.memberClass? env · simple) with
      | some member => some member
      | none => meaningOnDemand env c simple rest

/-- What a simple name denotes. -/
def meaning (env : ClassEnv) (c : Catalog) (simple : String) : Option String :=
  match (c.declared.lookup simple).or (c.single.lookup simple) with
  | some binary => some binary
  | none =>
    if env.hasClass (c.package.qualify simple) then some (c.package.qualify simple)
    else
      match meaningOnDemand env c simple c.imports.onDemand with
      | some binary => some binary
      | none =>
        if c.hasLanguagePackage && env.hasClass (languagePackage ++ "." ++ simple) then
          some (languagePackage ++ "." ++ simple)
        else none

theorem Same.meaningOnDemand {c c' : Catalog} (h : c.Same c') (env : ClassEnv) (simple : String)
    (paths : List QualifiedName) :
    c.meaningOnDemand env simple paths = c'.meaningOnDemand env simple paths := by
  induction paths with
  | nil => rfl
  | cons path rest ih =>
    rw [Catalog.meaningOnDemand, Catalog.meaningOnDemand, ih]
    simp only [h.memberClass?]

theorem Same.meaning {c c' : Catalog} (h : c.Same c') (env : ClassEnv) (simple : String) :
    c.meaning env simple = c'.meaning env simple := by
  unfold Catalog.meaning
  rw [h.declared, h.single, h.package, h.meaningOnDemand, h.imports, h.hasLanguagePackage]

/-! ## Remembering -/

/-- What the catalog remembers is right. -/
structure Faithful (env : ClassEnv) (c : Catalog) : Prop where
  /-- The listings of packages. -/
  listings : ∀ package classes, c.listings.lookup package = some classes →
    classes = env.packageClasses package
  /-- The types behind imports on demand. -/
  owners : ∀ dotted owner, c.owners.lookup dotted = some owner → owner = env.loadCanonical dotted
  /-- The answers for simple names. -/
  answers : ∀ simple answer, c.answers.lookup simple = some answer → answer = c.meaning env simple

/-- The later catalog remembers more, and rightly so. -/
structure Later (env : ClassEnv) (c c' : Catalog) : Prop where
  /-- Nothing else has changed. -/
  eq : c' = { c with listings := c'.listings, owners := c'.owners, answers := c'.answers }
  /-- What is remembered is right. -/
  faithful : c'.Faithful env

variable {env : ClassEnv} {c c' : Catalog}

theorem Later.refl (h : c.Faithful env) : c.Later env c := ⟨rfl, h⟩

theorem Later.trans {c'' : Catalog} (h : c.Later env c') (h' : c'.Later env c'') :
    c.Later env c'' := by
  refine ⟨?_, h'.faithful⟩
  rw [h'.eq, h.eq]

theorem same_remembering (c : Catalog) (listings : NameMap (List String))
    (owners answers : NameMap (Option String)) : c.Same { c with listings, owners, answers } :=
  ⟨rfl, rfl, rfl, rfl, rfl, rfl, fun _ => rfl, rfl, fun _ => rfl, fun _ => rfl⟩

theorem Later.same (h : c.Later env c') : c.Same c' := by
  rw [h.eq]
  exact same_remembering c _ _ _

/-- What is remembered does not matter for what is right. -/
theorem later_remembering {listings : NameMap (List String)} {owners answers : NameMap (Option String)}
    (hlistings : ∀ package classes, listings.lookup package = some classes →
      classes = env.packageClasses package)
    (howners : ∀ dotted owner, owners.lookup dotted = some owner → owner = env.loadCanonical dotted)
    (hanswers : ∀ simple answer, answers.lookup simple = some answer →
      answer = c.meaning env simple) :
    c.Later env { c with listings, owners, answers } := by
  refine ⟨rfl, hlistings, howners, ?_⟩
  intro simple answer h
  rw [← (same_remembering c listings owners answers).meaning]
  exact hanswers simple answer h

/-- A new entry at the front of what is remembered is right if its value is. -/
theorem lookup_cons_eq {α : Type} {m : NameMap α} {spec : String → α} {key : String}
    (hm : ∀ k a, m.lookup k = some a → a = spec k) :
    ∀ k a, List.lookup k ((key, spec key) :: m) = some a → a = spec k := by
  intro k a h
  rw [List.lookup_cons] at h
  split at h
  · rename_i hkey
    rw [beq_iff_eq.mp hkey, ← Option.some.inj h]
  · exact hm k a h

theorem listing_run (h : c.Faithful env) (package : String) :
    ((listing env package).run c).1 = env.packageClasses package ∧
      c.Later env ((listing env package).run c).2 := by
  cases hlookup : c.listings.lookup package with
  | some classes =>
    have hrun : (listing env package).run c = (classes, c) := by
      simp only [listing, StateT.run_bind, StateT.run_get, pure_bind, hlookup]
      rfl
    rw [hrun]
    exact ⟨h.listings package classes hlookup, .refl h⟩
  | none =>
    have hrun : (listing env package).run c = (env.packageClasses package,
        { c with listings := (package, env.packageClasses package) :: c.listings }) := by
      simp only [listing, StateT.run_bind, StateT.run_get, pure_bind, hlookup]
      rfl
    rw [hrun]
    exact ⟨rfl, later_remembering (lookup_cons_eq h.listings) h.owners h.answers⟩

theorem ownerOf_run (h : c.Faithful env) (dotted : String) :
    ((ownerOf env dotted).run c).1 = env.loadCanonical dotted ∧
      c.Later env ((ownerOf env dotted).run c).2 := by
  cases hlookup : c.owners.lookup dotted with
  | some owner =>
    have hrun : (ownerOf env dotted).run c = (owner, c) := by
      simp only [ownerOf, StateT.run_bind, StateT.run_get, pure_bind, hlookup]
      rfl
    rw [hrun]
    exact ⟨h.owners dotted owner hlookup, .refl h⟩
  | none =>
    have hrun : (ownerOf env dotted).run c = (env.loadCanonical dotted,
        { c with owners := (dotted, env.loadCanonical dotted) :: c.owners }) := by
      simp only [ownerOf, StateT.run_bind, StateT.run_get, pure_bind, hlookup]
      rfl
    rw [hrun]
    exact ⟨rfl, later_remembering h.listings (lookup_cons_eq h.owners) h.answers⟩

theorem searchOnDemand_run (h : c.Faithful env) (simple : String) (paths : List QualifiedName) :
    ((searchOnDemand env simple paths).run c).1 = c.meaningOnDemand env simple paths ∧
      c.Later env ((searchOnDemand env simple paths).run c).2 := by
  induction paths generalizing c with
  | nil => exact ⟨rfl, .refl h⟩
  | cons path rest ih =>
    obtain ⟨hlisting, hlater⟩ := listing_run h path.toDotted
    rcases hlisted : (listing env path.toDotted).run c with ⟨classes, listed⟩
    rw [hlisted] at hlisting hlater
    obtain ⟨howner, hlater'⟩ := ownerOf_run hlater.faithful path.toDotted
    rcases howned : (ownerOf env path.toDotted).run listed with ⟨owner, owned⟩
    rw [howned] at howner hlater'
    have hsame : c.Same owned := (hlater.trans hlater').same
    obtain ⟨hrest, hlater''⟩ := ih hlater'.faithful
    dsimp only at hlisting howner hrest hlater''
    subst hlisting howner
    rw [searchOnDemand, meaningOnDemand, run_bind_eq hlisted]
    by_cases hlists : (env.packageClasses path.toDotted).contains simple = true
    · rw [if_pos hlists, if_pos hlists]
      exact ⟨rfl, hlater⟩
    · rw [if_neg hlists, if_neg hlists, run_bind_eq howned, run_bind_eq (run_get_eq owned)]
      simp only [hsame.memberClass?]
      cases (env.loadCanonical path.toDotted).bind fun owner => owned.memberClass? env owner simple with
      | some member => exact ⟨rfl, hlater.trans hlater'⟩
      | none =>
        rw [hsame.meaningOnDemand]
        exact ⟨hrest, (hlater.trans hlater').trans hlater''⟩

theorem search_run (h : c.Faithful env) (simple : String) :
    ((search env simple).run c).1 = c.meaning env simple ∧
      c.Later env ((search env simple).run c).2 := by
  rw [search, meaning, run_bind_eq (run_get_eq c)]
  cases (c.declared.lookup simple).or (c.single.lookup simple) with
  | some binary => exact ⟨rfl, .refl h⟩
  | none =>
    dsimp only
    by_cases hpackage : env.hasClass (c.package.qualify simple) = true
    · rw [if_pos hpackage, if_pos hpackage]
      exact ⟨rfl, .refl h⟩
    · rw [if_neg hpackage, if_neg hpackage]
      obtain ⟨hfound, hlater⟩ := searchOnDemand_run h simple c.imports.onDemand
      rcases hrun : (searchOnDemand env simple c.imports.onDemand).run c with ⟨found, later⟩
      rw [hrun] at hfound hlater
      rw [run_bind_eq hrun, ← hfound]
      cases found with
      | some binary => exact ⟨rfl, hlater⟩
      | none => exact ⟨rfl, hlater⟩

/-- A name denotes what a search that remembers nothing finds. -/
theorem resolve_run (h : c.Faithful env) (simple : String) :
    ((resolve env simple).run c).1 = c.meaning env simple ∧
      c.Later env ((resolve env simple).run c).2 := by
  rw [resolve, run_bind_eq (run_get_eq c)]
  cases hlookup : c.answers.lookup simple with
  | some answer => exact ⟨h.answers simple answer hlookup, .refl h⟩
  | none =>
    obtain ⟨hfound, hlater⟩ := search_run h simple
    rcases hrun : (search env simple).run c with ⟨answer, later⟩
    rw [hrun] at hfound hlater
    dsimp only at hfound hlater
    subst hfound
    dsimp only
    rw [run_bind_eq hrun]
    refine ⟨rfl, hlater.trans ?_⟩
    apply later_remembering hlater.faithful.listings hlater.faithful.owners
    rw [hlater.same.meaning]
    exact lookup_cons_eq hlater.faithful.answers

end JavaSema.Catalog
