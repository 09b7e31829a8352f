import JavaSema.Proofs.Catalog.Permuted
import JavaSema.Proofs.ClassEnv.Overlay
import JavaSema.Proofs.Hierarchy.Unread

/-!
# What the catalog remembers while classes are declared

The classes of a unit are declared one after the other, and type names are looked up in between.  What
the catalog remembers stays right if no search that it remembers has asked for the class that is
declared, or if the class had been declared with the same header before.  Otherwise an answer may be
out of date.

There are four groups.

* `ClassEnv.GrowsBy` relates an environment to one in which a class has been declared.
* The searches of a catalog.  `Catalog.Overlooks` says that a search does not ask for a class, and then
  it finds the same when the class is declared.
* `Catalog.Overlooked` says so of all that is remembered.
* Runs.  `answers_as_if_blank` follows a catalog through look-ups and declarations.
-/

namespace JavaSema

open Source

/-! ## Environments -/

namespace ClassTable

variable {T : ClassTable}

theorem mem_names_insert {d : ClassDef} {name : String} :
    name ∈ (T.insert d).classes.map ClassDef.name ↔
      name = d.name ∨ name ∈ T.classes.map ClassDef.name := by
  show name ∈ (put d T.classes).map ClassDef.name ↔ _
  by_cases hd : d.name ∈ T.classes.map ClassDef.name
  · rw [names_put_of_mem hd, iff_or_self]
    rintro rfl
    exact hd
  · rw [names_put_of_not_mem hd, List.mem_append, List.mem_singleton, or_comm]

theorem mem_packageClasses {package simple : String} :
    simple ∈ T.packageClasses package ↔
      ∃ name ∈ T.classes.map ClassDef.name, nameIn? package name = some simple := by
  rw [packageClasses_eq, Text.mem_sortTexts, List.mem_filterMap]

/-- A class outside of a package does not show in the listing of the package. -/
theorem packageClasses_insert {d : ClassDef} {package : String}
    (h : nameIn? package d.name = none) :
    (T.insert d).packageClasses package = T.packageClasses package := by
  rw [packageClasses_eq, packageClasses_eq]
  show Text.sortTexts (((put d T.classes).map ClassDef.name).filterMap _) = _
  by_cases hd : d.name ∈ T.classes.map ClassDef.name
  · rw [names_put_of_mem hd]
  · rw [names_put_of_not_mem hd, List.filterMap_append, List.filterMap_cons_none h, List.filterMap_nil,
      List.append_nil]

end ClassTable

namespace ClassEnv

open ClassTable (nameIn?)

/-- The later environment has the same classes, but for one that has been declared. -/
structure GrowsBy (name : String) (env env' : ClassEnv) : Prop where
  /-- Other names load the same class. -/
  load : ∀ n, n ≠ name → env'.load n = env.load n
  /-- Other names exist as before. -/
  hasClass : ∀ n, n ≠ name → env'.hasClass n = env.hasClass n
  /-- No name is lost. -/
  hasClass_of : ∀ n, env.hasClass n = true → env'.hasClass n = true
  /-- Other packages have the same listing. -/
  packageClasses : ∀ package, nameIn? package name = none →
    env'.packageClasses package = env.packageClasses package
  /-- No other class is listed. -/
  listed : ∀ package simple, nameIn? package name ≠ some simple →
    (env'.packageClasses package).contains simple = (env.packageClasses package).contains simple

theorem GrowsBy.sameBut {name : String} {env env' : ClassEnv} (h : GrowsBy name env env') :
    SameBut name env env' := fun n hn => congrArg Except.toOption (h.load n hn)

end ClassEnv

/-- Declaring a class in front of others. -/
theorem Analysis.growsBy_insert (T : ClassTable) (d : ClassDef) (outside : ClassEnv) :
    ClassEnv.GrowsBy d.name (overlay T outside) (overlay (T.insert d) outside) where
  load n hn := by
    simp only [overlay, ClassTable.get?_insert, if_neg (Ne.symm hn)]
  hasClass n hn := by
    simp only [overlay, ClassTable.contains, ClassTable.get?_insert, if_neg (Ne.symm hn)]
  hasClass_of n h := by
    simp only [overlay, ClassTable.contains, ClassTable.get?_insert, Bool.or_eq_true] at h ⊢
    refine h.imp_left fun hdeclared => ?_
    split
    · rfl
    · exact hdeclared
  packageClasses package hpackage := by
    simp only [overlay, ClassTable.packageClasses_insert hpackage]
  listed package simple hsimple := by
    rw [Bool.eq_iff_iff, List.contains_iff_mem, List.contains_iff_mem]
    simp only [overlay, Text.mem_dedupAdjacent, Text.mem_sortTexts, List.mem_append]
    apply or_congr_left
    rw [ClassTable.mem_packageClasses, ClassTable.mem_packageClasses]
    constructor
    · rintro ⟨name, hname, hin⟩
      refine ⟨name, (ClassTable.mem_names_insert.mp hname).resolve_left ?_, hin⟩
      rintro rfl
      exact hsimple hin
    · rintro ⟨name, hname, hin⟩
      exact ⟨name, ClassTable.mem_names_insert.mpr (.inr hname), hin⟩

namespace ClassEnv

variable {name : String} {env env' : ClassEnv}

/-- The binary names that a canonical name is tried as. -/
def readings (dotted : String) : List String :=
  let segments := (Text.split '.' dotted).filter fun s => !s.isEmpty
  (List.range segments.length).map fun split => binaryOfSplit segments (split + 1)

theorem loadSplit_same (h : GrowsBy name env env') {segments : List String} {split : Nat}
    (hname : ∀ k < split, binaryOfSplit segments (k + 1) ≠ name) :
    env'.loadSplit segments split = env.loadSplit segments split := by
  induction split with
  | zero => rfl
  | succ split ih =>
    rw [loadSplit, loadSplit, h.load _ (hname split (Nat.lt_succ_self split)),
      ih fun k hk => hname k (Nat.lt_succ_of_lt hk)]

theorem loadCanonical_same (h : GrowsBy name env env') {dotted : String}
    (hname : name ∉ readings dotted) : env'.loadCanonical dotted = env.loadCanonical dotted := by
  apply loadSplit_same h
  intro k hk heq
  exact hname (List.mem_map.mpr ⟨k, List.mem_range.mpr hk, heq⟩)

theorem findMemberClass?_same (h : GrowsBy name env env') {owner : String}
    (hname : name ∉ env.asksFor (.ofClass owner)) (simple : String) :
    env'.findMemberClass? owner simple = env.findMemberClass? owner simple := by
  rw [findMemberClass?, findMemberClass?, closure_same h.sameBut hname]

end ClassEnv

/-! ## Searches -/

namespace Catalog

open ClassTable (nameIn?)

variable {name : String} {env env' : ClassEnv} {c : Catalog} {simple : String}

theorem memberClass?_same (h : env.GrowsBy name env') {owner : String}
    (hdirect : BinaryName.nested owner simple ≠ name) (hname : name ∉ env.asksFor (.ofClass owner)) :
    c.memberClass? env' owner simple = c.memberClass? env owner simple := by
  simp only [memberClass?, h.hasClass _ hdirect, ClassEnv.findMemberClass?_same h hname]

/-- The search for a simple name in what an import on demand denotes does not ask for the class of that
name: it is neither the class that the package may have, nor one that the import may denote, nor a
member class or a supertype of the latter. -/
def PassesBy (env : ClassEnv) (simple name dotted : String) : Prop :=
  nameIn? dotted name ≠ some simple ∧ name ∉ ClassEnv.readings dotted ∧
    ∀ owner ∈ env.loadCanonical dotted,
      BinaryName.nested owner simple ≠ name ∧ name ∉ env.asksFor (.ofClass owner)

instance (simple dotted : String) : Decidable (PassesBy env simple name dotted) :=
  inferInstanceAs (Decidable (_ ∧ _ ∧ _))

theorem meaningOnDemand_same (h : env.GrowsBy name env') {paths : List QualifiedName}
    (hpaths : ∀ path ∈ paths, PassesBy env simple name path.toDotted) :
    c.meaningOnDemand env' simple paths = c.meaningOnDemand env simple paths := by
  induction paths with
  | nil => rfl
  | cons path rest ih =>
    obtain ⟨⟨hlisted, hread, hasked⟩, hrest⟩ := List.forall_mem_cons.mp hpaths
    have hmember : (env.loadCanonical path.toDotted).bind (c.memberClass? env' · simple)
        = (env.loadCanonical path.toDotted).bind (c.memberClass? env · simple) := by
      cases howner : env.loadCanonical path.toDotted with
      | none => rfl
      | some owner =>
        obtain ⟨hdirect, hname⟩ := hasked owner howner
        exact memberClass?_same h hdirect hname
    rw [meaningOnDemand, meaningOnDemand, h.listed _ _ hlisted, ClassEnv.loadCanonical_same h hread,
      hmember, ih hrest]

/-- The search for a simple name does not ask for the class of that name: the unit, a single import or
the package has the simple name, or no later step of the search comes to the class. -/
def Overlooks (env : ClassEnv) (c : Catalog) (simple name : String) : Prop :=
  ((c.declared.lookup simple).or (c.single.lookup simple)).isSome = true ∨
    env.hasClass (c.package.qualify simple) = true ∨
    c.package.qualify simple ≠ name ∧ languagePackage ++ "." ++ simple ≠ name ∧
      ∀ path ∈ c.imports.onDemand, PassesBy env simple name path.toDotted

instance (simple : String) : Decidable (c.Overlooks env simple name) :=
  inferInstanceAs (Decidable (_ ∨ _ ∨ _ ∧ _ ∧ _))

theorem meaning_same (h : env.GrowsBy name env') (hname : c.Overlooks env simple name) :
    c.meaning env' simple = c.meaning env simple := by
  unfold meaning
  cases hunit : (c.declared.lookup simple).or (c.single.lookup simple) with
  | some binary => rfl
  | none =>
    rcases hname with hfound | hpackage | ⟨hpackage, hlanguage, hpaths⟩
    · rw [hunit] at hfound
      cases hfound
    · simp only [hpackage, h.hasClass_of _ hpackage, if_true]
    · simp only [h.hasClass _ hpackage, h.hasClass _ hlanguage, meaningOnDemand_same h hpaths]

/-! ## What is remembered -/

/-- No search that the catalog remembers has asked for the class of that name. -/
structure Overlooked (env : ClassEnv) (c : Catalog) (name : String) : Prop where
  /-- The listings of packages. -/
  listings : ∀ entry ∈ c.listings, nameIn? entry.1 name = none
  /-- The types behind imports on demand. -/
  owners : ∀ entry ∈ c.owners, name ∉ ClassEnv.readings entry.1
  /-- The answers for simple names. -/
  answers : ∀ entry ∈ c.answers, c.Overlooks env entry.1 name

instance : Decidable (c.Overlooked env name) :=
  decidable_of_iff
    ((∀ entry ∈ c.listings, nameIn? entry.1 name = none) ∧
      (∀ entry ∈ c.owners, name ∉ ClassEnv.readings entry.1) ∧
        ∀ entry ∈ c.answers, c.Overlooks env entry.1 name)
    ⟨fun h => ⟨h.1, h.2.1, h.2.2⟩, fun h => ⟨h.listings, h.owners, h.answers⟩⟩

/-- What is remembered stays right when a class is declared that no search has asked for. -/
theorem Faithful.grows (hc : c.Faithful env) (h : env.GrowsBy name env')
    (hname : c.Overlooked env name) : c.Faithful env' where
  listings package classes hlookup := by
    rw [h.packageClasses package (hname.listings _ (mem_of_lookup hlookup))]
    exact hc.listings package classes hlookup
  owners dotted owner hlookup := by
    rw [ClassEnv.loadCanonical_same h (hname.owners _ (mem_of_lookup hlookup))]
    exact hc.owners dotted owner hlookup
  answers simple answer hlookup := by
    rw [meaning_same h (hname.answers _ (mem_of_lookup hlookup))]
    exact hc.answers simple answer hlookup

/-- What is remembered stays right when a class is given its members. -/
theorem Faithful.refined {T : ClassTable} {outside : ClassEnv}
    (hc : c.Faithful (Analysis.overlay T outside)) {d : ClassDef}
    (hd : (T.get? d.name).map ClassDef.header = some d.header) :
    c.Faithful (Analysis.overlay (T.insert d) outside) := by
  obtain ⟨before, hbefore, hheader⟩ := Option.map_eq_some_iff.mp hd
  rw [← faithful_headers_iff, Analysis.headers_overlay_insert hbefore hheader.symm,
    faithful_headers_iff]
  exact hc

/-! ## Runs -/

/-- What happens to a catalog while a unit is analyzed. -/
inductive Event where
  /-- A simple name is looked up. -/
  | lookup (simple : String)
  /-- A class of the unit is declared. -/
  | declare (d : ClassDef)

/-- The classes that are declared so far, and the catalog. -/
structure Moment where
  /-- The classes. -/
  declared : ClassTable
  /-- The catalog. -/
  catalog : Catalog

namespace Moment

variable (outside : ClassEnv)

/-- The classes that can be referred to. -/
def classes (m : Moment) : ClassEnv := Analysis.overlay m.declared outside

/-- The answer that a catalog gives at the moment. -/
def answer (m : Moment) (c : Catalog) (simple : String) : Option String :=
  ((resolve (m.classes outside) simple).run c).1

/-- The next moment. -/
def after (m : Moment) : Event → Moment
  | .lookup simple => { m with catalog := ((resolve (m.classes outside) simple).run m.catalog).2 }
  | .declare d => { m with declared := m.declared.insert d }

/-- What happens puts nothing out of date: a class that is declared is one that has been declared with
the same header, or one that no search has asked for. -/
def Allows (m : Moment) : Event → Prop
  | .lookup _ => True
  | .declare d =>
    (m.declared.get? d.name).map ClassDef.header = some d.header ∨
      m.catalog.Overlooked (m.classes outside) d.name

/-- Each event is allowed at its moment. -/
def AllowsAll (m : Moment) : List Event → Prop
  | [] => True
  | e :: events => m.Allows outside e ∧ (m.after outside e).AllowsAll events

variable {outside} {m : Moment}

theorem after_faithful (hm : m.catalog.Faithful (m.classes outside)) {e : Event}
    (he : m.Allows outside e) :
    (m.after outside e).catalog.Faithful ((m.after outside e).classes outside) ∧
      m.catalog.Same (m.after outside e).catalog := by
  cases e with
  | lookup simple =>
    obtain ⟨-, hlater⟩ := resolve_run hm simple
    exact ⟨hlater.faithful, hlater.same⟩
  | declare d =>
    refine ⟨?_, .refl _⟩
    rcases he with hheader | hname
    · exact hm.refined hheader
    · exact hm.grows (Analysis.growsBy_insert m.declared d outside) hname

theorem foldl_after_faithful (hm : m.catalog.Faithful (m.classes outside)) {events : List Event}
    (hevents : m.AllowsAll outside events) :
    let later := events.foldl (after outside) m
    later.catalog.Faithful (later.classes outside) ∧ m.catalog.Same later.catalog := by
  induction events generalizing m with
  | nil => exact ⟨hm, .refl _⟩
  | cons e events ih =>
    obtain ⟨hstep, hsame⟩ := after_faithful hm hevents.1
    obtain ⟨hrun, hsame'⟩ := ih hstep hevents.2
    exact ⟨hrun, hsame.trans hsame'⟩

end Moment

/-- Names are looked up and classes declared, each with the header that it had before or before a search
that is remembered has asked for it.  Then the catalog of the unit answers like one that remembers
nothing. -/
theorem answers_as_if_blank (atStart : ClassEnv) (hasLanguagePackage : Bool) (u : SourceUnit)
    (declared : ClassTable) (outside : ClassEnv) (events : List Event)
    (hevents : (Moment.mk declared (ofUnit atStart hasLanguagePackage u)).AllowsAll outside events)
    (simple : String) :
    let m := events.foldl (Moment.after outside) ⟨declared, ofUnit atStart hasLanguagePackage u⟩
    m.answer outside m.catalog simple
      = m.answer outside (ofUnit atStart hasLanguagePackage u) simple := by
  intro m
  obtain ⟨hfaithful, hsame⟩ :=
    Moment.foldl_after_faithful (faithful_ofUnit atStart hasLanguagePackage u _) hevents
  calc m.answer outside m.catalog simple
      = m.catalog.meaning (m.classes outside) simple := (resolve_run hfaithful simple).1
    _ = (ofUnit atStart hasLanguagePackage u).meaning (m.classes outside) simple :=
        (hsame.meaning _ simple).symm
    _ = m.answer outside (ofUnit atStart hasLanguagePackage u) simple :=
        (resolve_run (faithful_ofUnit atStart hasLanguagePackage u _) simple).1.symm

/-- A map interface with its entries, and the root class. -/
def mapClasses : ClassEnv :=
  ClassTable.toEnv ⟨[{ ClassDef.empty objectName .ordinary with superclass := none },
    { ClassDef.empty "java.util.Map" .interface with memberClasses := ["java.util.Map$Entry"] },
    ClassDef.empty "java.util.Map$Entry" .interface]⟩

/-- The interface `p.A` that extends the map. -/
def mapInterface : ClassDef :=
  { ClassDef.empty "p.A" .interface with interfaces := [.ofClass "java.util.Map"] }

/-- A class `B` and an interface `A` in the package `p`, with the import of all member types of a type. -/
def importingUnit (path : List String) : SourceUnit :=
  let decl := fun id name kind =>
    { id, name, kind, modifiers := {}, typeParams := [], parent := none, interfaces := [], constants := [],
      members := [], span := default : Decl }
  { package := some ⟨⟨["p"]⟩⟩
    imports := [.onDemand ⟨path⟩]
    types := [decl 0 "B" .ordinary, decl 1 "A" .interface] }

/-- The class `p.A` is declared between look-ups, and declared again with a method. -/
def mapEvents : List Event :=
  [.lookup "Object", .declare (.empty "p.B" .ordinary), .declare mapInterface, .lookup "Entry",
    .declare { mapInterface with methods := [{ name := "f", params := [], returnType := .void }] }]

/-- The member type `Entry` of the map is found. -/
theorem entry_of_map :
    let start : Moment := ⟨{}, ofUnit mapClasses true (importingUnit ["java", "util", "Map"])⟩
    let m := mapEvents.foldl (Moment.after mapClasses) start
    start.AllowsAll mapClasses mapEvents ∧
      m.answer mapClasses m.catalog "Entry" = some "java.util.Map$Entry" := by
  intro start m
  have hevents : start.AllowsAll mapClasses mapEvents := by
    refine ⟨trivial, .inr ?_, .inr ?_, trivial, .inl rfl, trivial⟩
    · decide +kernel
    · decide +kernel
  refine ⟨hevents, ?_⟩
  rw [answers_as_if_blank mapClasses true (importingUnit ["java", "util", "Map"]) {} mapClasses
    mapEvents hevents "Entry"]
  decide +kernel

/-- The first look-up comes to the import of all member types of `p.A`, which is not declared yet.  So
nothing is found there later. -/
theorem entry_of_late_class :
    ¬ ∀ (atStart : ClassEnv) (hasLanguagePackage : Bool) (u : SourceUnit) (declared : ClassTable)
      (outside : ClassEnv) (events : List Event) (simple : String),
      let m := events.foldl (Moment.after outside) ⟨declared, ofUnit atStart hasLanguagePackage u⟩
      m.answer outside m.catalog simple
        = m.answer outside (ofUnit atStart hasLanguagePackage u) simple := by
  intro hall
  have hsame := hall mapClasses true (importingUnit ["p", "A"]) {} mapClasses
    [.lookup "Object", .declare (.empty "p.B" .ordinary), .declare mapInterface] "Entry"
  revert hsame
  decide +kernel

end Catalog

end JavaSema
