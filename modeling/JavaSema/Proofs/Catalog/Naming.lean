import JavaSema.Catalog.Basic
import JavaSema.Proofs.Source.Below

/-!
# The names of member classes

Which entries the catalog gets when classes and their member classes are named.

There are two groups.

* Member classes of a class.  `memberEntries` are their entries, the latest first: one for each class
  of their families, and no others.
* Classes outside of bodies.  The catalog of a unit has an entry for each class of their families.
-/

namespace JavaSema.Catalog

open Source

/-- A declaration with an entry has a name. -/
theorem binaryName?_isSome {c : Catalog} {d : Decl} {b : String} (h : (d.id, b) ∈ c.names) :
    (c.binaryName? d).isSome := by
  rw [Option.isSome_iff_ne_none]
  intro hnone
  have hne := List.lookup_eq_none_iff.mp hnone (d.id, b) h
  simp at hne

/-! ## Member classes -/

/-- The entries for the member classes of a class, and theirs, down to the given height, the latest
first. -/
def memberEntries : Nat → String → List Decl → List (NodeId × String)
  | 0, _, _ => []
  | height + 1, outer, ds =>
    ds.reverse.flatMap fun d =>
      memberEntries height (BinaryName.nested outer d.name) d.nestedTypes
        ++ [(d.id, BinaryName.nested outer d.name)]

/-- Naming the member classes adds their entries and leaves the numbers of local classes. -/
theorem nameNestedIn_names (height : Nat) (c : Catalog) (outer : String) (ds : List Decl) :
    (nameNestedIn height c outer ds).names = memberEntries height outer ds ++ c.names ∧
      (nameNestedIn height c outer ds).counters = c.counters := by
  induction height generalizing c outer ds with
  | zero => exact ⟨rfl, rfl⟩
  | succ height ih =>
    rw [nameNestedIn, memberEntries]
    induction ds generalizing c with
    | nil => exact ⟨rfl, rfl⟩
    | cons d ds ihds =>
      have hfirst := ih (c.assign d (BinaryName.nested outer d.name))
        (BinaryName.nested outer d.name) d.nestedTypes
      have hrest := ihds (nameNestedIn height (c.assign d (BinaryName.nested outer d.name))
        (BinaryName.nested outer d.name) d.nestedTypes)
      rw [List.foldl_cons]
      refine ⟨?_, hrest.2.trans hfirst.2⟩
      rw [hrest.1, hfirst.1]
      simp [assign]

/-- An entry is one of a class of the families. -/
theorem exists_of_memberEntries {height : Nat} {outer : String} {ds : List Decl}
    {p : NodeId × String} (h : p ∈ memberEntries height outer ds) :
    ∃ e ∈ ds.flatMap Decl.family, p.1 = e.id := by
  induction height generalizing outer ds with
  | zero => cases h
  | succ height ih =>
    obtain ⟨d, hd, hp⟩ := List.mem_flatMap.mp h
    have hfamily : ∀ e ∈ d.family, e ∈ ds.flatMap Decl.family := fun e he =>
      List.mem_flatMap.mpr ⟨d, List.mem_reverse.mp hd, he⟩
    rw [Decl.family_eq] at hfamily
    rcases List.mem_append.mp hp with hp | hp
    · obtain ⟨e, he, hid⟩ := ih hp
      exact ⟨e, hfamily e (List.mem_cons_of_mem _ he), hid⟩
    · rw [List.mem_singleton.mp hp]
      exact ⟨d, hfamily d List.mem_cons_self, rfl⟩

/-- Each class of the families has an entry, if the height suffices. -/
theorem exists_memberEntry {height : Nat} {outer : String} {ds : List Decl}
    (hheight : ∀ d ∈ ds, (Node.decl d).height ≤ height) {e : Decl}
    (he : e ∈ ds.flatMap Decl.family) : ∃ b, (e.id, b) ∈ memberEntries height outer ds := by
  induction height generalizing outer ds with
  | zero =>
    obtain ⟨d, hd, -⟩ := List.mem_flatMap.mp he
    exact absurd (hheight d hd) (Nat.not_le.mpr (Node.height_pos _))
  | succ height ih =>
    obtain ⟨d, hd, he⟩ := List.mem_flatMap.mp he
    have hentries : ∀ p ∈ memberEntries height (BinaryName.nested outer d.name) d.nestedTypes
        ++ [(d.id, BinaryName.nested outer d.name)], p ∈ memberEntries (height + 1) outer ds :=
      fun p hp => List.mem_flatMap.mpr ⟨d, List.mem_reverse.mpr hd, hp⟩
    rw [Decl.family_eq] at he
    rcases List.mem_cons.mp he with rfl | he
    · exact ⟨_, hentries _ (List.mem_append_right _ (List.mem_singleton_self _))⟩
    · have hnested : ∀ n ∈ d.nestedTypes, (Node.decl n).height ≤ height := by
        intro n hn
        have hlt := Node.height_lt_of_mem_children (Decl.nested_mem_children hn)
        have hle := hheight d hd
        omega
      obtain ⟨b, hb⟩ := ih hnested he
      exact ⟨b, hentries _ (List.mem_append_left _ hb)⟩

/-! ## Classes outside of bodies -/

/-- The level below needs less height. -/
theorem height_next {height : Nat} {level : List (Decl × String)}
    (hheight : ∀ p ∈ level, (Node.decl p.1).height ≤ height + 1) :
    ∀ q ∈ level.flatMap (fun (d, binary) =>
      d.nestedTypes.map fun n => (n, BinaryName.nested binary n.name)),
      (Node.decl q.1).height ≤ height := by
  intro q hq
  obtain ⟨r, hr, hq⟩ := List.mem_flatMap.mp hq
  obtain ⟨m, hm, rfl⟩ := List.mem_map.mp hq
  have hlt := Node.height_lt_of_mem_children (Decl.nested_mem_children hm)
  have hle := hheight r hr
  dsimp only
  omega

theorem height_declarations (u : SourceUnit) :
    ∀ p ∈ u.types.map fun d => (d, u.packageName.qualify d.name),
      (Node.decl p.1).height ≤ u.height := by
  intro p hp
  obtain ⟨t, ht, rfl⟩ := List.mem_map.mp hp
  exact SourceUnit.height_le_of_mem_types ht

/-- The levels hold the classes of the families, if the height suffices. -/
theorem exists_of_levels {height : Nat} {level : List (Decl × String)}
    (hheight : ∀ p ∈ level, (Node.decl p.1).height ≤ height) {p : Decl × String} (hp : p ∈ level)
    {e : Decl} (he : e ∈ p.1.family) : ∃ b, (e, b) ∈ levels height level := by
  induction height generalizing level p with
  | zero => exact absurd (hheight p hp) (Nat.not_le.mpr (Node.height_pos _))
  | succ height ih =>
    rw [Decl.family_eq] at he
    rcases List.mem_cons.mp he with rfl | he
    · exact ⟨p.2, List.mem_append_left _ hp⟩
    · obtain ⟨n, hn, he⟩ := List.mem_flatMap.mp he
      have hnext : (n, BinaryName.nested p.2 n.name) ∈ level.flatMap fun (d, binary) =>
          d.nestedTypes.map fun n => (n, BinaryName.nested binary n.name) :=
        List.mem_flatMap.mpr ⟨p, hp, List.mem_map.mpr ⟨n, hn, rfl⟩⟩
      obtain ⟨b, hb⟩ := ih (height_next hheight) hnext he
      exact ⟨b, List.mem_append_right _ hb⟩

theorem foldl_declare_names (ds : List (Decl × String)) (c : Catalog) :
    (∀ p ∈ ds, (p.1.id, p.2) ∈ (ds.foldl (fun c (d, binary) => c.declare d binary) c).names) ∧
      c.names ⊆ (ds.foldl (fun c (d, binary) => c.declare d binary) c).names ∧
      (ds.foldl (fun c (d, binary) => c.declare d binary) c).counters = c.counters := by
  induction ds generalizing c with
  | nil => exact ⟨List.forall_mem_nil _, List.Subset.refl _, rfl⟩
  | cons p ds ih =>
    obtain ⟨hnew, hold, hcounters⟩ := ih (c.declare p.1 p.2)
    refine ⟨List.forall_mem_cons.mpr ⟨hold List.mem_cons_self, hnew⟩, ?_, hcounters⟩
    exact List.Subset.trans (List.subset_cons_self _ _) hold

/-- The catalog of a unit names the classes outside of bodies, and there are no classes in bodies
yet. -/
theorem ofUnit_names (env : ClassEnv) (hasLanguagePackage : Bool) (u : SourceUnit) :
    (∀ d ∈ u.types.flatMap Decl.family, ((ofUnit env hasLanguagePackage u).binaryName? d).isSome) ∧
      (ofUnit env hasLanguagePackage u).counters = [] := by
  obtain ⟨hnames, -, hcounters⟩ := foldl_declare_names (declarations u)
    { package := u.packageName, hasLanguagePackage, imports := Imports.ofList u.imports }
  refine ⟨fun e he => ?_, hcounters⟩
  obtain ⟨d, hd, he⟩ := List.mem_flatMap.mp he
  have hlevel : (d, u.packageName.qualify d.name) ∈
      u.types.map fun d => (d, u.packageName.qualify d.name) := List.mem_map.mpr ⟨d, hd, rfl⟩
  obtain ⟨b, hb⟩ := exists_of_levels (height_declarations u) hlevel he
  exact binaryName?_isSome (hnames _ hb)

end JavaSema.Catalog
