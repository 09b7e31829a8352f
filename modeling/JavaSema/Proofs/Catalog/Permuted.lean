import JavaSema.Proofs.Catalog.Naming
import JavaSema.Proofs.Catalog.Remembered
import JavaSema.Proofs.Source.BodyClasses
import Mathlib.Data.List.Nodup
import Mathlib.Data.List.Perm.Basic

/-!
# Catalogs of permuted units

The catalog of a unit depends on the order of the classes only in what no lookup can see, if the classes
have distinct names.

There are two groups.

* Maps with distinct keys, in which the order of the entries does not matter.
* The declarations of a unit, and its catalog.
-/

namespace JavaSema

open Source

/-! ## Maps -/

theorem mem_of_lookup {κ α : Type} [BEq κ] [LawfulBEq κ] {m : List (κ × α)} {k : κ} {a : α}
    (h : m.lookup k = some a) : (k, a) ∈ m := by
  obtain ⟨before, after, rfl, -⟩ := List.lookup_eq_some_iff.mp h
  exact List.mem_append_right _ List.mem_cons_self

/-- Where the keys are distinct, an entry is found under its key. -/
theorem lookup_eq_some_iff_mem {κ α : Type} [BEq κ] [LawfulBEq κ] {m : List (κ × α)}
    (hkeys : (m.map Prod.fst).Nodup) {k : κ} {a : α} : m.lookup k = some a ↔ (k, a) ∈ m := by
  induction m with
  | nil => simp
  | cons p m ih =>
    obtain ⟨hp, hkeys⟩ := List.nodup_cons.mp hkeys
    rw [List.lookup_cons]
    by_cases hk : k = p.1
    · have hnot : (k, a) ∉ m := fun hmem => hp (List.mem_map.mpr ⟨(k, a), hmem, hk⟩)
      obtain ⟨key, value⟩ := p
      obtain rfl : k = key := hk
      simp [hnot, eq_comm]
    · have hne : (k, a) ≠ p := fun h => hk (congrArg Prod.fst h)
      rw [beq_false_of_ne hk, List.mem_cons, or_iff_right hne]
      exact ih hkeys

theorem lookup_perm {κ α : Type} [BEq κ] [LawfulBEq κ] {m m' : List (κ × α)} (hperm : m.Perm m')
    (hkeys : (m.map Prod.fst).Nodup) (k : κ) : m.lookup k = m'.lookup k := by
  have hkeys' : (m'.map Prod.fst).Nodup := (hperm.map Prod.fst).nodup_iff.mp hkeys
  apply Option.ext
  intro a
  rw [lookup_eq_some_iff_mem hkeys, lookup_eq_some_iff_mem hkeys', hperm.mem_iff]

namespace NameMap

variable {α : Type}

theorem le_trans (a b c : String × α) (hab : decide (a.1 ≤ b.1) = true)
    (hbc : decide (b.1 ≤ c.1) = true) : decide (a.1 ≤ c.1) = true := by
  simp only [decide_eq_true_eq] at hab hbc ⊢
  exact String.le_trans hab hbc

theorem le_total (a b : String × α) : (decide (a.1 ≤ b.1) || decide (b.1 ≤ a.1)) = true := by
  simpa using String.le_total a.1 b.1

/-- Entries with distinct keys are sorted in one way. -/
theorem sorted_perm {m m' : NameMap α} (hperm : m.Perm m') (hkeys : (m.map Prod.fst).Nodup) :
    m.sorted = m'.sorted := by
  have hsorted : m.sorted.Perm m := List.mergeSort_perm m _
  have hsorted' : m'.sorted.Perm m' := List.mergeSort_perm m' _
  refine List.Perm.eq_of_pairwise (fun x y hx hy hxy hyx => ?_) (List.pairwise_mergeSort le_trans le_total m)
    (List.pairwise_mergeSort le_trans le_total m') (hsorted.trans (hperm.trans hsorted'.symm))
  simp only [decide_eq_true_eq] at hxy hyx
  have hx : x ∈ m := hsorted.mem_iff.mp hx
  have hy : y ∈ m := hperm.mem_iff.mpr (hsorted'.mem_iff.mp hy)
  exact List.inj_on_of_nodup_map hkeys hx hy (String.le_antisymm hxy hyx)

end NameMap

/-! ## Declarations -/

theorem Source.SourceUnit.height_perm {u : SourceUnit} {types : List Decl} (hperm : u.types.Perm types) :
    u.height = ({ u with types } : SourceUnit).height :=
  (hperm.map fun d => (Node.decl d).height).foldl_eq 0

namespace Catalog

theorem levels_perm (height : Nat) {level level' : List (Decl × String)} (hperm : level.Perm level') :
    (levels height level).Perm (levels height level') := by
  induction height generalizing level level' with
  | zero => exact .refl _
  | succ height ih => exact hperm.append (ih (hperm.flatMap_right _))

theorem declarations_perm {u : SourceUnit} {types : List Decl} (hperm : u.types.Perm types) :
    (declarations u).Perm (declarations { u with types }) := by
  unfold declarations
  rw [SourceUnit.height_perm hperm]
  exact levels_perm _ (hperm.map _)

/-- The levels hold each class of the families once, if the height suffices. -/
theorem levels_families {height : Nat} {level : List (Decl × String)}
    (hheight : ∀ p ∈ level, (Node.decl p.1).height ≤ height) :
    ((levels height level).map Prod.fst).Perm (level.flatMap fun p => p.1.family) := by
  induction height generalizing level with
  | zero =>
    cases level with
    | nil => exact .refl _
    | cons p level =>
      exact absurd (hheight p List.mem_cons_self) (Nat.not_le.mpr (Node.height_pos _))
  | succ height ih =>
    have hlower := ih (height_next hheight)
    rw [levels, List.map_append]
    refine (hlower.append_left _).trans ?_
    have hfamilies := List.map_append_flatMap_perm level Prod.fst fun p =>
      p.1.nestedTypes.flatMap Decl.family
    simp only [← Decl.family_eq] at hfamilies
    simpa only [List.flatMap_assoc, List.flatMap_map] using hfamilies

theorem declarations_families (u : SourceUnit) :
    ((declarations u).map Prod.fst).Perm (u.types.flatMap Decl.family) := by
  have hfamilies := levels_families (height_declarations u)
  rwa [List.flatMap_map] at hfamilies

/-- Declarations with new names are entered one after the other. -/
theorem foldl_declare_eq (ds : List (Decl × String)) (c : Catalog)
    (hnew : (c.declared.map Prod.fst ++ ds.map fun p => p.1.name).Nodup) :
    ds.foldl (fun c p => c.declare p.1 p.2) c =
      { c with
        binaries := (ds.map Prod.snd).reverse ++ c.binaries
        names := (ds.map fun p => (p.1.id, p.2)).reverse ++ c.names
        declared := c.declared ++ ds.map fun p => (p.1.name, p.2) } := by
  induction ds generalizing c with
  | nil => simp
  | cons p ds ih =>
    have hfirst : c.declare p.1 p.2 =
        { c with
          binaries := p.2 :: c.binaries
          names := (p.1.id, p.2) :: c.names
          declared := c.declared ++ [(p.1.name, p.2)] } := by
      have hnone : c.declared.lookup p.1.name = none := by
        rw [List.lookup_eq_none_iff]
        intro q hq
        have hne := (List.nodup_append.mp hnew).2.2 q.1 (List.mem_map_of_mem hq) p.1.name List.mem_cons_self
        exact bne_iff_ne.mpr hne.symm
      rw [declare, NameMap.addNew, hnone]
      rfl
    rw [List.foldl_cons, hfirst, ih]
    · simp
    · simpa using hnew

/-- The catalog of a unit remembers nothing yet. -/
theorem faithful_ofUnit (env : ClassEnv) (hasLanguagePackage : Bool) (u : SourceUnit) (env' : ClassEnv) :
    (ofUnit env hasLanguagePackage u).Faithful env' := by
  have hblank : ∀ (ds : List (Decl × String)) (c : Catalog), c.listings = [] → c.owners = [] →
      c.answers = [] → (ds.foldl (fun c p => c.declare p.1 p.2) c).listings = [] ∧
        (ds.foldl (fun c p => c.declare p.1 p.2) c).owners = [] ∧
        (ds.foldl (fun c p => c.declare p.1 p.2) c).answers = [] := by
    intro ds
    induction ds with
    | nil => exact fun c hlistings howners hanswers => ⟨hlistings, howners, hanswers⟩
    | cons p ds ih => exact fun c => ih (c.declare p.1 p.2)
  obtain ⟨hlistings, howners, hanswers⟩ := hblank (declarations u)
    { package := u.packageName, hasLanguagePackage, imports := Imports.ofList u.imports } rfl rfl rfl
  have hlistings : (ofUnit env hasLanguagePackage u).listings = [] := hlistings
  have howners : (ofUnit env hasLanguagePackage u).owners = [] := howners
  have hanswers : (ofUnit env hasLanguagePackage u).answers = [] := hanswers
  constructor
  · intro package classes h
    rw [hlistings] at h
    cases h
  · intro dotted owner h
    rw [howners] at h
    cases h
  · intro simple answer h
    rw [hanswers] at h
    cases h

/-- The catalogs of a unit and of the same unit with its classes in another order. -/
theorem ofUnit_perm (env : ClassEnv) (hasLanguagePackage : Bool) {u : SourceUnit} {types : List Decl}
    (hperm : u.types.Perm types) (hids : (u.nodes.map Node.id).Nodup)
    (hnames : ((u.types.flatMap Decl.family).map Decl.name).Nodup) :
    (ofUnit env hasLanguagePackage u).Same (ofUnit env hasLanguagePackage { u with types }) := by
  have hdeclarations := declarations_perm hperm
  have hsimple : ((declarations u).map fun p => p.1.name).Nodup := by
    have hperm := (declarations_families u).map Decl.name
    rw [List.map_map] at hperm
    exact hperm.nodup_iff.mpr hnames
  have hnumbers : ((declarations u).map fun p => p.1.id).Nodup := by
    have hall := SourceUnit.nodup_families hids
    rw [List.map_append] at hall
    have hperm := (declarations_families u).map Decl.id
    rw [List.map_map] at hperm
    exact hperm.nodup_iff.mpr (List.nodup_append.mp hall).1
  have hsimple' := (hdeclarations.map fun p => p.1.name).nodup_iff.mp hsimple
  have hentries := hdeclarations.map fun p => (p.1.name, p.2)
  have hkeys : (((declarations u).map fun p => (p.1.name, p.2)).map Prod.fst).Nodup := by
    rwa [List.map_map]
  have hids : (((declarations u).map fun p => (p.1.id, p.2)).reverse.map Prod.fst).Nodup := by
    rwa [List.map_reverse, List.nodup_reverse, List.map_map]
  dsimp only [ofUnit]
  rw [foldl_declare_eq (declarations u) _ (by exact hsimple),
    foldl_declare_eq (declarations { u with types }) _ (by exact hsimple')]
  refine ⟨rfl, rfl, rfl, rfl, rfl, rfl, ?_, ?_, ?_, ?_⟩
  · exact lookup_perm hentries hkeys
  · exact NameMap.sorted_perm hentries hkeys
  · intro binary
    have hmem := (hdeclarations.map Prod.snd).mem_iff (a := binary)
    simp only [isDeclared, List.append_nil, List.contains_eq_mem, List.mem_reverse, hmem]
  · intro id
    simp only [List.append_nil]
    refine lookup_perm ?_ hids id
    exact (List.reverse_perm _).trans ((hdeclarations.map _).trans (List.reverse_perm _).symm)

end Catalog

end JavaSema
