import JavaSema.Proofs.Analysis.Again
import JavaSema.Proofs.Analysis.Usage

/-!
# Static imports during an analysis

A static import names a type.  Which class this is the catalog of a unit is told before the classes of
the unit are declared, and it does not ask again.  So it is a class outside of the unit.

There are four groups.

* What the catalog of a unit is told (`mem_staticOwners_ofUnit`).
* `Evolves` says that a catalog came from an earlier one by operations that an analysis runs on it.
  These leave the static imports (`Evolves.staticOwners`).
* `Traced` says that a step changes the catalog by such operations only.  It is compositional, so that
  the whole analysis is traced.
* The result is `staticOwners_throughout`.
-/

namespace JavaSema

open Source

/-! ## Imports -/

/-- The type whose static member of that name the import makes visible. -/
def Source.Import.staticType? (name : String) : Import → Option QualifiedName
  | .staticSingle type member => if member = name then some type else none
  | .staticOnDemand type => some type
  | .single _ | .onDemand _ => none

namespace Imports

/-- The static member of that name of the type is imported. -/
def Shows (i : Imports) (name : String) (type : QualifiedName) : Prop :=
  (type, name) ∈ i.staticSingle ∨ type ∈ i.staticOnDemand

variable {name : String} {type : QualifiedName}

/-- One more import shows its own members. -/
theorem shows_add (i : Imports) (new : Import) :
    (i.add new).Shows name type ↔
      i.Shows name type ∨ type.segments ≠ [] ∧ new.staticType? name = some type := by
  cases new with
  | single path =>
    rw [add]
    split
    · simp [Shows, Import.staticType?]
    · simp [Import.staticType?]
  | onDemand path =>
    rw [add]
    split
    · simp [Import.staticType?]
    · simp [Shows, Import.staticType?]
  | staticSingle path member =>
    rw [add, Import.staticType?]
    split
    · grind
    · simp only [Shows, List.mem_append, List.mem_singleton, Prod.mk.injEq]
      grind
  | staticOnDemand path =>
    rw [add, Import.staticType?]
    split
    · grind
    · simp only [Shows, List.mem_append, List.mem_singleton]
      grind

theorem shows_foldl (is : List Import) (i : Imports) :
    (is.foldl add i).Shows name type ↔
      i.Shows name type ∨ type.segments ≠ [] ∧ ∃ new ∈ is, new.staticType? name = some type := by
  induction is generalizing i with
  | nil => simp
  | cons new is ih =>
    rw [List.foldl_cons, ih, shows_add, List.exists_mem_cons_iff, and_or_left, or_assoc]

theorem shows_ofList (is : List Import) :
    (ofList is).Shows name type ↔
      type.segments ≠ [] ∧ ∃ i ∈ is, i.staticType? name = some type := by
  have hnone : ¬ Shows {} name type := by simp [Shows]
  rw [ofList, shows_foldl, or_iff_right hnone]

end Imports

namespace Catalog

/-- The static member of that name of a class is imported on its own or with all others. -/
theorem mem_staticOwners {c : Catalog} {name owner : String} :
    owner ∈ c.staticOwners name ↔ (owner, name) ∈ c.staticSingle ∨ owner ∈ c.staticOnDemand := by
  have hfold : ∀ (l out : List String),
      owner ∈ l.foldl (fun out x => if out.contains x then out else out ++ [x]) out ↔
        owner ∈ out ∨ owner ∈ l := by
    intro l
    induction l with
    | nil => simp
    | cons x l ih =>
      intro out
      rw [List.foldl_cons, ih, List.mem_cons]
      split
      · rename_i hx
        have hout : x ∈ out := List.contains_iff_mem.mp hx
        grind
      · rw [List.mem_append, List.mem_singleton, or_assoc]
  rw [staticOwners, hfold]
  simp

/-- A name without segments is that of no class. -/
theorem loadCanonical_of_segments_eq_nil (env : ClassEnv) {path : QualifiedName}
    (h : path.segments = []) : env.loadCanonical path.toDotted = none := by
  rw [QualifiedName.toDotted, h]
  rfl

/-- The catalog of a unit is told, for each static import, the class of that canonical name. -/
theorem mem_staticOwners_ofUnit (env : ClassEnv) (hasLanguagePackage : Bool) (u : SourceUnit)
    (name owner : String) :
    owner ∈ (ofUnit env hasLanguagePackage u).staticOwners name ↔
      ∃ i ∈ u.imports, ∃ type, i.staticType? name = some type ∧
        env.loadCanonical type.toDotted = some owner := by
  have hsingle : (ofUnit env hasLanguagePackage u).staticSingle
      = (Imports.ofList u.imports).staticSingle.filterMap fun p =>
        (env.loadCanonical p.1.toDotted).map fun owner => (owner, p.2) := rfl
  have honDemand : (ofUnit env hasLanguagePackage u).staticOnDemand
      = (Imports.ofList u.imports).staticOnDemand.filterMap fun type =>
        env.loadCanonical type.toDotted := rfl
  have hshows : owner ∈ (ofUnit env hasLanguagePackage u).staticOwners name ↔
      ∃ type, (Imports.ofList u.imports).Shows name type ∧
        env.loadCanonical type.toDotted = some owner := by
    rw [mem_staticOwners, hsingle, honDemand]
    simp only [Imports.Shows, List.mem_filterMap, Option.map_eq_some_iff, Prod.mk.injEq, Prod.exists]
    grind
  rw [hshows]
  constructor
  · rintro ⟨type, hshown, hload⟩
    obtain ⟨-, i, hi, htype⟩ := (Imports.shows_ofList _).mp hshown
    exact ⟨i, hi, type, htype, hload⟩
  · rintro ⟨i, hi, type, htype, hload⟩
    refine ⟨type, (Imports.shows_ofList _).mpr ⟨fun hnil => ?_, i, hi, htype⟩, hload⟩
    rw [loadCanonical_of_segments_eq_nil env hnil] at hload
    cases hload

end Catalog

namespace Analysis

variable {α β : Type}

/-! ## Catalogs -/

/-- The later catalog comes from the earlier one by operations that an analysis runs on it. -/
inductive Evolves (c : Catalog) : Catalog → Prop
  | refl : Evolves c c
  | after {α : Type} {op : StateM Catalog α} {c' : Catalog} (hop : CatalogOp op) :
    Evolves c c' → Evolves c (op.run c').2

theorem Evolves.trans {c c' c'' : Catalog} (h : Evolves c c') (h' : Evolves c' c'') :
    Evolves c c'' := by
  induction h' with
  | refl => exact h
  | after hop _ ih => exact ih.after hop

theorem nameNestedIn_staticOwners (height : Nat) (c : Catalog) (outer : String) (ds : List Decl) :
    (Catalog.nameNestedIn height c outer ds).staticOwners = c.staticOwners := by
  induction height generalizing c outer ds with
  | zero => rfl
  | succ height ih =>
    rw [Catalog.nameNestedIn]
    induction ds generalizing c with
    | nil => rfl
    | cons d ds ihds =>
      rw [List.foldl_cons, ihds, ih]
      rfl

/-- An operation leaves the static imports. -/
theorem CatalogOp.staticOwners {op : StateM Catalog α} (h : CatalogOp op) (c : Catalog) :
    (op.run c).2.staticOwners = c.staticOwners := by
  cases h with
  | resolve env simple =>
    show ((Catalog.resolve env simple).run c).2.forget.staticOwners = c.forget.staticOwners
    rw [Catalog.OnlyRemembers.resolve env simple c]
  | nameLocal d enclosing simple => rfl
  | nameNested d =>
    show (c.nameNested d).staticOwners = c.staticOwners
    rw [Catalog.nameNested]
    split
    · exact nameNestedIn_staticOwners _ _ _ _
    · rfl

theorem Evolves.staticOwners {c c' : Catalog} (h : Evolves c c') :
    c'.staticOwners = c.staticOwners := by
  induction h with
  | refl => rfl
  | after hop _ ih => exact (hop.staticOwners _).trans ih

/-! ## Steps -/

/-- The step changes the catalog by operations that an analysis runs on it, whatever its outcome. -/
def Traced ⦃α : Type⦄ (m : Check α) : Prop :=
  ∀ setting, Keeps (fun s s' : State => Evolves s.catalog s'.catalog) (m setting)

namespace Traced

theorem pure (a : α) : Traced (Pure.pure a : Check α) := fun _ _ => .refl

theorem throw (e : AnalysisError) : Traced (MonadExcept.throw e : Check α) := fun _ _ => .refl

theorem get : Traced (MonadState.get : Check State) := fun _ _ => .refl

theorem read : Traced (MonadReader.read : Check Setting) := fun _ _ => .refl

theorem bind {m : Check α} {k : α → Check β} (hm : Traced m) (hk : ∀ a, Traced (k a)) :
    Traced (m >>= k) :=
  fun setting => (hm setting).bind (fun _ _ _ h h' => h.trans h') fun a => hk a setting

/-- A change of other parts of the state. -/
theorem update {f : State → State} (h : ∀ s, (f s).catalog = s.catalog) :
    Traced (modify f : Check PUnit) := by
  intro setting s
  rw [run_modify, h]
  exact .refl

theorem inCatalog {op : StateM Catalog α} (h : CatalogOp op) : Traced (inCatalog op) :=
  fun _ _ => .after h .refl

theorem inTableFor (name : String) (op : TableM α) : Traced (inTableFor name op) := by
  intro setting s
  rw [exec_inTableFor]
  exact .refl

theorem ofNames : OfNames Traced where
  pure := pure
  bind := bind
  get := get
  read := read
  inCatalog := inCatalog
  throw := throw
  attempt hm := hm
  update _ h := update h
  tryTable _ _ _ _ := .refl

theorem attachMembers (d : Decl) (members : Scope) : Traced (attachMembers d members) := by
  apply update
  intro s
  split
  · split
    · rfl
    · rfl
  · rfl

/-- The analysis of a unit is composed of traced steps. -/
theorem ofUnits (u : SourceUnit) : OfUnits u Traced where
  toCompositional := ofNames.compositional u <|
    ofNames.looking.inBody ofNames.resolving (fun _ _ => inTableFor _ _) fun d =>
      (inTableFor _ _).bind (attachMembers d)
  get _ hk := get.bind hk
  setTable _ := update fun _ => rfl
  inTableFor := inTableFor
  declares _ := update fun _ => rfl

end Traced

/-! ## Static imports -/

/-- While no class is declared, only the classes outside are there. -/
theorem loadCanonical_overlay_empty (outside : ClassEnv) (dotted : String) :
    (overlay {} outside).loadCanonical dotted = outside.loadCanonical dotted := by
  have hsplit : ∀ segments split,
      (overlay {} outside).loadSplit segments split = outside.loadSplit segments split := by
    intro segments split
    induction split with
    | zero => rfl
    | succ split ih =>
      rw [ClassEnv.loadSplit, ClassEnv.loadSplit, ih]
      rfl
  exact hsplit _ _

/-- Throughout the analysis of a unit, static imports make visible the static members of the classes
outside of the unit that they name, and of no others. -/
theorem staticOwners_throughout (setting : Setting) (u : SourceUnit) (typings : Typings) :
    (∀ height, (Checker.upTo height).Has (· ∈ u.nodes) Traced) ∧
      Evolves (start setting u typings).catalog (analyzeFrom setting u typings).2.catalog ∧
      ∀ c, Evolves (start setting u typings).catalog c → ∀ name owner,
        (owner ∈ c.staticOwners name ↔
          ∃ i ∈ u.imports, ∃ type, i.staticType? name = some type ∧
            setting.classes.loadCanonical type.toDotted = some owner) := by
  refine ⟨(Traced.ofUnits u).upTo, ?_, ?_⟩
  · rw [analyzeFrom_eq]
    exact (Traced.ofUnits u).unitSteps setting _
  · intro c hc name owner
    rw [hc.staticOwners, start, Catalog.mem_staticOwners_ofUnit]
    simp only [loadCanonical_overlay_empty]

/-- The package `p` has a class `A` with a static field `f`, which is imported, and a class `B` with a
method that returns `f`. -/
def importsOwnField : SourceUnit :=
  let field : Member :=
    .field
      { modifiers := { isStatic := true }, type := ⟨1, .primitive .int⟩
        declarators := [⟨"f", 0, none⟩] }
  let getter : Member :=
    .method
      { modifiers := {}, typeParams := [], returnType := some ⟨3, .primitive .int⟩, name := "g"
        params := [], body := some ⟨4, .block [⟨5, .ret (some ⟨6, .name "f"⟩)⟩]⟩ }
  { unitOfP [classWith 0 "A" [field], classWith 2 "B" [getter]] with
    imports := [.staticSingle ⟨["p", "A"]⟩ "f"] }

/-- A setting with the root class and the given classes. -/
def besidesRoot (classes : List ClassDef) : Setting :=
  { classes := ClassTable.toEnv ⟨ClassDef.empty objectName .ordinary :: classes⟩ }

/-- With a class of that name outside of the unit, the field is found. -/
theorem importsOwnField_shadowing :
    let setting := besidesRoot [.empty "p.A" .ordinary]
    "p.A" ∈ (analyze setting importsOwnField).2.catalog.staticOwners "f" ∧
      (analyze setting importsOwnField).1.toOption.isSome = true := by
  intro setting
  obtain ⟨-, hend, howners⟩ := staticOwners_throughout setting importsOwnField []
  have hloads : setting.classes.loadCanonical "p.A" = some "p.A" := by decide +kernel
  refine ⟨(howners _ hend "f" "p.A").mpr ⟨_, List.mem_singleton_self _, _, rfl, hloads⟩, ?_⟩
  simp only [analyze, analyzeFrom, declareUnit, checkUnit, Catalog.populate,
    NameMap.sorted_eq_insertionSort]
  decide +kernel

/-- Without such a class, the field of the class of the unit is not found. -/
theorem importsOwnField_unseen :
    (¬ ∀ (setting : Setting) (u : SourceUnit) (typings : Typings),
      ∀ binary ∈ (Catalog.declarations u).map Prod.snd, ∀ i ∈ u.imports, ∀ name type,
        i.staticType? name = some type → Text.replaceChar '$' '.' binary = type.toDotted →
        ∀ c, Evolves (start setting u typings).catalog c → binary ∈ c.staticOwners name) ∧
      ((analyze (besidesRoot []) importsOwnField).1.mapError fun e =>
        (e.expression, e.isSymbolFailure)) = .error ("f", true) := by
  constructor
  · intro hall
    have hseen := hall (besidesRoot []) importsOwnField [] "p.A" (by decide +kernel) _
      (List.mem_singleton_self _) "f" _ rfl (by decide +kernel) _ .refl
    revert hseen
    decide +kernel
  · simp only [analyze, analyzeFrom, declareUnit, checkUnit, Catalog.populate,
      NameMap.sorted_eq_insertionSort]
    decide +kernel

end Analysis

end JavaSema
