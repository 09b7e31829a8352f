import JavaSema.Proofs.Analysis.Calls
import JavaSema.Proofs.Analysis.Numbering

/-!
# The classes of a unit

Which classes an analysis finds: all those that the unit declares, local and anonymous ones included,
the latter with consecutive numbers.

There are two groups.

* The number and the names of the classes after an analysis that succeeds.
* Units with classes in bodies, one of them in a lambda that is checked against two candidates.

## Implementation notes

A class in a lambda gets a name each time the lambda is checked.  Where a candidate is given up, the
classes that were declared for it stay, and so do the numbers that were used up.  The number of
classes and their names are right only where there are no classes in the lambdas among arguments.
-/

namespace JavaSema.Analysis

open Source

/-- The classes are named after class `b` with the numbers from one on, in order. -/
def Numbered (c : Catalog) (b : String) (ks : List BodyClass) : Prop :=
  ∀ i k, ks[i]? = some k →
    c.binaryName? k.decl = some (BinaryName.nested b (toString (i + 1) ++ k.simple))

/-! ## Names -/

section

variable {setting : Setting} {u : SourceUnit} {before : Typings}

/-- Before the bodies are checked, the classes outside of them are known, and no number is used. -/
theorem knows_declared (setting : Setting) (u : SourceUnit) (before : Typings) :
    let M := (start setting u before).model
    (M.declare (u.types.flatMap (familyNames M.catalog))).Knows (u.types.flatMap Decl.family) ∧
      ∀ b, countIn (M.declare (u.types.flatMap (familyNames M.catalog))).catalog b = 0 := by
  intro M
  obtain ⟨hnamed, hcounters⟩ := Catalog.ofUnit_names (overlay {} setting.classes)
    setting.config.hasLanguagePackage u
  have hfamilies : u.types.flatMap (familyNames M.catalog)
      = (u.types.flatMap Decl.family).filterMap M.catalog.binaryName? :=
    (List.filterMap_flatMap ..).symm
  constructor
  · rw [hfamilies]
    exact .of_declare hnamed rfl
  · intro b
    show ((Catalog.ofUnit (overlay {} setting.classes) setting.config.hasLanguagePackage
      u).counters.lookup b).getD 0 = 0
    rw [hcounters]
    rfl

theorem Numbered.of_names {c : Catalog} {d : Decl} {b : String} (hname : c.binaryName? d = some b)
    (hnames : (u.decls.map c.binaryName?).Nodup) (hd : d ∈ u.decls)
    (h : Numbered c b (u.bodyClasses.filter fun k => c.binaryName? k.owner = some b)) :
    Numbered c b (u.bodyClassesIn d) := by
  have hsame : u.bodyClassesIn d = u.bodyClasses.filter fun k => c.binaryName? k.owner = some b := by
    refine List.filter_congr fun k hk => decide_eq_decide.mpr ?_
    have howner : k.owner ∈ u.decls :=
      u.decls_perm.mem_iff.mpr (u.owned_bodyClasses.owner_mem k hk)
    rw [← hname]
    constructor
    · intro hid
      rw [Catalog.binaryName?, Catalog.binaryName?, hid]
    · intro heq
      rw [List.inj_on_of_nodup_map hnames howner hd heq]
  rwa [hsame]

end

/-- Where an analysis succeeds, each class that the unit declares has a name, and the number of
classes is that of their names.  The local and anonymous classes that stand in the bodies of classes
of one name are numbered from one on, in the order in which they are met.  If no two classes have the
same name, then the number of classes is that of the declarations, and the classes directly in the
bodies of a class are numbered from one on.

There may be no classes in the lambdas among arguments.  No number may be used for two nodes of the
unit, which may have been analyzed before. -/
theorem analyzed_classes (setting : Setting) (u : SourceUnit) (hids : (u.nodes.map Node.id).Nodup)
    (hargs : ∀ n ∈ u.nodes, LambdaArgs (Free isDecl) n) (before : Typings)
    (hbefore : KnownFree isDecl u before) (summary : Summary)
    (hok : (analyzeFrom setting u before).1 = .ok summary) :
    let c := (analyzeFrom setting u before).2.catalog
    (∀ d ∈ u.decls, (c.binaryName? d).isSome) ∧
      summary.classes = (u.decls.map c.binaryName?).dedup.length ∧
      (∀ b, Numbered c b (u.bodyClasses.filter fun k => c.binaryName? k.owner = some b)) ∧
      ((u.decls.map c.binaryName?).Nodup →
        summary.classes = u.decls.length ∧
          ∀ d ∈ u.decls, ∀ b, c.binaryName? d = some b → Numbered c b (u.bodyClassesIn d)) := by
  intro c
  obtain ⟨hsummary, -, hmodel⟩ := run_analyzed hids hok
  have hmodel := (hmodel hargs hbefore).trans (walkAll_unitStops hids _)
  obtain ⟨hstart, hcount⟩ := knows_declared setting u before
  have hfamilies := SourceUnit.nodup_families hids
  have hknows := (hstart.enterAll u.owned_bodyClasses hfamilies).perm u.decls_perm.symm
  rw [← hmodel] at hknows
  have hclasses : summary.classes = (u.decls.map c.binaryName?).dedup.length := by
    rw [hsummary]
    exact (List.length_map _).symm.trans hknows.length_declared
  have hnumbered : ∀ b, Numbered c b (u.bodyClasses.filter fun k => c.binaryName? k.owner = some b) := by
    intro b i k hk
    have hname := hstart.numbered u.owned_bodyClasses hfamilies (b := b) (i := i) (k := k)
    rw [← hmodel, hcount b, Nat.zero_add] at hname
    exact hname hk
  refine ⟨hknows.named, hclasses, hnumbered, fun hnames => ⟨?_, fun d hd b hb => ?_⟩⟩
  · rw [hclasses, hnames.dedup, List.length_map]
  · exact (hnumbered b).of_names hb hnames hd

/-! ## Classes and two candidates -/

/-- A class without members. -/
def emptyClass (id : NodeId) (name : String) : Decl :=
  { id, name, kind := .ordinary, modifiers := {}, typeParams := [], parent := none, interfaces := []
    constants := [], members := [], span := default }

/-- The expression `new Object() {}`. -/
def createsObject : Expr := ⟨30, .create none (simpleType 31 "Object") [] (some (emptyClass 32 ""))⟩

/-- A unit with a local class `B` and an anonymous one, after a lambda that is checked against two
candidates. -/
def declaresTwo : SourceUnit :=
  callsRun callsMake [⟨33, .decl (emptyClass 34 "B")⟩, ⟨35, .expr createsObject⟩]

/-- The classes after the lambda have the numbers one and two. -/
theorem declaresTwo_classes :
    (declaresTwo.nodes.map Node.id).Nodup ∧
      (∀ n ∈ declaresTwo.nodes, LambdaArgs (Free isDecl) n) ∧
      KnownFree isDecl declaresTwo [] ∧
      ∃ summary, (analyze twoSuppliers declaresTwo).1 = .ok summary ∧
        declaresTwo.decls.map (analyze twoSuppliers declaresTwo).2.catalog.binaryName?
          = [some "A", some "A$1B", some "A$2"] ∧
        summary.classes = declaresTwo.decls.length ∧
        ∀ d ∈ declaresTwo.decls, ∀ b,
          (analyze twoSuppliers declaresTwo).2.catalog.binaryName? d = some b →
          Numbered (analyze twoSuppliers declaresTwo).2.catalog b (declaresTwo.bodyClassesIn d) := by
  have hids : (declaresTwo.nodes.map Node.id).Nodup := by decide +kernel
  have hargs : ∀ n ∈ declaresTwo.nodes, LambdaArgs (Free isDecl) n := by decide +kernel
  have hknown := knownFree_nil isDecl declaresTwo
  have hnames : declaresTwo.decls.map (analyze twoSuppliers declaresTwo).2.catalog.binaryName?
      = [some "A", some "A$1B", some "A$2"] := by decide +kernel
  have hok : (analyze twoSuppliers declaresTwo).1.toOption.isSome = true := by decide +kernel
  refine ⟨hids, hargs, hknown, ?_⟩
  rcases hrun : (analyze twoSuppliers declaresTwo).1 with e | summary
  · rw [hrun] at hok
    cases hok
  · obtain ⟨-, -, -, hdistinct⟩ :=
      analyzed_classes twoSuppliers declaresTwo hids hargs [] hknown summary hrun
    refine ⟨summary, rfl, hnames, hdistinct ?_⟩
    show (declaresTwo.decls.map (analyze twoSuppliers declaresTwo).2.catalog.binaryName?).Nodup
    rw [hnames]
    decide

/-- A class in a lambda that is checked against two candidates is declared twice, and the name that it
had for the candidate that is given up stays: there is one class too many, and no class has the number
one. -/
theorem createsObject_classes :
    ((callsRun createsObject).nodes.map Node.id).Nodup ∧
      ∃ summary, (analyze twoSuppliers (callsRun createsObject)).1 = .ok summary ∧
        summary.classes = (callsRun createsObject).decls.length + 1 ∧
        (callsRun createsObject).decls.map
            (analyze twoSuppliers (callsRun createsObject)).2.catalog.binaryName?
          = [some "A", some "A$2"] := by
  have hids : ((callsRun createsObject).nodes.map Node.id).Nodup := by decide +kernel
  have hnames : (callsRun createsObject).decls.map
      (analyze twoSuppliers (callsRun createsObject)).2.catalog.binaryName?
        = [some "A", some "A$2"] := by decide +kernel
  have hclasses : (analyze twoSuppliers (callsRun createsObject)).1.toOption.map Summary.classes
      = some ((callsRun createsObject).decls.length + 1) := by decide +kernel
  refine ⟨hids, ?_⟩
  rcases hrun : (analyze twoSuppliers (callsRun createsObject)).1 with e | summary
  · rw [hrun] at hclasses
    cases hclasses
  · rw [hrun] at hclasses
    exact ⟨summary, rfl, Option.some.inj hclasses, hnames⟩

end JavaSema.Analysis
