import JavaSema.Analysis.Basic
import JavaSema.Proofs.Source.Below
import Mathlib.Data.List.Sort

/-!
# The order of the classes of a unit

Headers are declared one class after the other.  A superclass that is given by its qualified name is
looked for among the classes that are declared so far, and so it has to stand before its subclass.
-/

namespace JavaSema

/-! ## Sorted names -/

/-- An entry that belongs behind the first entries and in front of the others is inserted there. -/
theorem NameMap.orderedInsert_append {α : Type} {x : String × α} {front back : NameMap α}
    (hfront : ∀ y ∈ front, ¬ x.1 ≤ y.1) (hback : ∀ y ∈ back, x.1 ≤ y.1) :
    (front ++ back).orderedInsert (fun x y => x.1 ≤ y.1) x = front ++ x :: back := by
  induction front with
  | nil =>
    cases back with
    | nil => rfl
    | cons y back => simp [hback y List.mem_cons_self]
  | cons y front ih =>
    have hy : ¬ x.1 ≤ y.1 := hfront y List.mem_cons_self
    simp [hy, ih fun z hz => hfront z (List.mem_cons_of_mem _ hz)]

/-- Sorting inserts one entry after the other. -/
theorem NameMap.sorted_eq_insertionSort {α : Type} (m : NameMap α) :
    m.sorted = m.insertionSort (fun x y => x.1 ≤ y.1) := by
  have htrans : ∀ a b c : String × α, decide (a.1 ≤ b.1) = true → decide (b.1 ≤ c.1) = true →
      decide (a.1 ≤ c.1) = true := by
    intro a b c hab hbc
    simp only [decide_eq_true_eq] at hab hbc ⊢
    exact String.le_trans hab hbc
  have htotal : ∀ a b : String × α, (decide (a.1 ≤ b.1) || decide (b.1 ≤ a.1)) = true := by
    intro a b
    simpa using String.le_total a.1 b.1
  induction m with
  | nil => simp [NameMap.sorted]
  | cons x m ih =>
    obtain ⟨front, back, hcons, hm, hfront⟩ := List.mergeSort_cons htrans htotal x m
    have hsorted := List.pairwise_mergeSort htrans htotal (x :: m)
    rw [hcons, List.pairwise_append, List.pairwise_cons] at hsorted
    have hback : ∀ y ∈ back, x.1 ≤ y.1 := fun y hy => by simpa using hsorted.2.1.1 y hy
    rw [List.insertionSort_cons, ← ih, NameMap.sorted, NameMap.sorted, hm, hcons]
    exact (NameMap.orderedInsert_append (fun y hy => by simpa using hfront y hy) hback).symm

namespace Analysis

open Source

/-! ## Permuted classes -/

/-- The two analyses both fail, or both succeed and give every node the same type. -/
def SameOutcome (setting : Setting) (u u' : SourceUnit) : Prop :=
  ((analyze setting u).1.toOption.isSome = (analyze setting u').1.toOption.isSome) ∧
    ((analyze setting u).1.toOption.isSome = true →
      ∀ id, (analyze setting u).2.typings.lookup id = (analyze setting u').2.typings.lookup id)

/-- A class without members. -/
def plainClass (id : NodeId) (name : String) (parent : Option TypeRef) : Decl :=
  { id, name, kind := .ordinary, modifiers := {}, typeParams := [], parent, interfaces := []
    constants := [], members := [], span := default }

/-- The class `A extends p.B`. -/
def extendsQualified : Decl := plainClass 0 "A" (some ⟨1, .named ⟨["p", "B"]⟩ none⟩)

/-- A unit of the package `p` with the given classes. -/
def unitOfP (types : List Decl) : SourceUnit := { package := some ⟨⟨["p"]⟩⟩, types }

/-- The class `A extends p.B` can be analyzed after `B` and not before it. -/
theorem extendsQualified_order :
    ¬ ∀ (setting : Setting) (u : SourceUnit) (types : List Decl), types.Perm u.types →
      (u.nodes.map Node.id).Nodup → ((u.types.flatMap Decl.family).map Decl.name).Nodup →
        SameOutcome setting u { u with types } := by
  intro hsame
  have hperm : [extendsQualified, plainClass 2 "B" none].Perm [plainClass 2 "B" none, extendsQualified] :=
    List.Perm.swap _ _ _
  have hids : ((unitOfP [plainClass 2 "B" none, extendsQualified]).nodes.map Node.id).Nodup := by
    decide +kernel
  have hnames : (((unitOfP [plainClass 2 "B" none, extendsQualified]).types.flatMap
      Decl.family).map Decl.name).Nodup := by decide +kernel
  have hafter : (analyze { classes := ClassTable.toEnv {} }
      (unitOfP [plainClass 2 "B" none, extendsQualified])).1.toOption.isSome = true := by
    simp only [analyze, analyzeFrom, declareUnit, checkUnit, Catalog.populate,
      NameMap.sorted_eq_insertionSort]
    decide +kernel
  have hbefore : (analyze { classes := ClassTable.toEnv {} }
      (unitOfP [extendsQualified, plainClass 2 "B" none])).1.toOption.isSome = false := by
    simp only [analyze, analyzeFrom, declareUnit, checkUnit, Catalog.populate,
      NameMap.sorted_eq_insertionSort]
    decide +kernel
  have heq := (hsame { classes := ClassTable.toEnv {} } _ _ hperm hids hnames).1
  rw [hafter] at heq
  exact absurd (heq.trans hbefore) (by simp)

end Analysis

end JavaSema
