import JavaSema.Analysis.State
import JavaSema.Proofs.ClassEnv.Headers
import JavaSema.Proofs.Text
import Mathlib.Data.List.Nodup
import Mathlib.Data.List.Perm.Basic

/-!
# The classes of a unit in front of others

An environment in which the classes of a unit stand in front of others does not show the order in which
they were declared.

There are two groups.

* Tables of classes.  Those that hold the same classes under the same names are permutations of each
  other.
* `overlay`.  Giving a class its members changes no header.
-/

namespace JavaSema

/-! ## Tables -/

namespace ClassTable

variable {T T' : ClassTable}

theorem find?_put (d : ClassDef) (classes : List ClassDef) (name : String) :
    (put d classes).find? (fun c => c.name == name)
      = if d.name = name then some d else classes.find? fun c => c.name == name := by
  induction classes with
  | nil =>
    by_cases hname : d.name = name
    · simp [put, hname]
    · simp [put, hname]
  | cons c cs ih =>
    rw [put]
    by_cases hc : c.name = d.name
    · by_cases hname : d.name = name
      · simp [hc, hname]
      · simp [hc, hname]
    · by_cases hname : d.name = name
      · subst hname
        simp [hc, ih]
      · simp only [hc, beq_iff_eq, if_false, List.find?_cons, ih, hname]

theorem get?_insert (T : ClassTable) (d : ClassDef) (name : String) :
    (T.insert d).get? name = if d.name = name then some d else T.get? name :=
  find?_put d T.classes name

/-- No two classes of the table have the same name. -/
def Distinct (T : ClassTable) : Prop := (T.classes.map ClassDef.name).Nodup

/-- A class takes the place of the one that has its name. -/
theorem names_put_of_mem {d : ClassDef} {classes : List ClassDef}
    (h : d.name ∈ classes.map ClassDef.name) :
    (put d classes).map ClassDef.name = classes.map ClassDef.name := by
  induction classes with
  | nil => cases h
  | cons c cs ih =>
    rw [put]
    split
    · rename_i hc
      rw [List.map_cons, List.map_cons, beq_iff_eq.mp hc]
    · rename_i hc
      have hne : d.name ≠ c.name := fun heq => hc (beq_iff_eq.mpr heq.symm)
      rw [List.map_cons, List.map_cons, ih ((List.mem_cons.mp h).resolve_left hne)]

theorem names_put_of_not_mem {d : ClassDef} {classes : List ClassDef}
    (h : d.name ∉ classes.map ClassDef.name) :
    (put d classes).map ClassDef.name = classes.map ClassDef.name ++ [d.name] := by
  induction classes with
  | nil => rfl
  | cons c cs ih =>
    rw [List.map_cons, List.mem_cons, not_or] at h
    rw [put, if_neg (fun hc => h.1 (beq_iff_eq.mp hc).symm), List.map_cons, ih h.2]
    rfl

theorem Distinct.insert (h : T.Distinct) (d : ClassDef) : (T.insert d).Distinct := by
  show ((put d T.classes).map ClassDef.name).Nodup
  by_cases hd : d.name ∈ T.classes.map ClassDef.name
  · rw [names_put_of_mem hd]
    exact h
  · rw [names_put_of_not_mem hd]
    refine List.nodup_append.mpr ⟨h, List.nodup_singleton _, ?_⟩
    intro a ha b hb hab
    rw [List.mem_singleton.mp hb] at hab
    exact hd (hab ▸ ha)

theorem Distinct.mem_iff (h : T.Distinct) {d : ClassDef} :
    d ∈ T.classes ↔ T.get? d.name = some d := by
  constructor
  · intro hd
    cases hget : T.get? d.name with
    | none =>
      have hnone := List.find?_eq_none.mp hget d hd
      simp at hnone
    | some c =>
      have hc := mem_classes_of_get? hget
      exact congrArg some (List.inj_on_of_nodup_map h hc hd (name_of_get? hget))
  · exact mem_classes_of_get?

/-- Tables with the same classes under the same names differ in the order only. -/
theorem perm_of_get? (h : T.Distinct) (h' : T'.Distinct) (hget : ∀ name, T.get? name = T'.get? name) :
    T.classes.Perm T'.classes := by
  refine (List.perm_ext_iff_of_nodup (List.Nodup.of_map _ h) (List.Nodup.of_map _ h')).mpr ?_
  intro d
  rw [h.mem_iff, h'.mem_iff, hget]

/-- The name of a class without the package, if the class is in it. -/
def nameIn? (package name : String) : Option String :=
  match Text.splitLast? '.' name with
  | some (pkg, simple) => if pkg == package then some simple else none
  | none => if package.isEmpty then some name else none

theorem packageClasses_eq (T : ClassTable) (package : String) :
    T.packageClasses package
      = Text.sortTexts ((T.classes.map ClassDef.name).filterMap (nameIn? package)) := by
  rw [List.filterMap_map]
  rfl

theorem packageClasses_perm (h : T.classes.Perm T'.classes) (package : String) :
    T.packageClasses package = T'.packageClasses package :=
  Text.sortTexts_perm (h.filterMap _)

end ClassTable

/-! ## Environments -/

/-- Environments that answer all questions alike are the same. -/
theorem ClassEnv.ext {env env' : ClassEnv} (hload : ∀ name, env.load name = env'.load name)
    (hhas : ∀ name, env.hasClass name = env'.hasClass name)
    (hclasses : ∀ package, env.packageClasses package = env'.packageClasses package)
    (hpackage : ∀ package, env.hasPackage package = env'.hasPackage package)
    (hnames : env.names = env'.names) : env = env' := by
  obtain ⟨load, hasClass, packageClasses, hasPackage, names, _⟩ := env
  obtain ⟨load', hasClass', packageClasses', hasPackage', names', _⟩ := env'
  obtain rfl : load = load' := funext hload
  obtain rfl : hasClass = hasClass' := funext hhas
  obtain rfl : packageClasses = packageClasses' := funext hclasses
  obtain rfl : hasPackage = hasPackage' := funext hpackage
  obtain rfl : names = names' := hnames
  rfl

namespace Analysis

variable {T T' : ClassTable}

/-- The order in which classes were declared is not seen. -/
theorem overlay_congr (h : T.Distinct) (h' : T'.Distinct) (hget : ∀ name, T.get? name = T'.get? name)
    (outside : ClassEnv) : overlay T outside = overlay T' outside := by
  have hperm := ClassTable.perm_of_get? h h' hget
  apply ClassEnv.ext
  · intro name
    simp only [overlay, hget]
  · intro name
    simp only [overlay, ClassTable.contains, hget]
  · intro package
    simp only [overlay, ClassTable.packageClasses_perm hperm]
  · intro package
    simp only [overlay, ClassTable.packageClasses_perm hperm]
  · simp only [overlay, Text.arrange_perm (hperm.map ClassDef.name)]

/-- Giving a class its members changes no header. -/
theorem headers_overlay_insert {c d : ClassDef} (hd : T.get? c.name = some d)
    (hheader : c.header = d.header) (outside : ClassEnv) :
    (overlay (T.insert c) outside).headers = (overlay T outside).headers := by
  have hnames : (T.insert c).classes.map ClassDef.name = T.classes.map ClassDef.name :=
    ClassTable.names_put_of_mem (List.mem_map.mpr
      ⟨d, ClassTable.mem_classes_of_get? hd, ClassTable.name_of_get? hd⟩)
  have hpackage : (T.insert c).packageClasses = T.packageClasses := by
    funext package
    rw [ClassTable.packageClasses_eq, ClassTable.packageClasses_eq, hnames]
  apply ClassEnv.ext
  · intro name
    simp only [ClassEnv.headers, overlay, ClassTable.get?_insert]
    by_cases hname : c.name = name
    · subst hname
      rw [if_pos rfl, hd]
      exact congrArg Except.ok hheader
    · rw [if_neg hname]
  · intro name
    simp only [ClassEnv.headers, overlay, ClassTable.contains, ClassTable.get?_insert]
    by_cases hname : c.name = name
    · subst hname
      rw [if_pos rfl, hd]
      rfl
    · rw [if_neg hname]
  · intro package
    simp only [ClassEnv.headers, overlay, hpackage]
  · intro package
    simp only [ClassEnv.headers, overlay, hpackage]
  · simp only [ClassEnv.headers, overlay, hnames]

end Analysis

end JavaSema
