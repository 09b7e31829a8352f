import JavaSema.ClassFile.Signature
import Mathlib.Data.List.Chain

/-!
# Well-formed signatures

Which trees of generic signatures are well-formed, and what their printed forms look like.

There are three groups.

* Identifiers, packages and the well-formed trees, one rule for each form of the grammar.
* Printed forms: lists of classes and arguments are printed one after the other, and the first
  character tells what follows.
* `Sound` and `Complete` say the two halves of "reads exactly the printed forms" for one reader.
-/

namespace JavaSema.ClassFile

/-! ### Well-formed trees -/

/-- A name that is not empty and holds no character that ends one. -/
structure IsIdentifier (name : String) : Prop where
  ne_empty : name ≠ ""
  not_ends : ∀ c ∈ name.toList, endsIdentifier c = false

theorem isIdentifier_iff {name : String} :
    IsIdentifier name ↔ name ≠ "" ∧ name.toList.all (fun c => !endsIdentifier c) = true := by
  simp only [List.all_eq_true, Bool.not_eq_true']
  exact ⟨fun h => ⟨h.ne_empty, h.not_ends⟩, fun h => ⟨h.1, h.2⟩⟩

instance (name : String) : Decidable (IsIdentifier name) :=
  decidable_of_iff _ isIdentifier_iff.symm

/-- The package with one more part. -/
def packageInside (package name : String) : String :=
  if package.isEmpty then name else package ++ "/" ++ name

/-- A package with slashes: the unnamed one, or identifiers with slashes between. -/
inductive IsPackage : String → Prop where
  | unnamed : IsPackage ""
  | inside {package name : String} : IsPackage package → IsIdentifier name →
      IsPackage (packageInside package name)

/-- A type that is not primitive. -/
def TypeSig.IsReference : TypeSig → Prop
  | .base _ => False
  | _ => True

mutual

/-- The names of the type are names, and type arguments are not primitive. -/
inductive TypeSig.WellFormed : TypeSig → Prop where
  | base (p : Primitive) : TypeSig.WellFormed (.base p)
  | ofClass {c : ClassTypeSig} : c.WellFormed → TypeSig.WellFormed (.ofClass c)
  | var {name : String} : IsIdentifier name → TypeSig.WellFormed (.var name)
  | array {t : TypeSig} : t.WellFormed → TypeSig.WellFormed (.array t)

/-- A class type names at least one class. -/
inductive ClassTypeSig.WellFormed : ClassTypeSig → Prop where
  | mk {package : String} {segments : List SegmentSig} : IsPackage package → segments ≠ [] →
      (∀ s ∈ segments, s.WellFormed) → ClassTypeSig.WellFormed (.mk package segments)

/-- One class of a class type. -/
inductive SegmentSig.WellFormed : SegmentSig → Prop where
  | mk {name : String} {args : List ArgSig} : IsIdentifier name → (∀ a ∈ args, a.WellFormed) →
      SegmentSig.WellFormed (.mk name args)

/-- An argument or its bound is not primitive. -/
inductive ArgSig.WellFormed : ArgSig → Prop where
  | any : ArgSig.WellFormed .any
  | exact {t : TypeSig} : t.WellFormed → t.IsReference → ArgSig.WellFormed (.exact t)
  | upper {t : TypeSig} : t.WellFormed → t.IsReference → ArgSig.WellFormed (.upper t)
  | lower {t : TypeSig} : t.WellFormed → t.IsReference → ArgSig.WellFormed (.lower t)

end

/-- A well-formed type that is not primitive. -/
def TypeSig.WellFormedReference (t : TypeSig) : Prop := t.WellFormed ∧ t.IsReference

/-- The name is one, and the bounds are well-formed and not primitive. -/
structure TypeParamSig.WellFormed (p : TypeParamSig) : Prop where
  name : IsIdentifier p.name
  bounds : ∀ t ∈ p.bounds, t.WellFormedReference

theorem TypeParamSig.mem_bounds (p : TypeParamSig) {t : TypeSig} :
    t ∈ p.bounds ↔ t ∈ p.classBound ∨ t ∈ p.interfaceBounds := by
  rw [bounds, List.mem_append, Option.mem_toList, Option.mem_def]

/-- The second parameter may follow the first one.  After a parameter without bounds a name that starts
with `L` or `T` would be read as its bound. -/
def TypeParamSig.CanPrecede (p q : TypeParamSig) : Prop :=
  p.bounds = [] → ∀ c ∈ q.name.toList.head?, c ≠ 'L' ∧ c ≠ 'T'

/-- Each type parameter is well-formed and may stand before the next one. -/
structure TypeParamsWellFormed (ps : List TypeParamSig) : Prop where
  each : ∀ p ∈ ps, p.WellFormed
  chain : ps.IsChain TypeParamSig.CanPrecede

/-- All parts of the class signature are well-formed. -/
structure ClassSig.WellFormed (s : ClassSig) : Prop where
  typeParams : TypeParamsWellFormed s.typeParams
  superclass : s.superclass.WellFormed
  interfaces : ∀ t ∈ s.interfaces, t.WellFormed

/-- All parts of the method signature are well-formed, and what is thrown is not primitive. -/
structure MethodSig.WellFormed (s : MethodSig) : Prop where
  typeParams : TypeParamsWellFormed s.typeParams
  params : ∀ t ∈ s.params, t.WellFormed
  returnType : ∀ t ∈ s.returnType, t.WellFormed
  throws : ∀ t ∈ s.throws, t.WellFormedReference

/-! ### Printed forms -/

/-- Type arguments in angle brackets; nothing if there is none. -/
def printArgsOpt : List ArgSig → List Char
  | [] => []
  | a :: as => '<' :: (a :: as).flatMap ArgSig.print ++ ['>']

/-- The package and the slash after it; nothing for the unnamed one. -/
def printPackage (package : String) : List Char :=
  if package.isEmpty then [] else package.toList ++ ['/']

theorem printPackage_inside {package name : String} (h : IsIdentifier name) :
    printPackage (packageInside package name) = printPackage package ++ name.toList ++ ['/'] := by
  have hname : name.isEmpty = false := by simpa using h.ne_empty
  rcases hpackage : package.isEmpty with _ | _
  · have hinside : (package ++ "/" ++ name).isEmpty = false := by simp
    simp [printPackage, packageInside, hpackage, hinside]
  · obtain rfl : package = "" := by simpa using hpackage
    simp [printPackage, packageInside, hname]

theorem printArgs_eq_flatMap (as : List ArgSig) : printArgs as = as.flatMap ArgSig.print := by
  induction as with
  | nil => rfl
  | cons a as ih => rw [printArgs, ih, List.flatMap_cons]

@[simp]
theorem SegmentSig.print_mk (name : String) (args : List ArgSig) :
    (SegmentSig.mk name args).print = name.toList ++ printArgsOpt args := by
  cases args with
  | nil => rfl
  | cons a as => rw [SegmentSig.print, printArgs_eq_flatMap, printArgsOpt]

theorem printSegments_cons (s : SegmentSig) (rest : List SegmentSig) :
    printSegments (s :: rest) = s.print ++ rest.flatMap fun t => '.' :: t.print := by
  induction rest generalizing s with
  | nil => simp [printSegments]
  | cons t rest ih => rw [printSegments, ih, List.flatMap_cons, List.cons_append]

theorem ClassTypeSig.print_mk (package : String) (s : SegmentSig) (rest : List SegmentSig) :
    (ClassTypeSig.mk package (s :: rest)).print
      = 'L' :: printPackage package ++ s.print ++ (rest.flatMap fun t => '.' :: t.print) ++ [';'] := by
  rw [ClassTypeSig.print, printSegments_cons, printPackage, ← List.append_assoc]

theorem TypeSig.eq_base_or_isReference (t : TypeSig) : (∃ p, t = .base p) ∨ t.IsReference := by
  cases t with
  | base p => exact .inl ⟨p, rfl⟩
  | ofClass | var | array => exact .inr trivial

theorem TypeSig.IsReference.print_eq_cons {t : TypeSig} (h : t.IsReference) :
    ∃ c cs, t.print = c :: cs ∧ (c = 'L' ∨ c = 'T' ∨ c = '[') := by
  cases t with
  | base p => exact h.elim
  | ofClass c =>
    obtain ⟨package, segments⟩ := c
    exact ⟨'L', _, by rw [TypeSig.print, ClassTypeSig.print]; rfl, .inl rfl⟩
  | var name => exact ⟨'T', _, by rw [TypeSig.print]; rfl, .inr (.inl rfl)⟩
  | array t => exact ⟨'[', _, by rw [TypeSig.print], .inr (.inr rfl)⟩

theorem ClassTypeSig.print_eq_cons (c : ClassTypeSig) : ∃ cs, c.print = 'L' :: cs := by
  obtain ⟨package, segments⟩ := c
  exact ⟨_, by rw [ClassTypeSig.print]; rfl⟩

theorem TypeSig.print_eq_cons (t : TypeSig) : ∃ c cs, t.print = c :: cs ∧ c ≠ ')' ∧ c ≠ 'V' := by
  rcases t.eq_base_or_isReference with ⟨p, rfl⟩ | href
  · exact ⟨p.letter, [], by rw [TypeSig.print], by cases p <;> decide⟩
  · obtain ⟨c, cs, hprint, rfl | rfl | rfl⟩ := href.print_eq_cons <;>
      exact ⟨_, cs, hprint, by decide⟩

theorem ClassTypeSig.print_ne_nil (c : ClassTypeSig) : c.print ≠ [] := by
  obtain ⟨cs, hprint⟩ := c.print_eq_cons
  rw [hprint]
  exact List.cons_ne_nil _ _

theorem TypeSig.print_ne_nil (t : TypeSig) : t.print ≠ [] := by
  obtain ⟨c, cs, hprint, -⟩ := t.print_eq_cons
  rw [hprint]
  exact List.cons_ne_nil _ _

theorem TypeParamSig.print_append (p : TypeParamSig) (tail : List Char) :
    p.print ++ tail = p.name.toList ++ ':' :: ((p.classBound.map TypeSig.print).getD []
      ++ ((p.interfaceBounds.flatMap fun t => ':' :: t.print) ++ tail)) := by
  simp only [TypeParamSig.print, List.append_assoc, List.cons_append]

theorem TypeParamSig.print_ne_nil (p : TypeParamSig) : p.print ≠ [] := by
  simp [TypeParamSig.print]

/-! ### Steps of the readers -/

/-- Reads the class bound of a type parameter, which may be missing. -/
def parseClassBound (s : List Char) : Option (Option TypeSig × List Char) :=
  match s with
  | 'L' :: _ | 'T' :: _ | '[' :: _ => do
    let (t, rest) ← parseReference (budget s) s
    pure (some t, rest)
  | _ => pure (none, s)

/-- Reads the type of the result of a method. -/
def parseReturnType (s : List Char) : Option (Option TypeSig × List Char) :=
  match s with
  | 'V' :: after => pure (none, after)
  | _ => do
    let (t, after) ← parseType (budget s) s
    pure (some t, after)

theorem parseTypeParamList_step {fuel : Nat} {s : List Char} (h : s.head? ≠ some '>') :
    parseTypeParamList (fuel + 1) s = do
      let (name, rest) ← parseIdentifier s
      let rest ← expectChar ':' rest
      let (classBound, rest) ← parseClassBound rest
      let (interfaceBounds, rest) ← parseInterfaceBounds (rest.length + 1) rest
      let (ps, rest) ← parseTypeParamList fuel rest
      return ({ name, classBound, interfaceBounds } :: ps, rest) := by
  rw [parseTypeParamList.eq_def]
  dsimp only
  split
  · exact absurd rfl h
  · refine bind_congr fun _ => bind_congr fun rest => ?_
    rw [parseClassBound.eq_def]
    split <;> simp only [bind_assoc, pure_bind]

theorem MethodSig.parseChars?_eq (s : List Char) :
    MethodSig.parseChars? s = do
      let (typeParams, rest) ← parseTypeParams s
      let rest ← expectChar '(' rest
      let (params, rest) ← parseParamTypes (rest.length + 1) rest
      let (returnType, rest) ← parseReturnType rest
      let throws ← parseThrows rest.length rest
      return { typeParams, params, returnType, throws } := by
  refine bind_congr fun _ => bind_congr fun _ => bind_congr fun (_, rest) => ?_
  dsimp only
  rw [parseReturnType.eq_def]
  split <;> simp only [bind_assoc, pure_bind]

theorem parseParamTypes_step {fuel : Nat} {s : List Char} (h : s.head? ≠ some ')') :
    parseParamTypes (fuel + 1) s = do
      let (t, rest) ← parseType (budget s) s
      let (ts, rest) ← parseParamTypes fuel rest
      return (t :: ts, rest) := by
  rw [parseParamTypes.eq_def]
  dsimp only
  split
  · exact absurd rfl h
  · rfl

theorem parseArgList_step {b : Nat} {s : List Char} (h : s.head? ≠ some '>') :
    parseArgList (b + 1) s = do
      let (arg, rest) ← parseArg b s
      let (args, rest) ← parseArgList b rest
      return (arg :: args, rest) := by
  rw [parseArgList.eq_def]
  dsimp only
  split
  · exact absurd rfl h
  · rfl

end JavaSema.ClassFile
