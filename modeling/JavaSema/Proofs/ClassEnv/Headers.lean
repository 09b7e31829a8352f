import JavaSema.Proofs.Catalog.Remembered

/-!
# Headers

What a type name denotes depends on the headers of classes: their names, their supertypes and the
names of their member classes.  Fields, methods and constructors do not matter.

There are two groups.

* `ClassEnv.headers` is an environment without such members.
* The walk over supertypes, and all that is built on it to find a class by its name, is the same there.
-/

namespace JavaSema

/-- The class without fields, constructors and methods. -/
def ClassDef.header (d : ClassDef) : ClassDef :=
  { d with fields := [], constructors := [], methods := [] }

/-- The instantiation of the header. -/
def Instantiation.header (i : Instantiation) : Instantiation :=
  { i with definition := i.definition.header }

namespace ClassEnv

/-- The environment with the headers of its classes. -/
def headers (env : ClassEnv) : ClassEnv :=
  { env with
    load := fun name => (env.load name).map ClassDef.header
    mem_names := by
      intro name d h
      cases hload : env.load name with
      | error e =>
        rw [hload] at h
        cases h
      | ok c => exact env.mem_names hload }

theorem find?_headers (env : ClassEnv) (name : String) :
    env.headers.find? name = (env.find? name).map ClassDef.header := by
  show ((env.load name).map ClassDef.header).toOption = (env.load name).toOption.map ClassDef.header
  cases env.load name with
  | error e => rfl
  | ok d => rfl

/-! ## Supertypes -/

theorem settle_headers (env : ClassEnv) (seen : List String) (queue : List JType) :
    env.headers.settle seen queue
      = (env.settle seen queue).map fun found => (found.1, found.2.1.header, found.2.2) := by
  fun_induction settle env seen queue with
  | case1 => rw [settle]; rfl
  | case2 t rest hvar ih => rw [settle, if_pos hvar, ih]
  | case3 t rest hvar hseen ih => rw [settle, if_neg hvar, if_pos hseen, ih]
  | case4 t rest hvar hseen hfind ih =>
    rw [settle, if_neg hvar, if_neg hseen, find?_headers, hfind]
    exact ih
  | case5 t rest hvar hseen d hfind =>
    rw [settle, if_neg hvar, if_neg hseen, find?_headers, hfind]
    rfl

theorem closureFrom_headers (env : ClassEnv) (budget : Nat) (seen : List String)
    (queue : List JType) :
    env.headers.closureFrom budget seen queue
      = (env.closureFrom budget seen queue).map Instantiation.header := by
  induction budget generalizing seen queue with
  | zero => rfl
  | succ budget ih =>
    rw [closureFrom, closureFrom, settle_headers]
    cases env.settle seen queue with
    | none => rfl
    | some found =>
      obtain ⟨t, d, rest⟩ := found
      exact congrArg _ (ih _ _)

theorem findMemberClass?_headers (env : ClassEnv) (owner simple : String) :
    env.headers.findMemberClass? owner simple = env.findMemberClass? owner simple := by
  rw [findMemberClass?, closure, closureFrom_headers, List.findSome?_map]
  rfl

/-! ## Names -/

theorem loadSplit_headers (env : ClassEnv) (segments : List String) (split : Nat) :
    env.headers.loadSplit segments split = env.loadSplit segments split := by
  induction split with
  | zero => rfl
  | succ split ih =>
    have hload : ∀ name, env.headers.load name = (env.load name).map ClassDef.header := fun _ => rfl
    rw [loadSplit, loadSplit, hload]
    rcases env.load (binaryOfSplit segments (split + 1)) with e | d
    · cases e with
      | notFound | incompatible => exact ih
      | malformed => rfl
    · rfl

theorem loadCanonical_headers (env : ClassEnv) (dotted : String) :
    env.headers.loadCanonical dotted = env.loadCanonical dotted :=
  loadSplit_headers env _ _

end ClassEnv

namespace Catalog

variable (c : Catalog) (env : ClassEnv)

theorem memberClass?_headers (owner simple : String) :
    c.memberClass? env.headers owner simple = c.memberClass? env owner simple := by
  simp only [memberClass?, ClassEnv.findMemberClass?_headers]
  rfl

theorem memberPath?_headers (owner : String) (path : List String) :
    c.memberPath? env.headers owner path = c.memberPath? env owner path := by
  induction path generalizing owner with
  | nil => rfl
  | cons s rest ih =>
    rw [memberPath?, memberPath?, memberClass?_headers]
    congr 1
    funext member
    exact ih member

theorem meaningOnDemand_headers (simple : String) (paths : List QualifiedName) :
    c.meaningOnDemand env.headers simple paths = c.meaningOnDemand env simple paths := by
  induction paths with
  | nil => rfl
  | cons path rest ih =>
    simp only [meaningOnDemand, ClassEnv.loadCanonical_headers, memberClass?_headers, ih]
    rfl

theorem meaning_headers (simple : String) :
    c.meaning env.headers simple = c.meaning env simple := by
  simp only [meaning, meaningOnDemand_headers]
  rfl

/-- What is remembered is right for the classes if it is right for their headers. -/
theorem faithful_headers_iff : c.Faithful env.headers ↔ c.Faithful env := by
  constructor
  · intro h
    refine ⟨h.listings, ?_, ?_⟩
    · intro dotted owner hlookup
      rw [← ClassEnv.loadCanonical_headers]
      exact h.owners dotted owner hlookup
    · intro simple answer hlookup
      rw [← meaning_headers]
      exact h.answers simple answer hlookup
  · intro h
    refine ⟨h.listings, ?_, ?_⟩
    · intro dotted owner hlookup
      rw [ClassEnv.loadCanonical_headers]
      exact h.owners dotted owner hlookup
    · intro simple answer hlookup
      rw [meaning_headers]
      exact h.answers simple answer hlookup

end Catalog

end JavaSema
