import JavaSema.Analysis.Checker
import JavaSema.Proofs.Inference.Inverse

/-!
# Arrays of a type variable

A member that is declared as an array of a type variable is read with the type that the variable is
bound to and the dimensions of the array.  If the variable is bound to a wildcard, the dimensions go to
the wildcard, and reading takes its bound without them.

`withoutMember_readType_subst` gives the type that is read, and `arrays_read_iff` says where it has the
declared dimensions: after a substitution, in a field of a receiver and in the result of a call.  The
dimensions are added in 32 bits on both sides, so that nothing is said about whether the sum fits.
-/

namespace JavaSema

open JType

namespace JType

/-- Which member the types come from is not compared. -/
theorem same_congr {s s' t t' : JType} (hs : s.withoutMember = s'.withoutMember)
    (ht : t.withoutMember = t'.withoutMember) : s.same t = s'.same t' := by
  cases s
  cases s'
  cases t
  cases t'
  simp only [withoutMember, mk.injEq] at hs ht
  obtain ⟨rfl, rfl, rfl, rfl, rfl, rfl, rfl, rfl, rfl, -⟩ := hs
  obtain ⟨rfl, rfl, rfl, rfl, rfl, rfl, rfl, rfl, rfl, -⟩ := ht
  rfl

/-- A type is the same with dimensions added only if none are: fewer than 32 bits can count do not come
back to where they start. -/
theorem same_arrayOf32_iff {t : JType} {n : Nat} (ht : t.dims < UInt32.size) (hn : n < UInt32.size) :
    t.same (t.arrayOf32 n) = true ↔ n = 0 := by
  constructor
  · intro h
    have hdims : (t.dims == addDims t.dims n) = true := by
      cases t
      simp only [same, arrayOf32, Bool.and_eq_true] at h
      exact h.1.1.1.1.1.1.2
    simp only [beq_iff_eq, addDims, UInt32.size] at hdims ht hn
    omega
  · rintro rfl
    have hself : t.same (t.arrayOf32 0) = t.same t := by
      rw [arrayOf32_of_lt (by rwa [Nat.add_zero])]
      exact same_congr rfl rfl
    rw [hself, same_refl]

/-- A type variable of which no bound is an array is no array. -/
theorem dims_typeVar {v : String} {bounds : List JType} (h : ∀ b ∈ bounds, b.isArray = false) :
    (typeVar v bounds).dims = 0 := by
  cases bounds with
  | nil => rfl
  | cons b bs =>
    have hb := h b List.mem_cons_self
    show b.dims = 0
    simpa [isArray] using hb

theorem var_typeVar (v : String) (bounds : List JType) :
    (typeVar v bounds).var = some v ∧ (typeVar v bounds).wildcard = false := by
  cases bounds <;> exact ⟨rfl, rfl⟩

/-! ## What is read -/

/-- The type that is read where an array of so many dimensions of a variable is declared, and the
variable is bound to the type `w`: the dimensions are lost on a wildcard. -/
def readAs (w : JType) (n : Nat) : JType :=
  if w.wildcard then w.readType else w.readType.arrayOf32 n

variable {v : String} {bounds : List JType} {w : JType}

/-- The member declared as an array of a type variable. -/
theorem withoutMember_readType_subst (hbounds : ∀ b ∈ bounds, b.isArray = false) {σ : Bindings}
    (hw : σ.find? v = some w) (drop : Bool) (n : Nat) :
    (((typeVar v bounds).arrayOf32 n).subst σ drop).readType.withoutMember
      = (readAs w n).withoutMember := by
  obtain ⟨hvar, hwild⟩ := var_typeVar v bounds
  have hsum : addDims w.dims ((typeVar v bounds).arrayOf32 n).dims = addDims w.dims n := by
    simp [arrayOf32, addDims, dims_typeVar hbounds]
  rw [subst_of_var (t := (typeVar v bounds).arrayOf32 n) hvar hwild hw, hsum]
  cases hw : w.wildcard <;> simp [readType, readAs, hw, withoutMember, arrayOf32]

/-- What is read has the declared dimensions unless they are lost on a wildcard. -/
theorem same_arrayOf32_of_readAs {s : JType} {n : Nat} (hread : w.readType.dims < UInt32.size)
    (hn : n < UInt32.size) (h : s.withoutMember = (readAs w n).withoutMember) :
    (s == w.readType.arrayOf32 n) = true ↔ w.wildcard = false ∨ n = 0 := by
  show s.same _ = true ↔ _
  rw [same_congr h rfl, readAs]
  cases hwild : w.wildcard with
  | false => simpa using same_refl _
  | true => simpa using same_arrayOf32_iff hread hn

end JType

open Analysis in
/-- A member declared as a type variable with array dimensions is read as the type that the variable is
bound to with these dimensions, exactly if that type is no wildcard or there are no dimensions: after
each substitution, as a field of each receiver, and as the result of each call. -/
theorem arrays_read_iff (v : String) (bounds : List JType)
    (hbounds : ∀ b ∈ bounds, b.isArray = false) (n : Nat) (hn : n < UInt32.size) (w : JType)
    (hw : w.readType.dims < UInt32.size) :
    (∀ (σ : Bindings) (drop : Bool), σ.find? v = some w →
        (((((typeVar v bounds).arrayOf32 n).subst σ drop).readType == w.readType.arrayOf32 n) = true ↔
          w.wildcard = false ∨ n = 0)) ∧
      (∀ (env : ClassEnv) (receiver : JType) (name : String) (f : FieldCandidate),
        env.findField? receiver name = some f →
        ∃ i ∈ env.closure receiver, ∃ g, i.definition.field? name = some g ∧
          (g.type = (typeVar v bounds).arrayOf32 n → i.bindings.find? v = some w →
            ((fieldValue f == w.readType.arrayOf32 n) = true ↔ w.wildcard = false ∨ n = 0))) ∧
      ∀ a : Applicable, a.candidate.definition.returnType = (typeVar v bounds).arrayOf32 n →
        a.inference.bindings.find? v = some w →
        ((a.returnType == w.readType.arrayOf32 n) = true ↔ w.wildcard = false ∨ n = 0) := by
  refine ⟨fun σ drop hσ => ?_, fun env receiver name f hf => ?_, fun a hret hσ => ?_⟩
  · exact same_arrayOf32_of_readAs hw hn (withoutMember_readType_subst hbounds hσ drop n)
  · obtain ⟨i, hi, hfield⟩ := List.exists_of_findSome?_eq_some hf
    obtain ⟨g, hg, rfl⟩ := Option.map_eq_some_iff.mp hfield
    refine ⟨i, hi, g, hg, fun htype hσ => ?_⟩
    apply same_arrayOf32_of_readAs hw hn
    rw [← withoutMember_readType_subst hbounds hσ false n, ← htype]
    rfl
  · apply same_arrayOf32_of_readAs hw hn
    rw [← withoutMember_readType_subst hbounds hσ true n, ← hret]
    rfl

/-- A class with a field that is an array of its type variable. -/
def shelf : ClassDef :=
  { ClassDef.empty "Shelf" .interface with
    typeParams := [.of "T" []]
    fields := [{ name := "items", type := (typeVar "T" []).arrayOf 2, isStatic := false }] }

/-- From a class with one argument the walk over the supertypes reaches the class itself. -/
theorem closure_shelf (t : JType) :
    (ClassTable.toEnv ⟨[shelf]⟩).closure (.generic "Shelf" [t])
      = [Instantiation.of (.generic "Shelf" [t]) shelf] :=
  ClassEnv.closure_of_length_names rfl ⟨rfl, rfl, rfl, rfl, rfl⟩ rfl

/-- On a shelf of arrays of strings the field has three dimensions. -/
theorem shelves_read :
    (∀ b ∈ ([] : List JType), b.isArray = false) ∧
      2 < UInt32.size ∧ (string.arrayOf 1).readType.dims < UInt32.size ∧
      ∃ f, (ClassTable.toEnv ⟨[shelf]⟩).findField? (.generic "Shelf" [string.arrayOf 1]) "items"
        = some f ∧ (Analysis.fieldValue f == string.arrayOf 3) = true := by
  have hbounds : ∀ b ∈ ([] : List JType), b.isArray = false := by simp
  have htwo : 2 < UInt32.size := by decide
  have hdims : (string.arrayOf 1).readType.dims < UInt32.size := by decide
  obtain ⟨f, hf⟩ : ∃ f, (ClassTable.toEnv ⟨[shelf]⟩).findField?
      (.generic "Shelf" [string.arrayOf 1]) "items" = some f := by
    rw [ClassEnv.findField?, closure_shelf]
    exact ⟨_, rfl⟩
  obtain ⟨i, hi, g, hg, hread⟩ :=
    (arrays_read_iff "T" [] hbounds 2 htwo (string.arrayOf 1) hdims).2.1 _ _ _ f hf
  rw [closure_shelf, List.mem_singleton] at hi
  subst hi
  obtain rfl := Option.some.inj hg
  have hsum : (string.arrayOf 1).arrayOf32 2 = string.arrayOf 3 := arrayOf32_of_lt (by decide)
  refine ⟨hbounds, htwo, hdims, f, hf, ?_⟩
  rw [← hsum]
  exact (hread rfl rfl).mpr (.inl rfl)

/-- Read from a shelf of which only a bound of the items is known, the field has no dimensions. -/
theorem shelves_lose_dimensions :
    ((((typeVar "T" []).arrayOf 2).subst [("T", wildUpper string)] false).readType
        == (wildUpper string).readType.arrayOf 2) = false ∧
      ((ClassTable.toEnv ⟨[shelf]⟩).findField? (.generic "Shelf" [wildUpper string]) "items").any
        (fun f => Analysis.fieldValue f == string) = true := by
  decide +kernel

end JavaSema
