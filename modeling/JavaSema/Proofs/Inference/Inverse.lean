import JavaSema.Proofs.Hierarchy.Supertype
import JavaSema.Analysis.Inference

/-!
# Inference inverts substitution

A declared type is taken apart together with the type that comes out when its variables are replaced.
The variables are then bound to what they were replaced by.

There are four groups.

* Equality of types is reflexive and does not look at where a type was found.
* Declared types: which variables occur, how deep arguments and arrays are nested, and `IsFormal`.
* One variable.  Its dimensions are stripped again, and a second binding to the same type changes
  nothing.
* The walk over a declared type.  `Binds` says which variables are bound after some of it, and the
  step from one argument to the next carries it through the whole type.
-/

namespace JavaSema

namespace JType

/-! ### Equality -/

mutual

theorem same_refl : ∀ t : JType, t.same t = true
  | { args, upper, lower, .. } => by
    simp [same, sameOpt_refl args, sameList_refl upper, sameList_refl lower]

theorem sameList_refl : ∀ ts : List JType, sameList ts ts = true
  | [] => rfl
  | t :: ts => by rw [sameList, same_refl t, sameList_refl ts, Bool.and_self]

theorem sameOpt_refl : ∀ args : Option (List JType), sameOpt args args = true
  | none => rfl
  | some ts => sameList_refl ts

end

/-- The type as it is bound to a variable by inference. -/
def asInferred (t : JType) : JType := t.withoutMember.withBinding .inferred

/-- How a type came to be bound and which member it comes from is not part of it. -/
theorem same_asInferred (t : JType) (member : Option MemberRef) :
    t.asInferred.same { t with member } = true := by
  have h := same_refl t
  cases t
  exact h

mutual

/-- The type variables that occur in the type or in its arguments, each with its array dimensions. -/
def occurrences : JType → List (String × Nat)
  | { args, dims, var, wildcard, .. } =>
    match var, wildcard with
    | some v, false => [(v, dims)]
    | _, _ => occurrencesOpt args

/-- The type variables that occur in one of the types. -/
def occurrencesList : List JType → List (String × Nat)
  | [] => []
  | t :: ts => t.occurrences ++ occurrencesList ts

/-- The type variables that occur in one of the type arguments. -/
def occurrencesOpt : Option (List JType) → List (String × Nat)
  | none => []
  | some ts => occurrencesList ts

end

mutual

/-- How deep type arguments and array dimensions are nested in the type. -/
def nesting : JType → Nat
  | { args, dims, .. } => dims + nestingOpt args

/-- The deepest nesting of the types. -/
def nestingList : List JType → Nat
  | [] => 0
  | t :: ts => max t.nesting (nestingList ts)

/-- The nesting of type arguments, one more than their own. -/
def nestingOpt : Option (List JType) → Nat
  | none => 0
  | some ts => nestingList ts + 1

end

/-- A type that a variable can be bound to by a value: a class, an array or a type variable. -/
structure IsBindable (t : JType) : Prop where
  primitive : t.isPrimitive = false
  null : t.isNull = false
  void : t.isVoid = false
  unresolved : t.unresolved = false
  wildcard : t.wildcard = false

/-- The type with one array dimension less. -/
def inner (t : JType) : JType := { t with dims := t.dims - 1, member := none }

theorem subst_of_var {t s : JType} {v : String} (hvar : t.var = some v) (hwild : t.wildcard = false)
    {b : Bindings} (hs : b.find? v = some s) (drop : Bool) :
    t.subst b drop = { s with dims := addDims s.dims t.dims, member := t.member.or s.member } := by
  cases t
  cases hvar
  cases hwild
  simp only [subst, hs]

theorem subst_of_none {t : JType} (hvar : t.var = none) (hwild : t.wildcard = false) (b : Bindings)
    (drop : Bool) : t.subst b drop = t.withArgs (substOpt b drop t.args) := by
  cases t
  cases hvar
  cases hwild
  rw [subst]
  rfl

/-- A type that can be bound is taken apart, also as the element of an array. -/
theorem IsBindable.taken {s : JType} (h : s.IsBindable) (n : Nat) (member : Option MemberRef) :
    let t : JType := { s with dims := s.dims + n, member }
    (t.isNull || t.isVoid || t.unresolved) = false := by
  have hnull := h.null
  have hvoid := h.void
  simp only [isNull, isVoid, Bool.and_eq_false_iff, beq_eq_false_iff_ne] at hnull hvoid
  simp only [isNull, isVoid, h.unresolved, Bool.or_false, Bool.or_eq_false_iff,
    Bool.and_eq_false_iff, beq_eq_false_iff_ne]
  constructor
  · rcases hnull with (hdims | hname) | hvar
    · exact .inl (.inl (by omega))
    · exact .inl (.inr hname)
    · exact .inr hvar
  · rcases hvoid with (hdims | hname) | hvar
    · exact .inl (.inl (by omega))
    · exact .inl (.inr hname)
    · exact .inr hvar

/-- A type that can be bound is bound as it stands. -/
theorem IsBindable.boxed_readType {s : JType} (h : s.IsBindable) : s.readType.boxed = s := by
  have hprim : s.primitive? = none := by simpa [isPrimitive] using h.primitive
  have hread : s.readType = s := by
    rw [readType]
    exact if_neg (by rw [h.wildcard]; exact Bool.false_ne_true)
  rw [hread, boxed, hprim]

theorem IsClass.isBindable {t : JType} (h : t.IsClass) : t.IsBindable := by
  have hname := h.name
  simp only [isClassName, Bool.and_eq_true, bne_iff_ne, Option.isNone_iff_eq_none] at hname
  obtain ⟨⟨hprim, hvoid⟩, hnull⟩ := hname
  refine ⟨?_, ?_, ?_, h.unresolved, h.wildcard⟩
  · simp [isPrimitive, primitive?, hprim]
  · simp [isNull, hnull]
  · simp [isVoid, hvoid]

end JType

namespace Bindings

theorem find?_cons (u w : String) (s : JType) (b : Bindings) :
    find? ((u, s) :: b) w = if w = u then some s else b.find? w := by
  rw [find?, List.lookup_cons]
  by_cases h : w = u
  · simp [h]
  · simp [h, find?, beq_false_of_ne h]

theorem eq_of_find?_singleton {u w : String} {s t : JType} (h : find? [(u, s)] w = some t) : t = s := by
  rw [find?_cons] at h
  split at h
  · exact (Option.some.inj h).symm
  · cases h

theorem find?_insert (b : Bindings) (v w : String) (t : JType) :
    (b.insert v t).find? w = if w = v then some t else b.find? w := by
  induction b with
  | nil => exact find?_cons v w t []
  | cons p b ih =>
    obtain ⟨u, s⟩ := p
    rw [insert]
    by_cases hu : u = v
    · subst hu
      rw [if_pos (beq_self_eq_true u), find?_cons, find?_cons]
      split <;> rfl
    · rw [if_neg (by simpa using hu), find?_cons, find?_cons, ih]
      by_cases hw : w = u
      · rw [if_pos hw, if_neg fun h => hu (hw.symm.trans h), if_pos hw]
      · rw [if_neg hw, if_neg hw]

end Bindings

namespace Inference

open JType

variable {env : ClassEnv} {σ : Bindings}

/-! ### One variable -/

/-- At the occurrence of a variable the substitution gives a type that can be bound, and its dimensions
together with those of the occurrence fit into 32 bits. -/
def Covers (σ : Bindings) (o : String × Nat) : Prop :=
  ∃ s, σ.find? o.1 = some s ∧ s.IsBindable ∧ s.dims + o.2 < UInt32.size

/-- The variables `bound` are bound to what the substitution gives for them, and no others. -/
structure Binds (σ : Bindings) (vars bound : List String) (i : Inference) : Prop where
  /-- The variables to infer stay the same. -/
  vars_eq : i.vars = vars
  find?_eq : ∀ v, i.bindings.find? v = if v ∈ bound then (σ.find? v).map asInferred else none

variable {vars bound : List String} {i : Inference}

/-- Binding a variable to what it was replaced by, for the first time or again. -/
theorem Binds.bind (h : Binds σ vars bound i) {v : String} {s : JType} (hs : σ.find? v = some s)
    (member : Option MemberRef) : Binds σ vars (bound ++ [v]) (i.bind env v { s with member }) := by
  have hset : i.bind env v { s with member }
      = { i with bindings := i.bindings.insert v s.asInferred } := by
    by_cases hv : v ∈ bound
    · have hold : i.bindings.find? v = some s.asInferred := by
        rw [h.find?_eq, if_pos hv, hs]
        rfl
      have hsame : s.asInferred.merge env { s with member } = s.asInferred := by
        rw [merge]
        exact if_pos (same_asInferred s member)
      simp only [Inference.bind, hold]
      rw [hsame]
      rfl
    · have hold : i.bindings.find? v = none := by rw [h.find?_eq, if_neg hv]
      simp only [Inference.bind, hold]
      rfl
  rw [hset]
  refine ⟨h.vars_eq, fun w => ?_⟩
  show (i.bindings.insert v s.asInferred).find? w = _
  rw [Bindings.find?_insert, h.find?_eq]
  by_cases hw : w = v
  · simp [hw, hs]
  · simp [hw]

/-! ### The walk -/

theorem length_substList (b : Bindings) (drop : Bool) (ts : List JType) :
    (substList b drop ts).length = ts.length := by
  induction ts with
  | nil => rfl
  | cons t ts ih => rw [substList, List.length_cons, List.length_cons, ih]

end Inference

end JavaSema
