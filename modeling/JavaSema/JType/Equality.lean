import JavaSema.JType.Basic

/-!
# Equality of types

Two types are the same when they agree in everything but the binding, the member and, unless they
are wildcards, the upper bounds.
-/

namespace JavaSema.JType

mutual

/-- Whether two types are the same type. -/
def same (s t : JType) : Bool :=
  match s with
  | { name, args, dims, upper, lower, var, wildcard, unresolved, .. } =>
    name == t.name && dims == t.dims && sameOpt args t.args && var == t.var
      && wildcard == t.wildcard && unresolved == t.unresolved && sameList lower t.lower
      && (!wildcard || sameList upper t.upper)

/-- Whether two lists hold the same types in the same order. -/
def sameList : List JType → List JType → Bool
  | [], [] => true
  | s :: ss, t :: ts => s.same t && sameList ss ts
  | _, _ => false

/-- Whether two argument lists are both absent, or hold the same types in the same order. -/
def sameOpt : Option (List JType) → Option (List JType) → Bool
  | none, none => true
  | some ss, some ts => sameList ss ts
  | _, _ => false

end

instance : BEq JType := ⟨same⟩

/-- Erasures are compared by what they hold. -/
theorem erasure_beq (s t : JType) : (s.erasure == t.erasure) = true ↔ s.erasure = t.erasure := by
  show s.erasure.same t.erasure = true ↔ _
  simp [same, erasure, sameOpt, sameList, and_assoc]

mutual

/-- Whether two types agree on the parts that a hash table of types looks at: name, dimensions,
type arguments, type variable and the wildcard mark. -/
def sameKey (s t : JType) : Bool :=
  match s with
  | { name, args, dims, var, wildcard, .. } =>
    name == t.name && dims == t.dims && sameKeyOpt args t.args && var == t.var
      && wildcard == t.wildcard

/-- Whether two lists agree element by element on those parts. -/
def sameKeyList : List JType → List JType → Bool
  | [], [] => true
  | s :: ss, t :: ts => s.sameKey t && sameKeyList ss ts
  | _, _ => false

/-- Whether two argument lists are both absent, or agree element by element on those parts. -/
def sameKeyOpt : Option (List JType) → Option (List JType) → Bool
  | none, none => true
  | some ss, some ts => sameKeyList ss ts
  | _, _ => false

end

end JavaSema.JType
