import JavaSema.JType.Basic

/-!
# Substitution

Replacing type variables by the types that they are bound to.
-/

namespace JavaSema

/-- The types bound to type variables, by name.  A name occurs once. -/
abbrev Bindings := List (String × JType)

namespace Bindings

/-- The type bound to the variable. -/
def find? (b : Bindings) (var : String) : Option JType := b.lookup var

/-- Binds the variable, in place of what it was bound to. -/
def insert (b : Bindings) (var : String) (t : JType) : Bindings :=
  match b with
  | [] => [(var, t)]
  | (v, s) :: rest => if v == var then (var, t) :: rest else (v, s) :: insert rest var t

/-- Binds each variable in turn. -/
def ofList (l : List (String × JType)) : Bindings :=
  l.foldl (fun b (v, t) => insert b v t) []

/-- The bindings in ascending order of the variables. -/
def sorted (b : Bindings) : List (String × JType) :=
  b.mergeSort fun x y => decide (x.1 ≤ y.1)

end Bindings

namespace JType

mutual

/-- Substitutes bound type variables.  Without a binding a variable stays, or becomes its erasure
when `dropUnbound` is set.  The dimensions of an array of a variable are added to those of the type
that the variable is bound to, in 32 bits. -/
def subst (b : Bindings) (dropUnbound : Bool) : JType → JType
  | { name, args, dims, upper, lower, var, wildcard, unresolved, binding, member } =>
    match var, wildcard with
    | some v, false =>
      match b.find? v with
      | some t => { t with dims := addDims t.dims dims, member := member.or t.member }
      | none =>
        if dropUnbound then { name, dims, unresolved, member }
        else { name, args, dims, upper, lower, var, wildcard, unresolved, binding, member }
    | _, true =>
      match substList b dropUnbound upper with
      | [] => { object with wildcard := true, upper := [], lower := substList b dropUnbound lower }
      | u :: us =>
        { u.erasure with
          wildcard := true, upper := u :: us, lower := substList b dropUnbound lower }
    | none, false =>
      { name, args := substOpt b dropUnbound args, dims, upper, lower, var, wildcard, unresolved,
        binding, member }

/-- Substitutes in each type. -/
def substList (b : Bindings) (dropUnbound : Bool) : List JType → List JType
  | [] => []
  | t :: ts => t.subst b dropUnbound :: substList b dropUnbound ts

/-- Substitutes in each type argument. -/
def substOpt (b : Bindings) (dropUnbound : Bool) : Option (List JType) → Option (List JType)
  | none => none
  | some ts => some (substList b dropUnbound ts)

end

end JType

end JavaSema
