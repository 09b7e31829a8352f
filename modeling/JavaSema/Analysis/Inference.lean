import JavaSema.ClassEnv.Members
import JavaSema.JType.Merge

/-!
# Inference of type arguments

The type variables of one call, and what the types of its arguments bind them to.
-/

namespace JavaSema

/-- The type variables to infer and what they are bound to so far. -/
structure Inference where
  /-- The names of the type variables. -/
  vars : List String
  /-- What they are bound to. -/
  bindings : Bindings := []
  /-- How deep types are taken apart. -/
  depth : Nat
deriving Inhabited

namespace Inference

/-- Nothing is bound yet. -/
def start (params : List TypeParam) (depth : Nat) : Inference :=
  { vars := params.map TypeParam.name, depth }

/-- Binds type arguments that were written out.  A list of the wrong length is ignored. -/
def bindWritten (i : Inference) (params : List TypeParam) (args : List JType) : Inference :=
  if args.length = params.length then
    { i with
      bindings := (params.zip args).foldl
        (fun b (p, a) => b.insert p.name (a.boxed.withBinding .explicit)) i.bindings }
  else i

/-- Binds a variable.  A binding that was written out stays; a binding that was inferred before is
merged with the new one. -/
def bind (env : ClassEnv) (i : Inference) (var : String) (t : JType) : Inference :=
  let set (t : JType) : Inference :=
    { i with bindings := i.bindings.insert var (t.withoutMember.withBinding .inferred) }
  match i.bindings.find? var with
  | some old => if old.binding = .explicit then i else set (old.merge env t)
  | none => set t

/-- The type with so many array dimensions less, if it has them. -/
def stripDims? (t : JType) : Nat → Option JType
  | 0 => some t
  | n + 1 => t.component?.bind fun c => stripDims? c n

/-- Takes a declared type and the type of an argument apart at once and binds the variables that are
met.  The first number is one more than the levels that may be entered. -/
def unifyWithin (env : ClassEnv) : Nat → Inference → JType → JType → Inference
  | 0, i, _, _ => i
  | levels + 1, i, formal, actual =>
    if actual.isNull || actual.isVoid || actual.unresolved then i
    else if formal.isTypeVar then
      match formal.var, stripDims? actual formal.dims with
      | some v, some t => if i.vars.contains v then i.bind env v t.readType.boxed else i
      | _, _ => i
    else if formal.wildcard then
      match formal.lower ++ formal.upper with
      | [] => i
      | bound :: _ => unifyWithin env levels i bound actual
    else if formal.isArray then
      match formal.component?, actual.component? with
      | some f, some a => unifyWithin env levels i f a
      | _, _ => i
    else
      match formal.args, (env.asSupertype? actual.readType.boxed formal.name).bind JType.args with
      | some fs, some as =>
        if fs.length = as.length then
          (fs.zip as).foldl (fun i (f, a) => unifyWithin env levels i f a) i
        else i
      | _, _ => i

/-- Unifies the declared type of a parameter with the type of its argument. -/
def unify (env : ClassEnv) (i : Inference) (formal actual : JType) : Inference :=
  unifyWithin env (i.depth + 1) i formal actual

/-- Unifies the generic type that is instantiated with the type that the result is assigned to.  Only
variables that are still open are bound. -/
def unifyTarget (env : ClassEnv) (i : Inference) (generic expected : JType) : Inference :=
  if !expected.isReference || expected.isNull then i
  else
    let expected := expected.readType
    match env.asSupertype? generic expected.name with
    | none => i
    | some view =>
      let found := (unify env { i with bindings := [] } view expected).bindings
      { i with
        bindings := found.foldl
          (fun b (v, t) => if (b.find? v).isSome then b else b.insert v t) i.bindings }

/-- The type with the bindings applied.  With `dropUnbound` the variables that are still open become
their erasures. -/
def apply (i : Inference) (t : JType) (dropUnbound : Bool) : JType :=
  t.subst i.bindings dropUnbound

end Inference

end JavaSema
