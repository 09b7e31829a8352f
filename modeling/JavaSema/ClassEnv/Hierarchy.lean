import JavaSema.ClassEnv.Basic

/-!
# The class hierarchy

Walks over the supertypes of a class.  `reached` visits classes by name, nearest first; `closure`
visits instantiated types and substitutes type arguments on the way.

## Implementation notes

Each step of a walk visits a loadable class that was not visited before.  So a walk has at most as
many steps as the environment lists names, and the budget of the loops is that number.
-/

namespace JavaSema

namespace ClassEnv

/-! ### By name -/

/-- The loadable classes in the queue and above it, nearest first, each once.  `next` gives the names
that a class leads to. -/
def reachFrom (env : ClassEnv) (next : ClassDef → List String) :
    Nat → List String → List String → List ClassDef
  | 0, _, _ => []
  | budget + 1, seen, queue =>
    match queue.dropWhile fun n => seen.contains n || !env.isLoadable n with
    | [] => []
    | name :: rest =>
      match env.find? name with
      | none => []
      | some d => d :: reachFrom env next budget (name :: seen) (rest ++ next d)

/-- The class and all that `next` leads to, nearest first. -/
def reached (env : ClassEnv) (next : ClassDef → List String) (name : String) : List ClassDef :=
  reachFrom env next env.names.length [] [name]

/-- The names of the direct supertypes. -/
def supertypeNames (d : ClassDef) : List String :=
  d.directSupertypes.map JType.name

/-- Whether the one class is the other or below it.  The root class is above every name. -/
def isSubclass (env : ClassEnv) (sub sup : String) : Bool :=
  sub == sup || sup == objectName
    || (env.reached supertypeNames sub).any fun d => (supertypeNames d).contains sup

/-- The depth of a name and the names visited so far.  A name visited before counts nothing. -/
def depthFrom (env : ClassEnv) : Nat → List String → String → Nat × List String
  | budget, seen, name =>
    if name == objectName || seen.contains name then (0, seen)
    else
      match env.find? name with
      | none => (1, name :: seen)
      | some d =>
        match budget with
        | 0 => (1, name :: seen)
        | budget + 1 =>
          if d.isInterface then
            let step := fun (acc : Nat × List String) (t : JType) =>
              let (depth, seen) := depthFrom env budget acc.2 t.name
              (max acc.1 depth, seen)
            let (depth, seen) := d.interfaces.foldl step (0, name :: seen)
            (depth + 1, seen)
          else
            match d.superclass with
            | none => (1, name :: seen)
            | some s =>
              let (depth, seen) := depthFrom env budget (name :: seen) s.name
              (depth + 1, seen)

/-- The length of the chain of superclasses, where the root class counts 0.  An interface counts one
more than the deepest interface that it extends. -/
def hierarchyDepth (env : ClassEnv) (name : String) : Nat :=
  (depthFrom env env.names.length [] name).1

end ClassEnv

/-! ### By instantiated type -/

/-- A class as reached through one of its instantiations. -/
structure Instantiation where
  /-- The instantiated type. -/
  type : JType
  /-- The class. -/
  definition : ClassDef
  /-- What its type parameters are bound to. -/
  bindings : Bindings
deriving Inhabited

namespace Instantiation

/-- Whether a generic class is used without type arguments. -/
def isRaw (t : JType) (d : ClassDef) : Bool := t.args.isNone && !d.typeParams.isEmpty

/-- The instantiation of the class by the type.  A raw one binds each type parameter to its erased
bound. -/
def of (t : JType) (d : ClassDef) : Instantiation :=
  { type := t, definition := d, bindings := if isRaw t d then d.rawBindings else d.bindingsFor t }

/-- The direct supertypes, with type arguments substituted.  Those of a raw type are erased. -/
def supertypes (i : Instantiation) : List JType :=
  i.definition.directSupertypes.map fun s =>
    if isRaw i.type i.definition then s.erasure else s.subst i.bindings false

end Instantiation

namespace ClassEnv

/-- The first type of the queue whose class is loadable and not visited yet, with what follows it.
A type variable on the way puts its bounds at the end of the queue. -/
def settle (env : ClassEnv) (seen : List String) (queue : List JType) :
    Option (JType × ClassDef × List JType) :=
  match queue with
  | [] => none
  | t :: rest =>
    if t.isTypeVar then settle env seen (rest ++ t.upper)
    else if seen.contains t.name then settle env seen rest
    else
      match env.find? t.name with
      | none => settle env seen rest
      | some d => some (t, d, rest)
termination_by JType.nodesList queue
decreasing_by
  · rw [JType.nodesList_append]
    have := JType.nodesList_upper_lt t
    simp only [JType.nodesList]; omega
  · have := JType.nodes_pos t
    simp only [JType.nodesList]; omega
  · have := JType.nodes_pos t
    simp only [JType.nodesList]; omega

/-- The instantiations reached from the queue, nearest first, each class once. -/
def closureFrom (env : ClassEnv) : Nat → List String → List JType → List Instantiation
  | 0, _, _ => []
  | budget + 1, seen, queue =>
    match env.settle seen queue with
    | none => []
    | some (t, d, rest) =>
      let i := Instantiation.of t d
      i :: closureFrom env budget (t.name :: seen) (rest ++ i.supertypes)

/-- Where the walk over the supertypes of a type starts. -/
def startingPoints (t : JType) : List JType :=
  let t := t.readType
  if t.isArray then [.object, .ofClass cloneableName, .ofClass serializableName]
  else if t.isTypeVar then t.upper
  else if t.isPrimitive || t.isNull || t.isVoid || t.unresolved then []
  else [t]

/-- The type and all its supertypes, nearest first and superclass before interfaces, each class
once.  Classes that cannot be loaded are left out. -/
def closure (env : ClassEnv) (t : JType) : List Instantiation :=
  closureFrom env env.names.length [] (startingPoints t)

/-- The type seen as its supertype `target`, with type arguments substituted. -/
def asSupertype? (env : ClassEnv) (t : JType) (target : String) : Option JType :=
  ((env.closure t).find? fun i => i.definition.name == target).map Instantiation.type

end ClassEnv

end JavaSema
