import JavaSema.ClassEnv.Hierarchy

/-!
# Assignability

`accepts env target value` says whether a value of type `value` may be assigned to a variable of
type `target`.  Primitive types follow the widening order and their wrappers, reference types the
class hierarchy of their erasures.  Type arguments are not compared.
-/

namespace JavaSema.JType

/-- Whether every array can be assigned to a variable of that class. -/
def isArraySupertype (name : String) : Bool :=
  name == objectName || name == cloneableName || name == serializableName

/-- Whether a value of the primitive type or class `value` can be assigned to `target`, where neither
is an array, a type variable or a wildcard. -/
def acceptsPlain (env : ClassEnv) (target value : JType) : Bool :=
  if target.isVoid || value.isVoid then target.isVoid && value.isVoid
  else if value.isNull then target.isReference
  else
    match target.primitive?, value.primitive? with
    | some p, some q => q.widensTo p
    | some p, none => (Primitive.ofBoxName? value.name).any fun q => q.widensTo p
    | none, some q => env.isSubclass q.boxName target.name
    | none, none => env.isSubclass value.name target.name

/-- Whether an array of type `value` can be assigned to `target`, where neither is built on a type
variable or a wildcard. -/
def acceptsArray (env : ClassEnv) (target value : JType) : Bool :=
  if value.dims = 0 then false
  else if target.dims = 0 then isArraySupertype target.name && target.args.isNone
  else if value.dims = target.dims then
    if target.element.isPrimitive || value.element.isPrimitive then target.element == value.element
    else acceptsPlain env target.element value.element
  else target.dims < value.dims && !target.element.isPrimitive && isArraySupertype target.name

/-- Whether a value of type `value` can be assigned to `target`. -/
def accepts (env : ClassEnv) (target value : JType) : Bool :=
  if target.unresolved || value.unresolved then false
  else if target.isVoid || value.isVoid then target.isVoid && value.isVoid
  else if value.isNull then target.isReference
  else if target.wildcard || target.isTypeVar then
    match h : target.lower with
    | b :: _ =>
      have : b.nodes < target.nodes := nodes_lt_of_mem_lower (by simp [h])
      accepts env b value || accepts env value b
    | [] =>
      target.upper.attach.all fun ⟨b, hb⟩ =>
        have := nodes_lt_of_mem_upper hb
        accepts env (b.arrayOf32 target.dims) value
  else if value.wildcard || value.isTypeVar then
    if value.upper.isEmpty then target.isObject
    else
      value.upper.attach.any fun ⟨b, hb⟩ =>
        have := nodes_lt_of_mem_upper hb
        accepts env target (b.arrayOf32 value.dims)
  else if target.isArray || value.isArray then acceptsArray env target value
  else acceptsPlain env target value
termination_by target.nodes + value.nodes
decreasing_by
  all_goals
    try rw [nodes_arrayOf32]
    omega

end JavaSema.JType
