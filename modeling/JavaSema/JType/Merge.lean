import JavaSema.JType.Assign

/-!
# The nearest common type

`merge` gives the type of an expression whose value comes from one of two branches.
-/

namespace JavaSema

namespace ClassEnv

/-- The superclasses above the class, nearest first, without the root class. -/
def superclassesFrom (env : ClassEnv) : Nat → List String → String → List JType
  | 0, _, _ => []
  | budget + 1, seen, name =>
    match (env.find? name).bind ClassDef.superclass with
    | none => []
    | some s =>
      if s.name == objectName || seen.contains s.name then []
      else s :: superclassesFrom env budget (s.name :: seen) s.name

/-- The superclasses above the class, nearest first, without the root class.  The last one need not
be loadable. -/
def superclasses (env : ClassEnv) (name : String) : List JType :=
  superclassesFrom env (env.names.length + 1) [] name

/-- The direct supertypes other than the root class. -/
def properSupertypes (d : ClassDef) : List JType :=
  d.directSupertypes.filter fun s => !(s.name == objectName)

/-- The supertypes of all classes at and above the class, nearest first, without the root class. -/
def supertypes (env : ClassEnv) (name : String) : List JType :=
  (env.reached (fun d => (properSupertypes d).map JType.name) name).flatMap properSupertypes

/-- Whether the name is that of a loadable interface. -/
def isInterface (env : ClassEnv) (name : String) : Bool :=
  (env.find? name).any ClassDef.isInterface

/-- The nearest class above `left` that is also above `right`, else the nearest such interface, else
the root class. -/
def commonSupertype (env : ClassEnv) (left right : String) : JType :=
  match (env.superclasses left).find? fun s => env.isSubclass right s.name with
  | some s => s.erasure
  | none =>
    match (env.supertypes left).find? fun s => env.isInterface s.name && env.isSubclass right s.name with
    | some s => s.erasure
    | none => .object

end ClassEnv

namespace JType

/-- The common primitive type of two types that are primitive or wrappers.  Two different wrappers
have none. -/
def commonPrimitive? (left right : JType) : Option Primitive :=
  match left.unboxed?, right.unboxed? with
  | some p, some q =>
    if left.isPrimitive || right.isPrimitive || p = q then
      if p.isNumeric && q.isNumeric then some (p.wider q)
      else if p = q then some p
      else none
    else none
  | _, _ => none

/-- Whether merging has to look through the type, at the element of an array or the wrapper of a
primitive type. -/
def layer (t : JType) : Nat := if t.isArray || t.isPrimitive then 1 else 0

theorem layer_le_one (t : JType) : t.layer ≤ 1 := by
  unfold layer; split <;> omega

theorem layer_boxed_le (t : JType) : t.boxed.layer ≤ t.layer := by
  unfold boxed
  split
  · rename_i p _
    cases p <;> exact Nat.zero_le _
  · exact Nat.le_refl _

theorem layer_boxed_lt {t : JType} (h : t.isPrimitive = true) : t.boxed.layer < t.layer := by
  have ht : t.layer = 1 := by simp [layer, h]
  rw [ht]
  unfold boxed
  split
  · rename_i p _
    cases p <;> exact Nat.zero_lt_one
  · rename_i hp
    simp [isPrimitive, hp] at h

theorem layer_element_lt {t : JType} (hd : t.dims ≠ 0) (h : t.element.isPrimitive = false) :
    t.element.layer < t.layer := by
  have ht : t.layer = 1 := by
    have : t.isArray = true := by simp only [isArray, decide_eq_true_eq]; omega
    simp [layer, this]
  have he : t.element.isArray = false := by simp [isArray, element]
  rw [ht]
  simp [layer, h, he]

/-- Reading through a wildcard gives a smaller type, or one with no more layers. -/
theorem readType_decreases (t : JType) :
    t.readType.nodes < t.nodes ∨ (t.readType.nodes ≤ t.nodes ∧ t.readType.layer ≤ t.layer) := by
  unfold readType
  split
  · cases hu : t.upper with
    | nil =>
      have hn := nodes_pos t
      have hl : object.layer = 0 := by decide
      exact .inr ⟨by simp only [List.headD_nil, object, nodes_ofClass]; omega,
        by simp only [List.headD_nil, hl]; omega⟩
    | cons b bs => exact .inl (nodes_lt_of_mem_upper (by simp [hu]))
  · exact .inr ⟨Nat.le_refl _, Nat.le_refl _⟩

mutual

/-- The nearest common type of two types. -/
def merge (env : ClassEnv) (s t : JType) : JType :=
  if s == t then s
  else if s.isNull then t
  else if t.isNull then s
  else if s.isVoid then t
  else if t.isVoid then s
  else mergeRead env s.readType t.readType
termination_by 7 * (s.nodes + t.nodes) + 2 * (s.layer + t.layer) + 1
decreasing_by
  have hs := readType_decreases s
  have ht := readType_decreases t
  have hs' := layer_le_one s.readType
  have ht' := layer_le_one t.readType
  omega

/-- The nearest common type of two types that are not wildcards. -/
def mergeRead (env : ClassEnv) (left right : JType) : JType :=
  if left.dims = 0 ∧ right.dims = 0 then
    match commonPrimitive? left right with
    | some p => .primitive p
    | none =>
      if left.isPrimitive || right.isPrimitive then merge env left.boxed right.boxed
      else if left.name == right.name then
        match ha : left.args, hb : right.args with
        | some as, some bs =>
          have := nodesList_args_lt ha
          have := nodesList_args_lt hb
          if as.length = bs.length then .generic left.name (mergeList env as bs) else left.erasure
        | _, _ => left.erasure
      else if accepts env left right then left
      else if accepts env right left then right
      else env.commonSupertype left.name right.name
  else if left.dims = right.dims then
    if left.element.isPrimitive || right.element.isPrimitive then
      if left.element == right.element then left else .object
    else (merge env left.element right.element).arrayOf left.dims
  else .object
termination_by 7 * (left.nodes + right.nodes) + 2 * (left.layer + right.layer)
decreasing_by
  · have hl := nodes_boxed_le left
    have hr := nodes_boxed_le right
    have hl' := layer_boxed_le left
    have hr' := layer_boxed_le right
    have : left.boxed.layer + right.boxed.layer < left.layer + right.layer := by
      rename_i h
      rcases Bool.or_eq_true_iff.mp h with h | h
      · have := layer_boxed_lt h; omega
      · have := layer_boxed_lt h; omega
    omega
  · omega
  · rename_i hd he hp
    simp only [Bool.or_eq_true, not_or, Bool.not_eq_true] at hp
    have hl := layer_element_lt (t := left) (by omega) hp.1
    have hr := layer_element_lt (t := right) (by omega) hp.2
    rw [nodes_element, nodes_element]
    omega

/-- The nearest common types of two lists, position by position. -/
def mergeList (env : ClassEnv) (ss ts : List JType) : List JType :=
  match ss, ts with
  | s :: ss, t :: ts => merge env s t :: mergeList env ss ts
  | _, _ => []
termination_by 7 * (nodesList ss + nodesList ts) + 6
decreasing_by
  · have := layer_le_one s
    have := layer_le_one t
    simp only [nodesList]; omega
  · have := nodes_pos s
    simp only [nodesList]; omega

end

end JType

end JavaSema
