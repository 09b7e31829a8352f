import JavaSema.Proofs.Analysis.Still
import JavaSema.Proofs.Source.Stops

/-!
# What the walk over a unit counts and names

The calls that an analysis should count, and the names that it should give to the classes of bodies,
as functions of the tree alone: each node is met once, and classes get their names in the order in
which they are met.

There are three groups.

* Calls.  `callsAt` is the number of calls that a node stands for, given the types of the nodes.
* Names.  `Model.register` names and declares a local or anonymous class, and `walk` does so for all
  of those below a node.
* Conditions.  The lambdas among the arguments of a call may be checked more than once.  `RefsSilent`
  and `Free isDecl` say that this shows neither in the number of calls nor in the names.
-/

namespace JavaSema.Analysis

open Source

/-- Entries for other keys do not matter. -/
theorem lookup_append_of_ne {β : Type} {new l : List (NodeId × β)} {id : NodeId}
    (h : ∀ p ∈ new, p.1 ≠ id) : (new ++ l).lookup id = l.lookup id := by
  have hnone : new.lookup id = none :=
    List.lookup_eq_none_iff.mpr fun p hp => bne_iff_ne.mpr (h p hp).symm
  rw [List.lookup_append, hnone, Option.none_or]

/-! ## Calls -/

/-- Whether the type recorded for the node is that of an array. -/
def isArrayAt (T : Typings) (id : NodeId) : Bool := (T.lookup id).any JType.isArray

/-- The node before the colons of a method reference. -/
def targetId? : RefTarget → Option NodeId
  | .expr e => some e.id
  | .type t => some t.id
  | .parent => none

/-- The number of calls that the node stands for by itself: one for a call other than that of `clone`
on an array, for the creation of an object, and for a method reference other than to the creation of
an array; and one for each constant of an enumeration. -/
def callsAt (T : Typings) : Node → Nat
  | .expr ⟨_, .call receiver _ name args⟩ =>
    if receiver.any (fun r => isArrayAt T r.id) && name == "clone" && args.isEmpty then 0 else 1
  | .expr ⟨_, .create _ _ _ _⟩ => 1
  | .expr ⟨_, .methodRef target _ name⟩ =>
    if name == MethodRef.constructorRef && (targetId? target).any (isArrayAt T) then 0 else 1
  | .decl d => d.constants.length
  | _ => 0

/-- The nodes on whose types `callsAt` depends. -/
def readIds : Node → List NodeId
  | .expr ⟨_, .call receiver _ _ _⟩ => receiver.toList.map Expr.id
  | .expr ⟨_, .methodRef target _ _⟩ => (targetId? target).toList
  | _ => []

/-- Whether the node can stand for a call by itself. -/
def hasCalls : Node → Bool
  | .expr ⟨_, .call _ _ _ _⟩ | .expr ⟨_, .create _ _ _ _⟩ | .expr ⟨_, .methodRef _ _ _⟩ => true
  | .decl d => !d.constants.isEmpty
  | _ => false

theorem callsAt_type (T : Typings) (t : TypeRef) : callsAt T (.type t) = 0 := rfl

theorem callsAt_congr {T T' : Typings} {n : Node}
    (h : ∀ id ∈ readIds n, T'.lookup id = T.lookup id) : callsAt T' n = callsAt T n := by
  have harray : ∀ id ∈ readIds n, isArrayAt T' id = isArrayAt T id := by
    intro id hid
    rw [isArrayAt, isArrayAt, h id hid]
  unfold callsAt
  split
  · rename_i receiver _ _ _
    cases receiver with
    | none => rfl
    | some r => simp [harray r.id (by simp [readIds])]
  · rfl
  · rename_i target _ _
    cases target with
    | expr r => simp [targetId?, harray r.id (by simp [readIds, targetId?])]
    | type t => simp [targetId?, harray t.id (by simp [readIds, targetId?])]
    | parent => rfl
  · rfl
  · rfl

theorem callsAt_eq_zero (T : Typings) {n : Node} (h : hasCalls n = false) : callsAt T n = 0 := by
  cases n with
  | type | stmt => rfl
  | expr e =>
    obtain ⟨id, shape⟩ := e
    cases shape with
    | call | create | methodRef => cases h
    | _ => rfl
  | decl d =>
    have hnone : d.constants = [] := by simpa [hasCalls] using h
    simp [callsAt, hnone]

/-- The types that matter are those of children. -/
theorem exists_child_of_readIds {n : Node} {id : NodeId} (h : id ∈ readIds n) :
    ∃ c ∈ n.children, c.id = id := by
  unfold readIds at h
  split at h
  · rename_i receiver _ _ _
    cases receiver with
    | none => simp at h
    | some r =>
      simp only [Option.toList_some, List.map_cons, List.map_nil, List.mem_singleton] at h
      exact ⟨.expr r, by simp [Node.children, Expr.children], h.symm⟩
  · rename_i target _ _
    cases target with
    | expr r =>
      simp only [targetId?, Option.toList_some, List.mem_singleton] at h
      exact ⟨.expr r, by simp [Node.children, Expr.children], h.symm⟩
    | type t =>
      simp only [targetId?, Option.toList_some, List.mem_singleton] at h
      exact ⟨.type t, by simp [Node.children, Expr.children], h.symm⟩
    | parent => simp [targetId?] at h
  · cases h

/-! ## Names -/

/-- Whether the node is a declaration. -/
def isDecl : Node → Bool
  | .decl _ => true
  | .type _ | .expr _ | .stmt _ => false

/-- Adds a name unless it is there. -/
def insertName (names : List String) (name : String) : List String :=
  if name ∈ names then names else names ++ [name]

/-- The names of a class and of the classes among its members, and theirs, as far as they have one. -/
def familyNames (c : Catalog) (d : Decl) : List String := d.family.filterMap c.binaryName?

theorem familyNames_eq (c : Catalog) (d : Decl) :
    familyNames c d = (c.binaryName? d).toList ++ d.nestedTypes.flatMap (familyNames c) := by
  have hnested : (d.nestedTypes.flatMap Decl.family).filterMap c.binaryName?
      = d.nestedTypes.flatMap (familyNames c) := List.filterMap_flatMap ..
  rw [familyNames, Decl.family_eq, List.filterMap_cons, hnested]
  cases c.binaryName? d with
  | none => rfl
  | some b => rfl

/-- The classes of these names are declared. -/
def Model.declare (names : List String) (M : Model) : Model :=
  { M with declared := names.foldl insertName M.declared }

/-- Names and declares a class that is met inside the bodies of class `b`, together with the classes
among its members. -/
def Model.register (b : String) (d : Decl) (simple : String) (M : Model) : Model :=
  let (binary, c) := M.catalog.nameLocal d b simple
  let c := bareCatalog (c.nameNested d)
  Model.declare (binary :: d.nestedTypes.flatMap (familyNames c)) { M with catalog := c }

/-- What meeting the stop does inside the bodies of a class, before its target is visited. -/
def meet (b : Option String) : Stop → Model → Model
  | .node _, M => M
  | .bodyClass d simple, M =>
    match b with
    | some b => M.register b d simple
    | none => M

/-- The class inside of which the stops right below the node are met. -/
def classInside (b : Option String) (M : Model) : Node → Option String
  | .decl d => M.catalog.binaryName? d
  | .type _ | .expr _ | .stmt _ => b

/-- The model after the walk over what is below the node, which is inside of class `b`. -/
def walk (b : Option String) (n : Node) (M : Model) : Model :=
  let b := classInside b M n
  n.stops.attach.foldl (fun M ⟨p, _⟩ => walk b p.target (meet b p M)) M
termination_by sizeOf n
decreasing_by exact Node.sizeOf_lt_of_mem_stops ‹_›

/-- The model after the stops were met in order inside of class `b`. -/
def walkAll (b : Option String) (ps : List Stop) (M : Model) : Model :=
  ps.foldl (fun M p => walk b p.target (meet b p M)) M

theorem walk_eq (b : Option String) (n : Node) (M : Model) :
    walk b n M = walkAll (classInside b M n) n.stops M := by
  rw [walk]
  exact List.foldl_attach (f := fun M p => walk _ p.target (meet _ p M))

@[simp] theorem walkAll_nil (b : Option String) (M : Model) : walkAll b [] M = M := rfl

@[simp] theorem walkAll_cons (b : Option String) (p : Stop) (ps : List Stop) (M : Model) :
    walkAll b (p :: ps) M = walkAll b ps (walk b p.target (meet b p M)) := rfl

@[simp] theorem walkAll_append (b : Option String) (ps qs : List Stop) (M : Model) :
    walkAll b (ps ++ qs) M = walkAll b qs (walkAll b ps M) := List.foldl_append

/-! ## Conditions -/

/-- No node at or below the node is of the kind. -/
def Free (kind : Node → Bool) (n : Node) : Prop := ∀ m ∈ n.subtree, kind m = false

/-- The expression before the colons, where the node is a method reference with one.  It is typed
once, however often the reference is checked. -/
def receiver? : Node → Option Expr
  | .expr ⟨_, .methodRef (.expr r) _ _⟩ => some r
  | _ => none

/-- The method references at and below the node have no calls before the colons. -/
def RefsSilent (n : Node) : Prop :=
  ∀ m ∈ n.subtree, ∀ r, receiver? m = some r → Free hasCalls (.expr r)

/-- The arguments of the call, of the creation of an object or of constants that the node is. -/
def arguments : Node → List Expr
  | .expr ⟨_, .call _ _ _ args⟩ => args
  | .expr ⟨_, .create _ _ args _⟩ => args
  | .decl d => d.constants.flatMap EnumConstant.args
  | _ => []

/-- Whether the expression is a lambda. -/
def isLambda (e : Expr) : Bool :=
  match e.shape with
  | .lambda _ _ => true
  | _ => false

/-- The lambdas among the expressions satisfy the condition. -/
def Lambdas (condition : Node → Prop) (es : List Expr) : Prop :=
  ∀ e ∈ es, isLambda e = true → condition (.expr e)

/-- The lambdas among the arguments of the node satisfy the condition. -/
def LambdaArgs (condition : Node → Prop) (n : Node) : Prop := Lambdas condition (arguments n)

instance (kind : Node → Bool) (n : Node) : Decidable (Free kind n) :=
  inferInstanceAs (Decidable (∀ m ∈ n.subtree, kind m = false))

instance (condition : Node → Prop) [DecidablePred condition] (n : Node) :
    Decidable (LambdaArgs condition n) :=
  inferInstanceAs (Decidable (∀ e ∈ arguments n, isLambda e = true → condition (.expr e)))

theorem receiver?_mem_children {n : Node} {r : Expr} (h : receiver? n = some r) :
    Node.expr r ∈ n.children := by
  unfold receiver? at h
  split at h
  · cases h
    simp [Node.children, Expr.children]
  · cases h

theorem argument_mem_children {n : Node} {e : Expr} (h : e ∈ arguments n) :
    Node.expr e ∈ n.children := by
  unfold arguments at h
  split at h
  · simp [Node.children, Expr.children, h]
  · simp [Node.children, Expr.children, h]
  · obtain ⟨k, hk, he⟩ := List.mem_flatMap.mp h
    have hchild : Node.expr e ∈ k.children := by simp [EnumConstant.children, he]
    simp only [Node.children, Decl.children, List.mem_append]
    exact .inl (.inr (List.mem_flatMap.mpr ⟨k, hk, hchild⟩))
  · cases h

theorem Free.mono {kind : Node → Bool} {n m : Node} (h : Free kind n) (hm : m ∈ n.subtree) :
    Free kind m :=
  fun k hk => h k (Node.subtree_trans hm hk)

/-- Where there are no declarations, there are none in the lambdas among arguments. -/
theorem Free.lambdaArgs {n m : Node} (h : Free isDecl n) (hm : m ∈ n.subtree) :
    LambdaArgs (Free isDecl) m := by
  intro e he _
  exact h.mono (Node.child_mem_subtree hm (argument_mem_children he))

theorem sum_callsAt_eq_zero (T : Typings) {n : Node} (h : Free hasCalls n) :
    (n.subtree.map (callsAt T)).sum = 0 := by
  refine List.sum_eq_zero fun k hk => ?_
  obtain ⟨m, hm, rfl⟩ := List.mem_map.mp hk
  exact callsAt_eq_zero T (h m hm)

/-- Where there is no declaration, nothing is named. -/
theorem walk_eq_self {n : Node} (h : Free isDecl n) (b : Option String) (M : Model) :
    walk b n M = M := by
  have hstep : ∀ p ∈ n.stops, ∀ b M, walk b p.target (meet b p M) = M := by
    intro p hp b M
    have hbelow : ∀ m ∈ p.target.subtree, m ∈ n.subtree := fun m hm =>
      Node.mem_subtree_of_stops (Stop.mem_below.mpr ⟨p, hp, hm⟩)
    have hfree : Free isDecl p.target := fun m hm => h m (hbelow m hm)
    have hlt := Node.sizeOf_lt_of_mem_stops hp
    cases p with
    | node c => exact walk_eq_self hfree b M
    | bodyClass d simple => exact absurd (hfree (.decl d) (Node.self_mem_subtree _)) nofun
  rw [walk_eq]
  generalize classInside b M n = b
  generalize n.stops = ps at hstep
  induction ps generalizing M with
  | nil => rfl
  | cons p ps ih =>
    rw [walkAll_cons, hstep p List.mem_cons_self b M]
    exact ih M fun q hq => hstep q (List.mem_cons_of_mem _ hq)
termination_by sizeOf n

end JavaSema.Analysis
