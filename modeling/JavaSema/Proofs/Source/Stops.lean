import JavaSema.Proofs.Source.Below
import Mathlib.Algebra.BigOperators.Group.List.Basic
import Mathlib.Algebra.GroupWithZero.Nat

/-!
# The walk over the bodies of a unit

An analysis walks over the children of a node in order.  It treats local and anonymous classes in a
way of their own: each gets its name where it is met.

There are three groups.

* `Stop` is what the walk meets, and `Node.stops` are the stops right below a node.
* The children of a node are its types and its stops, so that a subtree consists of its root, of
  types, and of what is below the stops.
* Types consist of types.
-/

namespace JavaSema.Source

/-- What the walk over a body meets. -/
inductive Stop where
  /-- A node that is visited. -/
  | node (n : Node)
  /-- A local or anonymous class, with the simple name that its number is followed by. -/
  | bodyClass (d : Decl) (simple : String)

namespace Stop

/-- The node that is visited. -/
def target : Stop → Node
  | node n => n
  | bodyClass d _ => .decl d

/-- The nodes at and below the stops. -/
def below (ps : List Stop) : List Node := ps.flatMap fun p => p.target.subtree

@[simp] theorem below_nil : below [] = [] := rfl

@[simp] theorem below_cons (p : Stop) (ps : List Stop) :
    below (p :: ps) = p.target.subtree ++ below ps := List.flatMap_cons

@[simp] theorem below_append (ps qs : List Stop) : below (ps ++ qs) = below ps ++ below qs :=
  List.flatMap_append

theorem mem_below {ps : List Stop} {n : Node} : n ∈ below ps ↔ ∃ p ∈ ps, n ∈ p.target.subtree :=
  List.mem_flatMap

end Stop

namespace Node

/-- The type reference that the node is. -/
def type? : Node → Option TypeRef
  | type t => some t
  | expr _ | stmt _ | decl _ => none

/-- The stop that a child is, where `declared` says which one a declaration is.  A type is none. -/
def stop? (declared : Decl → Stop) : Node → Option Stop
  | type _ => none
  | expr e => some (.node (.expr e))
  | stmt s => some (.node (.stmt s))
  | decl d => some (declared d)

/-- The type references right below a node. -/
def types (n : Node) : List TypeRef := n.children.filterMap type?

/-- The stops right below a node, in order.  A class in an expression or in a constant of an
enumeration is anonymous; one in a statement is local; one among the members of a class has its name
already. -/
def stops : Node → List Stop
  | type _ => []
  | expr e => e.children.filterMap (stop? fun d => .bodyClass d "")
  | stmt s => s.children.filterMap (stop? fun d => .bodyClass d d.name)
  | decl d =>
    (d.constants.flatMap EnumConstant.children).filterMap (stop? fun d => .bodyClass d "")
      ++ (d.members.flatMap Member.children).filterMap (stop? fun d => .node (.decl d))

theorem mem_types {n : Node} {t : TypeRef} : t ∈ n.types ↔ Node.type t ∈ n.children := by
  constructor
  · intro h
    obtain ⟨c, hc, ht⟩ := List.mem_filterMap.mp h
    cases c with
    | type u =>
      cases ht
      exact hc
    | expr | stmt | decl => cases ht
  · intro h
    exact List.mem_filterMap.mpr ⟨.type t, h, rfl⟩

/-! ## Lists of children -/

section

variable (declared : Decl → Stop)

theorem filterMap_stop?_type (ts : List TypeRef) :
    (ts.map Node.type).filterMap (stop? declared) = [] := by
  simp [List.filterMap_map, Function.comp_def, stop?]

theorem filterMap_stop?_expr (es : List Expr) :
    (es.map Node.expr).filterMap (stop? declared) = es.map fun e => .node (.expr e) := by
  simp [List.filterMap_map, Function.comp_def, stop?]

theorem filterMap_stop?_stmt (ss : List Stmt) :
    (ss.map Node.stmt).filterMap (stop? declared) = ss.map fun s => .node (.stmt s) := by
  simp [List.filterMap_map, Function.comp_def, stop?]

theorem filterMap_stop?_decl (ds : List Decl) :
    (ds.map Node.decl).filterMap (stop? declared) = ds.map declared := by
  simp [List.filterMap_map, Function.comp_def, stop?]

theorem perm_types_stops (h : ∀ d, (declared d).target = .decl d) (l : List Node) :
    l.Perm ((l.filterMap type?).map .type ++ (l.filterMap (stop? declared)).map Stop.target) := by
  induction l with
  | nil => exact .nil
  | cons c l ih =>
    cases c with
    | type t => exact ih.cons (Node.type t)
    | expr e => exact (ih.cons (Node.expr e)).trans List.perm_middle.symm
    | stmt s => exact (ih.cons (Node.stmt s)).trans List.perm_middle.symm
    | decl d =>
      refine (ih.cons (Node.decl d)).trans (List.perm_middle.symm.trans (.of_eq ?_))
      simp [List.filterMap_cons, stop?, type?, h d]

end

/-- The children of a node are its types and its stops. -/
theorem children_perm (n : Node) :
    n.children.Perm (n.types.map .type ++ n.stops.map Stop.target) := by
  cases n with
  | type t =>
    have htypes : (Node.type t).types = t.children := by
      simp [types, children, type?, List.filterMap_map, Function.comp_def]
    simp [htypes, stops, children]
  | expr e => exact perm_types_stops _ (fun _ => rfl) e.children
  | stmt s => exact perm_types_stops _ (fun _ => rfl) s.children
  | decl d =>
    have hconstants := perm_types_stops (fun d => .bodyClass d "") (fun _ => rfl)
      (d.constants.flatMap EnumConstant.children)
    have hmembers := perm_types_stops (fun d => .node (.decl d)) (fun _ => rfl)
      (d.members.flatMap Member.children)
    have hheader : ∀ ts : List TypeRef, (ts.map Node.type).filterMap type? = ts := by
      intro ts
      simp [type?, List.filterMap_map, Function.comp_def]
    simp only [children, Decl.children, types, stops, List.filterMap_append, hheader,
      List.map_append, List.append_assoc]
    refine .append_left _ (.append_left _ (.append_left _ ((hconstants.append hmembers).trans ?_)))
    rw [List.append_assoc]
    exact .append_left _ (List.perm_append_comm_assoc _ _ _)

theorem sizeOf_lt_of_mem_stops {n : Node} {p : Stop} (h : p ∈ n.stops) :
    sizeOf p.target < sizeOf n := by
  refine sizeOf_lt_of_mem_children ((children_perm n).mem_iff.mpr ?_)
  exact List.mem_append_right _ (List.mem_map_of_mem h)

/-! ## Subtrees -/

theorem subtree_eq (n : Node) : n.subtree = n :: n.children.flatMap subtree := by
  unfold subtree
  rw [below]
  simp

theorem subtree_trans {n m k : Node} (hm : m ∈ n.subtree) (hk : k ∈ m.subtree) : k ∈ n.subtree := by
  rcases mem_subtree_iff.mp hm with rfl | ⟨c, hc, hm⟩
  · exact hk
  · exact mem_subtree_of_child hc (subtree_trans hm hk)
termination_by sizeOf n
decreasing_by exact sizeOf_lt_of_mem_children hc

/-- Types consist of types. -/
theorem eq_type_of_mem_subtree {t : TypeRef} {m : Node} (h : m ∈ (Node.type t).subtree) :
    ∃ u, m = .type u := by
  rcases mem_subtree_iff.mp h with rfl | ⟨c, hc, hm⟩
  · exact ⟨t, rfl⟩
  · obtain ⟨u, hu, rfl⟩ := List.mem_map.mp hc
    exact eq_type_of_mem_subtree hm
termination_by sizeOf t
decreasing_by exact sizeOf_lt_of_mem_typeChildren hu

/-- The nodes at and below the type references. -/
def belowTypes (ts : List TypeRef) : List Node := ts.flatMap fun t => (Node.type t).subtree

theorem eq_type_of_mem_belowTypes {ts : List TypeRef} {m : Node} (h : m ∈ belowTypes ts) :
    ∃ u, m = .type u := by
  obtain ⟨t, -, hm⟩ := List.mem_flatMap.mp h
  exact eq_type_of_mem_subtree hm

/-- A subtree consists of its root, of types, and of what is below the stops. -/
theorem subtree_perm (n : Node) :
    n.subtree.Perm (n :: (belowTypes n.types ++ Stop.below n.stops)) := by
  rw [subtree_eq]
  refine .cons n (((children_perm n).flatMap_right subtree).trans (.of_eq ?_))
  rw [List.flatMap_append, List.flatMap_map, List.flatMap_map]
  rfl

/-- A measure that types do not have is summed up at the root and below the stops. -/
theorem sum_subtree {f : Node → Nat} (hf : ∀ t, f (.type t) = 0) (n : Node) :
    (n.subtree.map f).sum = f n + ((Stop.below n.stops).map f).sum := by
  have htypes : ((belowTypes n.types).map f).sum = 0 := by
    refine List.sum_eq_zero fun k hk => ?_
    obtain ⟨m, hm, rfl⟩ := List.mem_map.mp hk
    obtain ⟨u, rfl⟩ := eq_type_of_mem_belowTypes hm
    exact hf u
  rw [((subtree_perm n).map f).sum_eq, List.map_cons, List.sum_cons, List.map_append,
    List.sum_append, htypes, Nat.zero_add]

theorem mem_subtree_cases {n m : Node} (h : m ∈ n.subtree) :
    m = n ∨ m ∈ belowTypes n.types ∨ m ∈ Stop.below n.stops := by
  simpa using (subtree_perm n).mem_iff.mp h

theorem mem_subtree_of_stops {n m : Node} (h : m ∈ Stop.below n.stops) : m ∈ n.subtree :=
  (subtree_perm n).mem_iff.mpr (List.mem_cons_of_mem _ (List.mem_append_right _ h))

theorem mem_subtree_of_types {n m : Node} (h : m ∈ belowTypes n.types) : m ∈ n.subtree :=
  (subtree_perm n).mem_iff.mpr (List.mem_cons_of_mem _ (List.mem_append_left _ h))

end Node

end JavaSema.Source
