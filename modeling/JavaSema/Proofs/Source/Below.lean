import JavaSema.Source.Node

/-!
# The nodes below a node

`Node.subtree` is the walk over all nodes at and below a node.  It consists of the node and the
subtrees of its children, and the nodes of a unit are closed under taking children.  Among the nodes
below a class are its member classes and theirs, which form its family.
-/

namespace JavaSema.Source

namespace Node

/-- The node and all nodes below it. -/
def subtree (n : Node) : List Node := n.below fun _ => true

theorem mem_subtree_iff {n m : Node} :
    m ∈ n.subtree ↔ m = n ∨ ∃ c ∈ n.children, m ∈ c.subtree := by
  unfold subtree
  rw [below]
  simp

theorem self_mem_subtree (n : Node) : n ∈ n.subtree := mem_subtree_iff.mpr (.inl rfl)

theorem mem_subtree_of_child {n c m : Node} (hc : c ∈ n.children) (hm : m ∈ c.subtree) :
    m ∈ n.subtree :=
  mem_subtree_iff.mpr (.inr ⟨c, hc, hm⟩)

/-- A subtree holds the children of its nodes. -/
theorem child_mem_subtree {n m c : Node} (hm : m ∈ n.subtree) (hc : c ∈ m.children) :
    c ∈ n.subtree := by
  rcases mem_subtree_iff.mp hm with rfl | ⟨b, hb, hmb⟩
  · exact mem_subtree_of_child hc (self_mem_subtree c)
  · exact mem_subtree_of_child hb (child_mem_subtree hmb hc)
termination_by sizeOf n
decreasing_by exact sizeOf_lt_of_mem_children hb

/-- The declaration that the node is. -/
def decl? : Node → Option Decl
  | .decl d => some d
  | .type _ | .expr _ | .stmt _ => none

/-! ## Heights -/

theorem le_foldl_max {l : List Nat} {x a : Nat} (h : x ∈ l ∨ x ≤ a) : x ≤ l.foldl max a := by
  induction l generalizing a with
  | nil =>
    rcases h with h | h
    · cases h
    · exact h
  | cons y l ih =>
    rw [List.foldl_cons]
    refine ih ?_
    rcases h with h | h
    · rcases List.mem_cons.mp h with rfl | h
      · exact .inr (Nat.le_max_right _ _)
      · exact .inl h
    · exact .inr (Nat.le_trans h (Nat.le_max_left _ _))

theorem height_lt_of_mem_children {n c : Node} (h : c ∈ n.children) : c.height < n.height := by
  rw [height.eq_1 n]
  refine Nat.lt_one_add_iff.mpr (le_foldl_max (.inl ?_))
  exact List.mem_map.mpr ⟨⟨c, h⟩, List.mem_attach _ _, rfl⟩

theorem height_pos (n : Node) : 0 < n.height := by
  rw [height]
  omega

end Node

namespace SourceUnit

theorem height_le_of_mem_types {u : SourceUnit} {d : Decl} (h : d ∈ u.types) :
    (Node.decl d).height ≤ u.height :=
  Node.le_foldl_max (.inl (List.mem_map.mpr ⟨d, h, rfl⟩))

theorem mem_nodes_iff {u : SourceUnit} {n : Node} :
    n ∈ u.nodes ↔ ∃ d ∈ u.types, n ∈ (Node.decl d).subtree :=
  List.mem_flatMap

theorem child_mem_nodes {u : SourceUnit} {n c : Node} (hn : n ∈ u.nodes) (hc : c ∈ n.children) :
    c ∈ u.nodes := by
  obtain ⟨d, hd, hn⟩ := mem_nodes_iff.mp hn
  exact mem_nodes_iff.mpr ⟨d, hd, Node.child_mem_subtree hn hc⟩

end SourceUnit

/-! ## Children of declarations -/

theorem Member.child_of_mem {d : Decl} {m : Member} (hm : m ∈ d.members) {c : Node}
    (hc : c ∈ m.children) : c ∈ (Node.decl d).children := by
  simp only [Node.children, Decl.children, List.mem_append]
  exact .inr (List.mem_flatMap.mpr ⟨m, hm, hc⟩)

theorem Decl.nested_mem_children {d n : Decl} (h : n ∈ d.nestedTypes) :
    Node.decl n ∈ (Node.decl d).children := by
  obtain ⟨m, hm, hn⟩ := List.mem_filterMap.mp h
  cases m with
  | type e =>
    simp only [Option.some.injEq] at hn
    subst hn
    exact Member.child_of_mem hm (by simp [Member.children])
  | field | method | initializer => simp at hn

theorem Decl.sizeOf_lt_of_mem_nestedTypes {d n : Decl} (h : n ∈ d.nestedTypes) :
    sizeOf n < sizeOf d := by
  have hlt := Node.sizeOf_lt_of_mem_children (nested_mem_children h)
  simpa using hlt

/-! ## Families -/

/-- The class and the classes among its members, and theirs. -/
def Decl.family (d : Decl) : List Decl :=
  d :: d.nestedTypes.attach.flatMap fun ⟨n, _⟩ => n.family
termination_by sizeOf d
decreasing_by exact sizeOf_lt_of_mem_nestedTypes ‹_›

theorem Decl.family_eq (d : Decl) : d.family = d :: d.nestedTypes.flatMap family := by
  rw [family]
  simp

theorem Decl.self_mem_family (d : Decl) : d ∈ d.family := by
  rw [family_eq]
  exact List.mem_cons_self

/-- The classes of a family are below its first one. -/
theorem Decl.subtree_of_mem_family {d e : Decl} (h : e ∈ d.family) :
    Node.decl e ∈ (Node.decl d).subtree := by
  rw [family_eq] at h
  rcases List.mem_cons.mp h with rfl | h
  · exact Node.self_mem_subtree _
  · obtain ⟨n, hn, he⟩ := List.mem_flatMap.mp h
    exact Node.mem_subtree_of_child (nested_mem_children hn) (subtree_of_mem_family he)
termination_by sizeOf d
decreasing_by exact sizeOf_lt_of_mem_nestedTypes hn

end JavaSema.Source
