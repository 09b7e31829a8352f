import JavaSema.Proofs.Source.Below
import JavaSema.Source.Builder

/-!
# Parents of nodes

A builder records the parent of a node when it makes the parent, from children that it made before.
So a parent has a greater number than its children, whatever calls come in which order, and the way up
from a node ends.  Where no node has two owners, the parents recorded are those of the tree, and the
innermost declaration above a node is the nearest one on the way to it from the root.

There are four groups.

* The calls that make one node.  `Built` relates a builder to the nodes that it made.  The other calls
  are sequences of these, which `makes_type` and `makes_dottedPath` say.
* The invariant `WellLinked`, which every call keeps.
* The way up.  `Ancestors` follows the recorded parents, and `declAbove_of_ancestors` says when the
  search for a declaration has enough steps for it.
* The way down.  `Way` follows the children from a root, and `ancestors_of_way` compares both.
-/

namespace JavaSema.Source

namespace Builder

variable {α β : Type} {made given : List Node} {b : Builder} {n p root : Node}
  {above : List Node}

/-! ## The calls that make one node -/

/-- A call that makes one node.  A declaration comes with any number and gets its own. -/
inductive Call where
  /-- Makes a type reference. -/
  | type (shape : TypeShape)
  /-- Makes an expression. -/
  | expr (shape : ExprShape)
  /-- Makes a statement. -/
  | stmt (shape : StmtShape)
  /-- Makes a declaration. -/
  | decl (d : Decl)

/-- The node that the call makes under the number. -/
def Call.node (id : NodeId) : Call → Node
  | type shape => .type ⟨id, shape⟩
  | expr shape => .expr ⟨id, shape⟩
  | stmt shape => .stmt ⟨id, shape⟩
  | decl d => .decl { d with id := id }

/-- Makes the node. -/
def Call.make : Call → StateM Builder Node
  | type shape => return .type (← Builder.typeNode shape)
  | expr shape => return .expr (← Builder.expr shape)
  | stmt shape => return .stmt (← Builder.stmt shape)
  | decl d => return .decl (← Builder.decl d)

/-- The builder after it made the node. -/
def after (b : Builder) (n : Node) : Builder where
  next := b.next + 1
  links := n.children.reverse.map (fun c => (c.id, n)) ++ b.links

@[simp] theorem after_next (b : Builder) (n : Node) : (b.after n).next = b.next + 1 := rfl

@[simp] theorem Call.id_node (id : NodeId) (c : Call) : (c.node id).id = id := by
  cases c <;> rfl

theorem Call.run_make (c : Call) (b : Builder) :
    c.make.run b = (c.node b.next, b.after (c.node b.next)) := by
  cases c <;> rfl

/-- The nodes that a builder made, the latest first, and its state after that.  The children of each
node are among the nodes made before it. -/
inductive Built : List Node → Builder → Prop where
  /-- Nothing is made yet. -/
  | start : Built [] {}
  /-- One more node is made. -/
  | call {made : List Node} {b : Builder} (before : Built made b) (c : Call)
      (given : (c.node b.next).children ⊆ made) :
      Built ((c.make.run b).1 :: made) (c.make.run b).2

/-! ## Calls that make several nodes -/

/-- After the given nodes, the builder only makes more, and then it made those of the result. -/
def Makes (given : List Node) (m : StateM Builder α) (result : α → List Node) : Prop :=
  ∀ made b, Built made b → given ⊆ made →
    ∃ more, Built (more ++ made) (m.run b).2 ∧ result (m.run b).1 ⊆ more ++ made

theorem Makes.pure {result : α → List Node} {a : α} (h : result a ⊆ given) :
    Makes given (pure a) result :=
  fun _ _ hb hg => ⟨[], hb, fun _ hn => hg (h hn)⟩

theorem Makes.bind {m : StateM Builder α} {f : α → StateM Builder β} {result : α → List Node}
    {result' : β → List Node} (hm : Makes given m result)
    (hf : ∀ a, Makes (given ++ result a) (f a) result') : Makes given (m >>= f) result' := by
  intro made b hb hg
  obtain ⟨more, hb', hr⟩ := hm made b hb hg
  have hgr : given ++ result (m.run b).1 ⊆ more ++ made :=
    List.append_subset.mpr ⟨fun n hn => List.mem_append_right _ (hg hn), hr⟩
  obtain ⟨more', hb'', hr'⟩ := hf (m.run b).1 (more ++ made) (m.run b).2 hb' hgr
  refine ⟨more' ++ more, ?_, ?_⟩
  · rw [List.append_assoc]
    exact hb''
  · rw [List.append_assoc]
    exact hr'

theorem Makes.mono {m : StateM Builder α} {result : α → List Node} {given' : List Node}
    (h : Makes given m result) (hg : given ⊆ given') : Makes given' m result :=
  fun made b hb hg' => h made b hb fun _ hn => hg' (hg hn)

theorem makes_typeNode {shape : TypeShape}
    (h : ∀ id, (Node.type ⟨id, shape⟩).children ⊆ given) :
    Makes given (typeNode shape) fun t => [.type t] :=
  fun _ _ hb hg => ⟨[_], hb.call (.type shape) fun _ hn => hg (h _ hn),
    List.cons_subset.mpr ⟨List.mem_cons_self, List.nil_subset _⟩⟩

theorem makes_expr {shape : ExprShape} (h : ∀ id, (Node.expr ⟨id, shape⟩).children ⊆ given) :
    Makes given (expr shape) fun e => [.expr e] :=
  fun _ _ hb hg => ⟨[_], hb.call (.expr shape) fun _ hn => hg (h _ hn),
    List.cons_subset.mpr ⟨List.mem_cons_self, List.nil_subset _⟩⟩

mutual

theorem makes_type : ∀ t : TypeTree, Makes [] (type t) fun r => [.type r]
  | .primitive _ | .void | .inferred | .wild | .named _ none =>
    makes_typeNode fun _ => List.nil_subset _
  | .named _ (some args) =>
    (makes_types args).bind fun _ => makes_typeNode fun _ => List.Subset.refl _
  | .array element _ =>
    (makes_type element).bind fun _ => makes_typeNode fun _ => List.Subset.refl _
  | .wildUpper bound | .wildLower bound =>
    (makes_type bound).bind fun _ => makes_typeNode fun _ => List.Subset.refl _

theorem makes_types : ∀ ts : List TypeTree, Makes [] (types ts) fun rs => rs.map .type
  | [] => .pure (List.nil_subset _)
  | t :: ts =>
    (makes_type t).bind fun _ =>
      ((makes_types ts).mono (List.nil_subset _)).bind fun _ => .pure (List.Subset.refl _)

end

theorem makes_path (first : String) (rest : List String) :
    Makes [] (path first rest) fun e => [.expr e] := by
  refine (makes_expr fun _ => List.nil_subset _).bind fun e => ?_
  rw [List.nil_append]
  induction rest generalizing e with
  | nil => exact .pure (List.Subset.refl _)
  | cons segment rest ih =>
    rw [List.foldlM_cons]
    refine Makes.bind (makes_expr fun _ => List.Subset.refl _) fun e' => ?_
    exact (ih e').mono (List.subset_append_right _ _)

theorem makes_dottedPath (dotted : String) :
    Makes [] (dottedPath dotted) fun e => [.expr e] := by
  rw [dottedPath]
  split
  · exact makes_path _ _
  · exact makes_path _ _

/-! ## What every call keeps -/

/-- The latest entry for a key, when the entries in front all have one value. -/
theorem lookup_map_append {κ ν : Type} [BEq κ] [LawfulBEq κ] (keys : List κ) (v : ν) (k : κ)
    (entries : List (κ × ν)) :
    (k ∈ keys → (keys.map (fun x => (x, v)) ++ entries).lookup k = some v)
      ∧ (k ∉ keys → (keys.map (fun x => (x, v)) ++ entries).lookup k = entries.lookup k) := by
  induction keys with
  | nil => simp
  | cons x keys ih =>
    by_cases hx : k = x
    · simp [hx]
    · have hne : (k == x) = false := by simpa using hx
      simpa [List.lookup_cons, hx, hne] using ih

theorem parent?_after (b : Builder) (n m : Node) :
    (m.id ∈ n.children.map Node.id → (b.after n).parent? m = some n)
      ∧ (m.id ∉ n.children.map Node.id → (b.after n).parent? m = b.parent? m) := by
  have h := lookup_map_append (n.children.reverse.map Node.id) n m.id b.links
  rw [List.map_map] at h
  simpa [parent?, after, Function.comp_def] using h

/-- The numbers of the nodes and the recorded parents fit together. -/
structure WellLinked (made : List Node) (b : Builder) : Prop where
  /-- The next number is above those of all nodes. -/
  id_lt : ∀ n ∈ made, n.id < b.next
  /-- The numbers tell the nodes apart. -/
  id_inj : ∀ n ∈ made, ∀ m ∈ made, n.id = m.id → n = m
  /-- The children of a node were made, and before it. -/
  child : ∀ p ∈ made, ∀ c ∈ p.children, c ∈ made ∧ c.id < p.id
  /-- A recorded parent was made and has a child of that number. -/
  parent : ∀ n p, b.parent? n = some p → p ∈ made ∧ n.id ∈ p.children.map Node.id
  /-- Every child has a recorded parent. -/
  owned : ∀ p ∈ made, ∀ c ∈ p.children, ∃ q, b.parent? c = some q

namespace WellLinked

theorem call (h : WellLinked made b) (c : Call) (given : (c.node b.next).children ⊆ made) :
    WellLinked (c.node b.next :: made) (b.after (c.node b.next)) := by
  have hid : (c.node b.next).id = b.next := c.id_node b.next
  have hnew : ∀ n ∈ made, n.id ≠ b.next := fun n hn => Nat.ne_of_lt (h.id_lt n hn)
  generalize c.node b.next = new at *
  refine ⟨?_, ?_, ?_, ?_, ?_⟩
  · intro n hn
    rcases List.mem_cons.mp hn with rfl | hn
    · simp [hid]
    · exact Nat.lt_succ_of_lt (h.id_lt n hn)
  · intro n hn m hm hnm
    rcases List.mem_cons.mp hn with hn | hn <;> rcases List.mem_cons.mp hm with hm | hm
    · exact hn.trans hm.symm
    · exact absurd (hnm.symm.trans (hn ▸ hid)) (hnew m hm)
    · exact absurd (hnm.trans (hm ▸ hid)) (hnew n hn)
    · exact h.id_inj n hn m hm hnm
  · intro p hp c hc
    rcases List.mem_cons.mp hp with rfl | hp
    · exact ⟨List.mem_cons_of_mem _ (given hc), hid ▸ h.id_lt c (given hc)⟩
    · exact ⟨List.mem_cons_of_mem _ (h.child p hp c hc).1, (h.child p hp c hc).2⟩
  · intro n p hp
    by_cases hn : n.id ∈ new.children.map Node.id
    · rw [(parent?_after b new n).1 hn] at hp
      cases hp
      exact ⟨List.mem_cons_self, hn⟩
    · rw [(parent?_after b new n).2 hn] at hp
      exact ⟨List.mem_cons_of_mem _ (h.parent n p hp).1, (h.parent n p hp).2⟩
  · intro p hp c hc
    by_cases hn : c.id ∈ new.children.map Node.id
    · exact ⟨new, (parent?_after b new c).1 hn⟩
    · rw [(parent?_after b new c).2 hn]
      rcases List.mem_cons.mp hp with rfl | hp
      · exact absurd (List.mem_map_of_mem hc) hn
      · exact h.owned p hp c hc

/-- The recorded parent of a node is a node that has it among its children. -/
theorem child_of_parent (h : WellLinked made b) (hn : n ∈ made) (hp : b.parent? n = some p) :
    p ∈ made ∧ n ∈ p.children := by
  obtain ⟨hmade, hid⟩ := h.parent n p hp
  obtain ⟨c, hc, hcn⟩ := List.mem_map.mp hid
  have hcn : c = n := h.id_inj c (h.child p hmade c hc).1 n hn hcn
  exact ⟨hmade, hcn ▸ hc⟩

theorem id_lt_parent (h : WellLinked made b) (hn : n ∈ made) (hp : b.parent? n = some p) :
    n.id < p.id := by
  obtain ⟨hmade, hc⟩ := h.child_of_parent hn hp
  exact (h.child p hmade n hc).2

end WellLinked

theorem Built.wellLinked (h : Built made b) : WellLinked made b := by
  induction h with
  | start => constructor <;> simp [parent?]
  | call _ c given ih =>
    rw [Call.run_make]
    exact ih.call c given

/-! ## The way up -/

/-- The parents of a node, one after the other, up to a node without parent. -/
inductive Ancestors (b : Builder) : Node → List Node → Prop where
  /-- The node has no parent. -/
  | root {n : Node} (h : b.parent? n = none) : Ancestors b n []
  /-- The node has a parent. -/
  | parent {n p : Node} {above : List Node} (h : b.parent? n = some p)
      (rest : Ancestors b p above) : Ancestors b n (p :: above)

theorem Ancestors.unique {up up' : List Node} (h : Ancestors b n up) (h' : Ancestors b n up') :
    up = up' := by
  induction h generalizing up' with
  | root hp =>
    cases h' with
    | root => rfl
    | parent hp' => cases hp.symm.trans hp'
  | parent hp _ ih =>
    cases h' with
    | root hp' => cases hp'.symm.trans hp
    | parent hp' rest' =>
      cases hp.symm.trans hp'
      rw [ih rest']

theorem declAbove_of_ancestors (h : Ancestors b n above) {steps : Nat}
    (hs : above.length ≤ steps) : b.declAbove steps n = above.findSome? Node.decl? := by
  induction h generalizing steps with
  | root h => cases steps <;> simp [declAbove, h]
  | @parent n p above h rest ih =>
    cases steps with
    | zero => simp at hs
    | succ steps =>
      have ih := ih (Nat.le_of_succ_le_succ hs)
      cases p <;> simp [declAbove, h, Node.decl?, List.findSome?_cons, ih]

/-- The way up from a node ends, after fewer steps than there are numbers above the node's. -/
theorem WellLinked.exists_ancestors (h : WellLinked made b) {n : Node} (hn : n ∈ made) :
    ∃ above, Ancestors b n above ∧ n.id + above.length < b.next := by
  cases hp : b.parent? n with
  | none => exact ⟨[], .root hp, h.id_lt n hn⟩
  | some p =>
    have hmade := (h.child_of_parent hn hp).1
    have hlt := h.id_lt_parent hn hp
    obtain ⟨above, hab, hlen⟩ := exists_ancestors h hmade
    refine ⟨p :: above, .parent hp hab, ?_⟩
    calc n.id + (above.length + 1)
      _ = n.id + 1 + above.length := Nat.add_right_comm n.id above.length 1
      _ ≤ p.id + above.length := Nat.add_le_add_right hlt _
      _ < b.next := hlen
termination_by b.next - n.id
decreasing_by exact Nat.sub_lt_sub_left (h.id_lt n hn) hlt

theorem WellLinked.enclosingDecl?_eq (h : WellLinked made b) (hn : n ∈ made) :
    ∃ above, Ancestors b n above ∧ b.enclosingDecl? n = above.findSome? Node.decl? := by
  obtain ⟨above, hab, hlen⟩ := h.exists_ancestors hn
  have hsteps : above.length ≤ b.next := Nat.le_of_lt (Nat.lt_of_le_of_lt (Nat.le_add_left _ _) hlen)
  exact ⟨above, hab, declAbove_of_ancestors hab hsteps⟩

/-! ## The way down -/

/-- The nodes above a node on a way to it from the root, the nearest first. -/
inductive Way (root : Node) : List Node → Node → Prop where
  /-- Nothing is above the root. -/
  | root : Way root [] root
  /-- The way goes on to a child. -/
  | child {above : List Node} {p c : Node} (h : Way root above p) (hc : c ∈ p.children) :
      Way root (p :: above) c

theorem Way.of_child {c : Node} (hc : c ∈ root.children) (h : Way c above n) :
    Way root (above ++ [root]) n := by
  induction h with
  | root => exact .child .root hc
  | child _ hc' ih => exact .child ih hc'

/-- The nodes that a way leads to are those of the subtree. -/
theorem exists_way_iff {root n : Node} : (∃ above, Way root above n) ↔ n ∈ root.subtree := by
  constructor
  · rintro ⟨above, h⟩
    induction h with
    | root => exact Node.self_mem_subtree root
    | child _ hc ih => exact Node.child_mem_subtree ih hc
  · intro h
    rcases Node.mem_subtree_iff.mp h with rfl | ⟨c, hc, hn⟩
    · exact ⟨[], .root⟩
    · obtain ⟨above, h⟩ := exists_way_iff.mpr hn
      exact ⟨above ++ [root], h.of_child hc⟩
termination_by sizeOf root
decreasing_by exact Node.sizeOf_lt_of_mem_children hc

/-- No node is given to two owners. -/
def OneOwner (made : List Node) : Prop :=
  ∀ p ∈ made, ∀ q ∈ made, ∀ c, c ∈ p.children → c ∈ q.children → p = q

variable (h : WellLinked made b) (hroot : root ∈ made)

include h hroot

theorem WellLinked.mem_of_way (hw : Way root above n) : n ∈ made ∧ above ⊆ made := by
  induction hw with
  | root => exact ⟨hroot, List.nil_subset _⟩
  | child _ hc ih =>
    exact ⟨(h.child _ ih.1 _ hc).1, List.cons_subset.mpr ih⟩

omit hroot in
theorem WellLinked.parent?_eq_some_iff (one : OneOwner made) (hn : n ∈ made) {q : Node} :
    b.parent? n = some q ↔ q ∈ made ∧ n ∈ q.children := by
  constructor
  · exact h.child_of_parent hn
  · rintro ⟨hq, hc⟩
    obtain ⟨q', hq'⟩ := h.owned q hq n hc
    obtain ⟨hmade, hc'⟩ := h.child_of_parent hn hq'
    rw [hq', one q' hmade q hq n hc' hc]

/-- The way up begins with the way down read backwards. -/
theorem WellLinked.ancestors_of_way (one : OneOwner made) (hw : Way root above n) :
    ∃ rest, Ancestors b root rest ∧ Ancestors b n (above ++ rest) := by
  induction hw with
  | root =>
    obtain ⟨rest, hrest, -⟩ := h.exists_ancestors hroot
    exact ⟨rest, hrest, hrest⟩
  | @child above p c hw hc ih =>
    obtain ⟨rest, hrest, hup⟩ := ih
    have hp : p ∈ made := (h.mem_of_way hroot hw).1
    have hcp : b.parent? c = some p :=
      (h.parent?_eq_some_iff one (h.child p hp c hc).1).mpr ⟨hp, hc⟩
    exact ⟨rest, hrest, .parent hcp hup⟩

omit h hroot

theorem Way.root_mem (hw : Way root above n) (hne : above ≠ []) : root ∈ above := by
  induction hw with
  | root => exact absurd rfl hne
  | @child above p c hw _ ih =>
    cases hw with
    | root => exact List.mem_cons_self
    | child => exact List.mem_cons_of_mem _ (ih (List.cons_ne_nil _ _))

/-- The nearest declaration above a node is on the way from the root, when the root is a declaration
and either the node is below it or nothing has the root as a child. -/
theorem WellLinked.findSome?_of_way {d : Decl} {rest : List Node} (h : WellLinked made b)
    (hd : Node.decl d ∈ made) (hw : Way (.decl d) above n) (hrest : Ancestors b (.decl d) rest)
    (hn : above ≠ [] ∨ ∀ q ∈ made, n ∉ q.children) :
    (above ++ rest).findSome? Node.decl? = above.findSome? Node.decl? := by
  rw [List.findSome?_append]
  by_cases hne : above = []
  · subst hne
    have hnone : ∀ q ∈ made, n ∉ q.children := hn.resolve_left (absurd rfl)
    cases hw
    cases hrest with
    | root => rfl
    | parent hp _ =>
      obtain ⟨hmade, hc⟩ := h.child_of_parent hd hp
      exact absurd hc (hnone _ hmade)
  · have hsome : (above.findSome? Node.decl?).isSome :=
      List.findSome?_isSome_iff.mpr ⟨.decl d, hw.root_mem hne, rfl⟩
    rw [Option.or_of_isSome hsome]

/-- After any sequence of calls, each given only nodes made before, the parents above every node are
finitely many and the innermost declaration above it is the first one among them.  If no node has two
owners, then for every node on a way down from a declaration, its parent is the one node that has it
among its children, and the innermost declaration above it is the nearest one on the way. -/
theorem Built.parents (h : Built made b) :
    (∀ n ∈ made, ∃ above, Ancestors b n above
      ∧ b.enclosingDecl? n = above.findSome? Node.decl?)
    ∧ (OneOwner made → ∀ d above n, Node.decl d ∈ made → Way (.decl d) above n →
        (∀ q, b.parent? n = some q ↔ q ∈ made ∧ n ∈ q.children)
        ∧ (above ≠ [] ∨ (∀ q ∈ made, n ∉ q.children) →
            b.enclosingDecl? n = above.findSome? Node.decl?)) := by
  have hb := h.wellLinked
  refine ⟨fun n hn => hb.enclosingDecl?_eq hn, fun one d above n hd hw => ?_⟩
  have hn : n ∈ made := (hb.mem_of_way hd hw).1
  refine ⟨fun q => hb.parent?_eq_some_iff one hn, fun hroot => ?_⟩
  obtain ⟨rest, hrest, hup⟩ := hb.ancestors_of_way hd one hw
  obtain ⟨up, hup', hsearch⟩ := hb.enclosingDecl?_eq hn
  rw [hsearch, hup'.unique hup]
  exact hb.findSome?_of_way hd hw hrest hroot

/-- A class with one member. -/
def classWith (id : NodeId) (name : String) (m : Member) : Decl :=
  { id, name, kind := .ordinary, modifiers := {}, typeParams := [], parent := none, interfaces := []
    constants := [], members := [m], span := default }

/-- A variable. -/
def variableX : Expr := ⟨0, .name "x"⟩

/-- The statement that consists of the variable. -/
def readX : Stmt := ⟨1, .expr variableX⟩

/-- A class whose initializer is the statement. -/
def innerB : Decl := classWith 2 "B" (.initializer false readX)

/-- A class with that member class. -/
def outerA : Decl := classWith 3 "A" (.type innerB)

/-- The class and what is in it, the latest first. -/
def nodesOfA : List Node := [.decl outerA, .decl innerB, .stmt readX, .expr variableX]

/-- The parents of the variable in the member class. -/
theorem nodesOfA_parents :
    ∃ b, Built nodesOfA b ∧ OneOwner nodesOfA
      ∧ (∀ q, b.parent? (.expr variableX) = some q
          ↔ q ∈ nodesOfA ∧ Node.expr variableX ∈ q.children)
      ∧ b.parent? (.expr variableX) = some (.stmt readX)
      ∧ b.enclosingDecl? (.expr variableX) = some innerB
      ∧ b.enclosingDecl? (.decl innerB) = some outerA
      ∧ b.enclosingDecl? (.decl outerA) = none := by
  obtain ⟨b, built⟩ : ∃ b, Built nodesOfA b :=
    ⟨_, (((Built.start.call (.expr (.name "x")) (List.nil_subset _)).call
      (.stmt (.expr variableX)) (List.Subset.refl _)).call (.decl innerB)
      (List.subset_append_left [_] _)).call (.decl outerA) (List.subset_append_left [_] _)⟩
  have one : OneOwner nodesOfA := by
    simp [OneOwner, nodesOfA, outerA, innerB, readX, variableX, classWith, Node.children,
      Decl.children, Member.children, Stmt.children, Expr.children, TypeParamDecl.allBounds]
  have outer : Node.decl outerA ∈ nodesOfA := List.mem_cons_self
  have toInner : Way (.decl outerA) [.decl outerA] (.decl innerB) := .child .root List.mem_cons_self
  have toRead : Way (.decl outerA) [.decl innerB, .decl outerA] (.stmt readX) :=
    .child toInner List.mem_cons_self
  have toVariable : Way (.decl outerA) [.stmt readX, .decl innerB, .decl outerA] (.expr variableX) :=
    .child toRead List.mem_cons_self
  have down := built.parents.2 one outerA
  have parentX := (down _ _ outer toVariable).1
  refine ⟨b, built, one, parentX, (parentX _).mpr ⟨?_, List.mem_cons_self⟩,
    (down _ _ outer toVariable).2 (.inl (List.cons_ne_nil _ _)),
    (down _ _ outer toInner).2 (.inl (List.cons_ne_nil _ _)),
    (down _ _ outer .root).2 (.inr ?_)⟩
  · simp [nodesOfA]
  · simp [nodesOfA, outerA, innerB, readX, variableX, classWith, Node.children, Decl.children,
      Member.children, Stmt.children, Expr.children, TypeParamDecl.allBounds]

end Builder

end JavaSema.Source
