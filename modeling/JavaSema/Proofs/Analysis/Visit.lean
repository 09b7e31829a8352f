import JavaSema.Proofs.Analysis.Tour

/-!
# Visiting whole nodes

The tours of steps that visit the nodes below stops, each once and in order.

There are four groups.

* A `Leg` is a part of a tour: stops, with what has to be known of them.  `Tour.along` is the tour
  over a leg.
* `Travels` and `Visits` say that a step takes the tour over a leg, or over stops, if no number is used
  for two nodes.
* Rules for what steps are made of.
* The stops below a node make up the leg to the node.
-/

namespace JavaSema.Analysis

open Source

variable {α β : Type}

/-! ## Legs -/

/-- A part of a tour. -/
@[ext] structure Leg where
  /-- What is visited. -/
  stops : List Stop
  /-- The arguments among the stops, whose lambdas may be checked more than once. -/
  args : List Expr := []
  /-- The calls that are counted besides. -/
  extra : Nat := 0
  /-- The receivers of method references among the stops, which are visited only without a type. -/
  memo : List Expr := []
  /-- These are among the stops. -/
  memo_mem : ∀ r ∈ memo, r.id ∈ (Stop.below stops).map Node.id

namespace Leg

/-- The leg over stops with nothing special about them. -/
def through (ps : List Stop) : Leg := { stops := ps, memo_mem := List.forall_mem_nil _ }

/-- The numbers of the nodes that are visited. -/
def ids (v : Leg) : List NodeId := (Stop.below v.stops).map Node.id

instance : Append Leg where
  append v v' :=
    { stops := v.stops ++ v'.stops
      args := v.args ++ v'.args
      extra := v.extra + v'.extra
      memo := v.memo ++ v'.memo
      memo_mem := by
        rw [Stop.below_append, List.map_append]
        refine List.forall_mem_append.mpr ⟨fun r hr => ?_, fun r hr => ?_⟩
        · exact List.mem_append_left _ (v.memo_mem r hr)
        · exact List.mem_append_right _ (v'.memo_mem r hr) }

@[simp] theorem append_stops (v v' : Leg) : (v ++ v').stops = v.stops ++ v'.stops := rfl

@[simp] theorem append_args (v v' : Leg) : (v ++ v').args = v.args ++ v'.args := rfl

@[simp] theorem append_extra (v v' : Leg) : (v ++ v').extra = v.extra + v'.extra := rfl

@[simp] theorem append_memo (v v' : Leg) : (v ++ v').memo = v.memo ++ v'.memo := rfl

theorem ids_append (v v' : Leg) : (v ++ v').ids = v.ids ++ v'.ids := by
  show (Stop.below (v.stops ++ v'.stops)).map Node.id = _
  rw [Stop.below_append, List.map_append]
  rfl

theorem append_nil (v : Leg) : v ++ .through [] = v := by
  ext1
  · exact List.append_nil _
  · exact List.append_nil _
  · rfl
  · exact List.append_nil _

/-- No number is used for two nodes of the leg, and none of the given ones is used. -/
structure Clear (M : NodeId → Prop) (v : Leg) : Prop where
  /-- Each node has a number of its own. -/
  nodup : v.ids.Nodup
  /-- The given numbers are those of others. -/
  apart : ∀ id ∈ v.ids, ¬ M id

variable {M : NodeId → Prop} {v v' : Leg}

theorem Clear.left (h : Clear M (v ++ v')) : Clear M v := by
  obtain ⟨hnodup, hapart⟩ := h
  rw [ids_append] at hnodup hapart
  exact ⟨(List.nodup_append.mp hnodup).1, fun id hid => hapart id (List.mem_append_left _ hid)⟩

theorem Clear.right (h : Clear M (v ++ v')) : Clear M v' := by
  obtain ⟨hnodup, hapart⟩ := h
  rw [ids_append] at hnodup hapart
  exact ⟨(List.nodup_append.mp hnodup).2.1, fun id hid => hapart id (List.mem_append_right _ hid)⟩

theorem Clear.disjoint (h : Clear M (v ++ v')) {id : NodeId} (hid : id ∈ v.ids) : id ∉ v'.ids := by
  have hnodup := h.nodup
  rw [ids_append] at hnodup
  exact fun hid' => (List.nodup_append.mp hnodup).2.2 id hid id hid' rfl

/-- The types that matter on a leg are those of nodes on it. -/
theorem readIds_mem_ids {n : Node} (hn : n ∈ Stop.below v.stops) {id : NodeId}
    (hid : id ∈ readIds n) : id ∈ v.ids := by
  obtain ⟨p, hp, hn⟩ := Stop.mem_below.mp hn
  obtain ⟨c, hc, rfl⟩ := exists_child_of_readIds hid
  exact List.mem_map_of_mem (Stop.mem_below.mpr ⟨p, hp, Node.child_mem_subtree hn hc⟩)

end Leg

/-! ## Tours over legs -/

/-- The tour over a leg, where the types with the given numbers may be recorded besides. -/
def Tour.along (M : NodeId → Prop) (v : Leg) : Tour where
  marks id := M id ∨ id ∈ v.ids
  nodes := Stop.below v.stops
  extra := v.extra
  fresh := v.memo ++ (Stop.below v.stops).filterMap receiver?
  callsOnce := Lambdas RefsSilent v.args ∧ ∀ n ∈ Stop.below v.stops, LambdaArgs RefsSilent n
  namesOnce := Lambdas (Free isDecl) v.args ∧ ∀ n ∈ Stop.below v.stops, LambdaArgs (Free isDecl) n
  walk b := walkAll b v.stops

namespace Tour

variable {M : NodeId → Prop} {v v' : Leg}

theorem receiver_mem {ps : List Stop} {r : Expr} (hr : r ∈ (Stop.below ps).filterMap receiver?) :
    Node.expr r ∈ Stop.below ps := by
  obtain ⟨n, hn, hr⟩ := List.mem_filterMap.mp hr
  obtain ⟨p, hp, hn⟩ := Stop.mem_below.mp hn
  exact Stop.mem_below.mpr ⟨p, hp, Node.child_mem_subtree hn (receiver?_mem_children hr)⟩

theorem fresh_along {r : Expr} (hr : r ∈ (along M v).fresh) : r.id ∈ v.ids := by
  rcases List.mem_append.mp hr with hr | hr
  · exact v.memo_mem r hr
  · exact List.mem_map_of_mem (f := Node.id) (receiver_mem hr)

theorem tally_along (M : NodeId → Prop) (v : Leg) (T : Typings) :
    (along M v).tally T = v.extra + ((Stop.below v.stops).map (callsAt T)).sum := rfl

/-- Legs one after another are one leg. -/
theorem along_append_le (M : NodeId → Prop) (v v' : Leg) :
    (along M v ++ along M v').Le (along M (v ++ v')) := by
  have hbelow : Stop.below (v ++ v').stops = Stop.below v.stops ++ Stop.below v'.stops := by simp
  refine .of_parts ?_ ?_ ?_ ?_ ?_ ?_ ?_
  · intro id hid
    show M id ∨ id ∈ (v ++ v').ids
    rw [Leg.ids_append, List.mem_append]
    exact hid.elim (.imp_right .inl) (.imp_right .inr)
  · intro T
    rw [tally_append, tally_along, tally_along, tally_along, Leg.append_extra, hbelow,
      List.map_append, List.sum_append]
    omega
  · intro r hr
    show r ∈ (v.memo ++ v'.memo) ++ (Stop.below (v ++ v').stops).filterMap receiver?
    rw [hbelow, List.filterMap_append]
    have hr : r ∈ (v.memo ++ _) ++ (v'.memo ++ _) := hr
    simp only [List.mem_append] at hr ⊢
    exact hr.elim (.imp .inl .inl) (.imp .inr .inr)
  · rintro ⟨hargs, hnodes⟩
    rw [hbelow] at hnodes
    obtain ⟨hargs, hargs'⟩ := List.forall_mem_append.mp hargs
    obtain ⟨hnodes, hnodes'⟩ := List.forall_mem_append.mp hnodes
    exact ⟨⟨hargs, hnodes⟩, hargs', hnodes'⟩
  · rintro ⟨hargs, hnodes⟩
    rw [hbelow] at hnodes
    obtain ⟨hargs, hargs'⟩ := List.forall_mem_append.mp hargs
    obtain ⟨hnodes, hnodes'⟩ := List.forall_mem_append.mp hnodes
    exact ⟨⟨hargs, hnodes⟩, hargs', hnodes'⟩
  · intro _
    funext b N
    exact (walkAll_append b v.stops v'.stops N).symm
  · intro n hn
    show n ∈ Stop.below (v ++ v').stops
    rw [hbelow]
    exact hn

/-- A tour without stops. -/
theorem marking_le {marks : NodeId → Prop} (h : ∀ id, marks id → M id) :
    (marking marks).Le (along M (.through [])) :=
  .of_parts (fun id hid => .inl (h id hid)) (fun _ => rfl) nofun
    (fun _ => trivial) (fun _ => trivial) (fun _ => rfl) nofun

theorem along_apart (h : Leg.Clear M (v ++ v')) : (along M v).Apart (along M v') where
  fresh r hr hmark := by
    have hid := fresh_along hr
    exact hmark.elim (h.right.apart _ hid) fun hid' => h.disjoint hid' hid
  read n hn id hid hmark := by
    have hid := Leg.readIds_mem_ids hn hid
    exact hmark.elim (h.left.apart _ hid) (h.disjoint hid)

end Tour

/-! ## Steps -/

/-- The step takes the tour over the leg, if no number is used for two nodes. -/
def Travels (M : NodeId → Prop) (v : Leg) (m : Check α) : Prop :=
  v.Clear M → Follows (.along M v) m

/-- The step visits the nodes below the stops in order, and may resolve the types with the given
numbers besides. -/
abbrev Visits (M : NodeId → Prop) (ps : List Stop) (m : Check α) : Prop :=
  Travels M (.through ps) m

/-- The footprint of a step that resolves the types with the given numbers. -/
def resolving (M : NodeId → Prop) : Footprint := (Tour.marking M).footprint

section

variable {M : NodeId → Prop} {v v' : Leg} {ps qs : List Stop} {p : Stop} {m : Check α}
  {f : α → Check β}

namespace Travels

theorem seq (hm : Travels M v m) (hf : ∀ a, Travels M v' (f a)) : Travels M (v ++ v') (m >>= f) := by
  intro hclear
  have hfirst := hm hclear.left
  refine (hfirst.bind (fun a => hf a hclear.right) (Tour.along_apart hclear)).le ?_
  exact Tour.along_append_le M v v'

/-- A step that resolves types, before another one. -/
theorem skip (hm : Has (resolving M) m) (hstill : Still m) (hf : ∀ a, Travels M v (f a)) :
    Travels M v (m >>= f) := by
  intro hclear
  refine .resolve hm hstill (fun _ _ _ => id) (fun r hr => ?_) (fun _ => .inl) fun a => hf a hclear
  exact hclear.apart _ (Tour.fresh_along hr)

/-- A step that resolves types, after another one. -/
theorem done (hm : Travels M v m) (hf : ∀ a, Has (resolving M) (f a)) (hstill : ∀ a, Still (f a)) :
    Travels M v (m >>= f) := by
  intro hclear
  have hleaf : ∀ a, Takes anyTypes (Tour.marking M) (f a) fun _ => anyTypes :=
    fun a => .leaf (hf a) (hstill a)
  refine ((hm hclear).bind hleaf (Tour.apart_marking_right fun n hn id hid => ?_)).le ?_
  · exact hclear.apart _ (Leg.readIds_mem_ids hn hid)
  · exact Tour.append_marking_le fun _ => .inl

theorem leaf (hm : Has (resolving M) m) (hstill : Still m) : Visits M [] m :=
  fun _ => (Takes.leaf hm hstill).le (Tour.marking_le fun _ => id)

theorem pure (a : α) : Visits M [] (Pure.pure a) := leaf (.pure a) (.pure a)

theorem failAt (n : Node) (cause : ResolveError) : Travels M v (Analysis.failAt n cause : Check α) :=
  fun _ => .failAt n cause

theorem ite {q : Prop} [Decidable q] {m' : Check α} (hm : Travels M v m) (hm' : Travels M v m') :
    Travels M v (if q then m else m') := by
  split
  · exact hm
  · exact hm'

theorem map (g : α → β) (hm : Travels M v m) : Travels M v (g <$> m) :=
  fun hclear => (hm hclear).map g

theorem discard (hm : Travels M v m) : Travels M v (Functor.discard m) := hm.map _

theorem inBlock (hm : Travels M v m) (n : Node) : Travels M v (inBlock n m) :=
  fun hclear => (hm hclear).inBlock n

theorem block (hm : Travels M v m) (n : Node) (observer : Option String) :
    Travels M v (do
      inTable n (SymbolTable.pushScope .block observer)
      closing (Functor.discard (inTable n SymbolTable.popScope)) m) :=
  fun hclear => (hm hclear).block n observer

theorem withFrame (hm : Travels M v m) (frame : Frame) : Travels M v (withFrame frame m) :=
  fun hclear => (hm hclear).withFrame frame

theorem append (hm : Visits M ps m) (hf : ∀ a, Visits M qs (f a)) : Visits M (ps ++ qs) (m >>= f) :=
  seq hm hf

theorem cons (hm : Visits M [p] m) (hf : ∀ a, Visits M ps (f a)) : Visits M (p :: ps) (m >>= f) :=
  seq hm hf

theorem forM {γ : Type} (l : List γ) {g : γ → List Stop} {f : γ → Check PUnit}
    (hf : ∀ b ∈ l, Visits M (g b) (f b)) : Visits M (l.flatMap g) (l.forM f) := by
  induction l with
  | nil => exact pure _
  | cons b l ih =>
    refine append (hf b List.mem_cons_self) fun _ => ih fun c hc => ?_
    exact hf c (List.mem_cons_of_mem _ hc)

/-- A step for each element of a list, each of which visits one stop. -/
theorem each {γ : Type} (l : List γ) {g : γ → Stop} {f : γ → Check PUnit}
    (hf : ∀ b ∈ l, Visits M [g b] (f b)) : Visits M (l.map g) (l.forM f) := by
  rw [List.map_eq_flatMap]
  exact forM l hf

end Travels

end

/-! ## Nodes -/

/-- The given numbers, that of a node, and those of the types right below it. -/
def atNode (M : NodeId → Prop) (n : Node) (id : NodeId) : Prop :=
  M id ∨ id ∈ (n :: Node.belowTypes n.types).map Node.id

/-- What is at or below a child is below a type or a stop. -/
theorem child_mem_below {n c m : Node} (h : c ∈ n.children) (hm : m ∈ c.subtree) :
    m ∈ Node.belowTypes n.types ++ Stop.below n.stops := by
  rcases List.mem_append.mp ((Node.children_perm n).mem_iff.mp h) with h | h
  · obtain ⟨t, ht, rfl⟩ := List.mem_map.mp h
    exact List.mem_append_left _ (List.mem_flatMap.mpr ⟨t, ht, hm⟩)
  · obtain ⟨p, hp, rfl⟩ := List.mem_map.mp h
    exact List.mem_append_right _ (Stop.mem_below.mpr ⟨p, hp, hm⟩)

theorem receiver_mem_below {n : Node} {r : Expr} (h : receiver? n = some r) :
    Node.expr r ∈ Stop.below n.stops := by
  have hbelow := child_mem_below (receiver?_mem_children h) (Node.self_mem_subtree _)
  rcases List.mem_append.mp hbelow with h | h
  · obtain ⟨t, ht⟩ := Node.eq_type_of_mem_belowTypes h
    cases ht
  · exact h

/-- The types that matter at and below a node are those of nodes below it. -/
theorem readIds_mem_below {n m : Node} (hm : m ∈ n.subtree) {id : NodeId} (hid : id ∈ readIds m) :
    id ∈ (Node.belowTypes n.types ++ Stop.below n.stops).map Node.id := by
  rcases Node.mem_subtree_cases hm with rfl | hm | hm
  · obtain ⟨c, hc, rfl⟩ := exists_child_of_readIds hid
    exact List.mem_map_of_mem (child_mem_below hc (Node.self_mem_subtree c))
  · obtain ⟨t, rfl⟩ := Node.eq_type_of_mem_belowTypes hm
    cases hid
  · have hbelow := Leg.readIds_mem_ids (v := .through n.stops) hm hid
    rw [List.map_append]
    exact List.mem_append_right _ hbelow

theorem arguments_of_hasCalls {n : Node} (h : hasCalls n = false) : arguments n = [] := by
  unfold arguments
  split
  · cases h
  · cases h
  · rename_i d
    have hnone : d.constants = [] := by simpa [hasCalls] using h
    simp [hnone]
  · rfl

theorem receiver?_of_hasCalls {n : Node} (h : hasCalls n = false) : receiver? n = none := by
  unfold receiver?
  split
  · cases h
  · rfl

/-- The leg over what is below a node. -/
def Leg.inside (n : Node) (extra : Nat) : Leg where
  stops := n.stops
  args := arguments n
  extra := extra
  memo := (receiver? n).toList
  memo_mem _ hr := List.mem_map_of_mem (receiver_mem_below (Option.mem_toList.mp hr))

section

variable {M : NodeId → Prop} {n : Node} {m : Check α}

theorem Leg.ids_node (n : Node) :
    (Leg.through [.node n]).ids.Perm
      ((n :: Node.belowTypes n.types).map Node.id ++ (Stop.below n.stops).map Node.id) := by
  have hids : (Leg.through [.node n]).ids = n.subtree.map Node.id := by
    simp [Leg.ids, Leg.through, Stop.target]
  rw [hids, ← List.map_append]
  exact (Node.subtree_perm n).map Node.id

theorem Leg.Clear.inside (h : (Leg.through [.node n]).Clear M) (extra : Nat) :
    (Leg.inside n extra).Clear (atNode M n) := by
  have hnodup := (Leg.ids_node n).nodup_iff.mp h.nodup
  obtain ⟨-, hbelow, hdisjoint⟩ := List.nodup_append.mp hnodup
  refine ⟨hbelow, fun id hid hmark => ?_⟩
  rcases hmark with hmark | hmark
  · exact h.apart id ((Leg.ids_node n).mem_iff.mpr (List.mem_append_right _ hid)) hmark
  · exact hdisjoint id hmark id hid rfl

/-- The tour on which the calls of the node itself are counted. -/
def Tour.own (n : Node) : Tour := { Tour.marking (fun _ => False) with nodes := [n] }

theorem Tour.tally_own (n : Node) (T : Typings) : (Tour.own n).tally T = callsAt T n := by
  simp [Tour.tally, Tour.own, Tour.marking]

/-- The tour that starts inside of the node, which may be a class. -/
def Tour.within (n : Node) (t : Tour) : Tour :=
  { t with walk := fun b N => t.walk (classInside b N n) N }

theorem Tour.within_eq (t : Tour) (hn : isDecl n = false) : t.within n = t := by
  cases n with
  | decl d => cases hn
  | type | expr | stmt => rfl

/-- What is below a node and the node itself make up the node. -/
theorem Tour.inside_own_le (M : NodeId → Prop) (n : Node) :
    ((along (atNode M n) (.inside n 0) ++ own n).within n).Le (along M (.through [.node n])) := by
  have hsubtree : Stop.below (Leg.through [.node n]).stops = n.subtree := by
    simp [Leg.through, Stop.target]
  have hbelow : ∀ m ∈ Stop.below n.stops, m ∈ n.subtree := fun m => Node.mem_subtree_of_stops
  refine .of_parts ?_ ?_ ?_ ?_ ?_ ?_ ?_
  · intro id hid
    have hperm := (Leg.ids_node n).mem_iff (a := id)
    rcases hid with ((hid | hid) | hid) | hid
    · exact .inl hid
    · exact .inr (hperm.mpr (List.mem_append_left _ hid))
    · exact .inr (hperm.mpr (List.mem_append_right _ hid))
    · exact hid.elim
  · intro T
    show (along (atNode M n) (.inside n 0) ++ own n).tally T = _
    rw [tally_append, tally_along, tally_along, tally_own, hsubtree,
      Node.sum_subtree (callsAt_type T)]
    show 0 + _ + _ = 0 + _
    rw [Nat.zero_add, Nat.zero_add, Nat.add_comm]
    rfl
  · intro r hr
    show r ∈ [] ++ (Stop.below (Leg.through [.node n]).stops).filterMap receiver?
    rw [hsubtree, List.nil_append]
    rcases List.mem_append.mp hr with hr | hr
    · rcases List.mem_append.mp hr with hr | hr
      · exact List.mem_filterMap.mpr ⟨n, Node.self_mem_subtree n, Option.mem_toList.mp hr⟩
      · obtain ⟨m, hm, hr⟩ := List.mem_filterMap.mp hr
        exact List.mem_filterMap.mpr ⟨m, hbelow m hm, hr⟩
    · cases hr
  · rintro ⟨-, hnodes⟩
    rw [hsubtree] at hnodes
    exact ⟨⟨hnodes n (Node.self_mem_subtree n), fun m hm => hnodes m (hbelow m hm)⟩, trivial⟩
  · rintro ⟨-, hnodes⟩
    rw [hsubtree] at hnodes
    exact ⟨⟨hnodes n (Node.self_mem_subtree n), fun m hm => hnodes m (hbelow m hm)⟩, trivial⟩
  · intro _
    funext b N
    exact (walk_eq b n N).symm
  · intro m hm
    show m ∈ Stop.below (Leg.through [.node n]).stops
    rw [hsubtree]
    rcases List.mem_append.mp hm with hm | hm
    · exact hbelow m hm
    · rw [List.mem_singleton.mp hm]
      exact Node.self_mem_subtree n

/-- The calls of a node that always stands for the same number of them may be counted with what is
below it. -/
theorem Tour.inside_le {k : Nat} (hcalls : ∀ T, callsAt T n = k) :
    ((along (atNode M n) (.inside n k)).within n).Le (along M (.through [.node n])) := by
  refine Le.trans ?_ (inside_own_le M n)
  refine .of_parts (fun _ hid => Or.inl hid) ?_ ?_ And.left And.left (fun _ => rfl) ?_
  · intro T
    show (along (atNode M n) (.inside n k)).tally T
      = (along (atNode M n) (.inside n 0) ++ own n).tally T
    rw [tally_append, tally_along, tally_along, tally_own, hcalls T]
    show k + _ = 0 + _ + k
    rw [Nat.zero_add, Nat.add_comm]
    rfl
  · exact fun r hr => List.mem_append_left _ hr
  · exact fun m hm => List.mem_append_left _ hm

namespace Travels

/-- A node is visited by visiting what is below it and counting its calls. -/
theorem node_own (hn : isDecl n = false)
    (h : (Leg.inside n 0).Clear (atNode M n) →
      Follows (Tour.along (atNode M n) (.inside n 0) ++ Tour.own n) m) :
    Visits M [.node n] m := by
  intro hclear
  have htour := h (hclear.inside 0)
  rw [← Tour.within_eq (_ ++ _) hn] at htour
  exact htour.le (Tour.inside_own_le M n)

/-- A node that always stands for the same number of calls. -/
theorem node {k : Nat} (hn : isDecl n = false) (hcalls : ∀ T, callsAt T n = k)
    (h : Travels (atNode M n) (.inside n k) m) : Visits M [.node n] m := by
  intro hclear
  have htour := h (hclear.inside k)
  rw [← Tour.within_eq (.along _ _) hn] at htour
  exact htour.le (Tour.inside_le hcalls)

/-- A node without calls of its own is visited by visiting the stops below it. -/
theorem stops {ps : List Stop} (hn : isDecl n = false) (hcalls : hasCalls n = false)
    (hstops : n.stops = ps) (h : Visits (atNode M n) ps m) : Visits M [.node n] m := by
  refine node hn (fun T => callsAt_eq_zero T hcalls) ?_
  have hinside : Leg.inside n 0 = .through ps := by
    subst hstops
    simp [Leg.inside, Leg.through, arguments_of_hasCalls hcalls, receiver?_of_hasCalls hcalls]
  rw [hinside]
  exact h

/-- A node without stops below it is visited by a step that meets none. -/
theorem childless (hn : isDecl n = false) (hcalls : hasCalls n = false) (hstops : n.stops = [])
    (h : Visits (atNode M n) [] m) : Visits M [.node n] m :=
  stops hn hcalls hstops h

/-- A node may be given its type after it was visited. -/
theorem recorded (h : Visits M [.node n] m) (t : α → JType) :
    Visits M [.node n] (do let a ← m; record n.id (t a); return a) := by
  intro hclear
  have hrecord : ∀ a, Takes anyTypes (Tour.marking fun id => id = n.id)
      (do record n.id (t a); return a) fun _ => anyTypes := by
    intro a
    refine .leaf (Goes.bind (.record rfl _) fun _ => .pure _) ?_
    exact (Still.record _ _).bind fun _ => .pure _
  refine ((h hclear).bind hrecord (Tour.apart_marking_right fun m hm id hid hmark => ?_)).le ?_
  · have hm : m ∈ n.subtree := by simpa [Tour.along, Leg.through, Stop.target] using hm
    have hbelow := readIds_mem_below hm hid
    have hnodup := (Leg.ids_node n).nodup_iff.mp hclear.nodup
    rw [List.map_cons, List.cons_append, ← List.map_append] at hnodup
    rw [hmark] at hbelow
    exact (List.nodup_cons.mp hnodup).1 hbelow
  · refine Tour.append_marking_le fun id hid => .inr ((Leg.ids_node n).mem_iff.mpr ?_)
    rw [hid]
    exact List.mem_cons_self

end Travels

end

end JavaSema.Analysis
