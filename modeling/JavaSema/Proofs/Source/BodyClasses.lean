import JavaSema.Proofs.Source.Stops

/-!
# Local and anonymous classes

The classes of a unit stand at its top level, among the members of a class, or in bodies.  Those in
bodies come in the order in which a walk over the bodies meets them.

There are three groups.

* `BodyClass` is a local or anonymous class, and `SourceUnit.bodyClasses` are those of a unit.
* The declarations of a unit are the families of the classes at the top level and in bodies.
* `Owned` says that the class around each of them is met before it.
-/

namespace JavaSema.Source

/-! ## Classes in bodies -/

/-- A local or anonymous class. -/
structure BodyClass where
  /-- The class in whose bodies it stands, without another class between them. -/
  owner : Decl
  /-- The class itself. -/
  decl : Decl
  /-- The simple name of a local class.  An anonymous class has the empty one. -/
  simple : String

/-- The class that the stop is, where it stands in a body of class `o`. -/
def Stop.bodyClass? (o : Decl) : Stop → Option BodyClass
  | .node _ => none
  | .bodyClass d simple => some ⟨o, d, simple⟩

namespace Node

/-- The class in whose bodies the stops right below a node stand, where the node stands in a body of
class `o`. -/
def owner (o : Decl) : Node → Decl
  | .decl d => d
  | .type _ | .expr _ | .stmt _ => o

/-- The local and anonymous classes below a node that stands in a body of class `o`, in the order in
which they are met. -/
def bodyClasses (o : Decl) (n : Node) : List BodyClass :=
  n.stops.attach.flatMap fun ⟨p, _⟩ =>
    (p.bodyClass? (n.owner o)).toList ++ p.target.bodyClasses (n.owner o)
termination_by sizeOf n
decreasing_by exact sizeOf_lt_of_mem_stops ‹_›

end Node

/-- The local and anonymous classes at and below stops in bodies of class `o`. -/
def Stop.bodyClasses (o : Decl) (ps : List Stop) : List BodyClass :=
  ps.flatMap fun p => (p.bodyClass? o).toList ++ p.target.bodyClasses o

@[simp] theorem Stop.bodyClasses_nil (o : Decl) : Stop.bodyClasses o [] = [] := rfl

@[simp] theorem Stop.bodyClasses_cons (o : Decl) (p : Stop) (ps : List Stop) :
    Stop.bodyClasses o (p :: ps)
      = (p.bodyClass? o).toList ++ p.target.bodyClasses o ++ Stop.bodyClasses o ps :=
  List.flatMap_cons

theorem Node.bodyClasses_eq (o : Decl) (n : Node) :
    n.bodyClasses o = Stop.bodyClasses (n.owner o) n.stops := by
  rw [bodyClasses]
  simp [Stop.bodyClasses]

/-- The local and anonymous classes of a unit, in the order in which they are met. -/
def SourceUnit.bodyClasses (u : SourceUnit) : List BodyClass :=
  u.types.flatMap fun d => (Node.decl d).bodyClasses d

/-- A node in whose subtree a local or anonymous class stands has such classes. -/
theorem Node.bodyClasses_ne_nil {n m : Node} (hm : m ∈ n.subtree) {d : Decl} {simple : String}
    (hd : Stop.bodyClass d simple ∈ m.stops) (o : Decl) : n.bodyClasses o ≠ [] := by
  have hstop : ∀ p ∈ n.stops, (p.bodyClass? (n.owner o)).toList ++ p.target.bodyClasses (n.owner o) ≠ [] →
      n.bodyClasses o ≠ [] := by
    intro p hp hne
    rw [bodyClasses_eq]
    intro hnil
    exact hne (List.flatMap_eq_nil_iff.mp hnil p hp)
  rcases mem_subtree_cases hm with rfl | hm | hm
  · exact hstop _ hd (List.cons_ne_nil _ _)
  · obtain ⟨t, ht, hm⟩ := List.mem_flatMap.mp hm
    obtain ⟨r, rfl⟩ := eq_type_of_mem_subtree hm
    cases hd
  · obtain ⟨p, hp, hm⟩ := Stop.mem_below.mp hm
    have hlt : sizeOf p.target < sizeOf n := sizeOf_lt_of_mem_stops hp
    refine hstop p hp ?_
    have hbelow := bodyClasses_ne_nil hm hd (n.owner o)
    exact fun hnil => hbelow (List.append_eq_nil_iff.mp hnil).2
termination_by sizeOf n

theorem SourceUnit.bodyClasses_ne_nil {u : SourceUnit} {n : Node} (hn : n ∈ u.nodes) {d : Decl}
    {simple : String} (hd : Stop.bodyClass d simple ∈ n.stops) : u.bodyClasses ≠ [] := by
  obtain ⟨e, he, hn⟩ := mem_nodes_iff.mp hn
  intro hnil
  exact Node.bodyClasses_ne_nil hn hd e (List.flatMap_eq_nil_iff.mp hnil e he)

/-- Those of them that stand directly in the bodies of a class. -/
def SourceUnit.bodyClassesIn (u : SourceUnit) (d : Decl) : List BodyClass :=
  u.bodyClasses.filter fun k => k.owner.id = d.id

/-- The families of the classes. -/
def BodyClass.families (ks : List BodyClass) : List Decl := ks.flatMap fun k => k.decl.family

@[simp] theorem BodyClass.families_nil : BodyClass.families [] = [] := rfl

@[simp] theorem BodyClass.families_cons (k : BodyClass) (ks : List BodyClass) :
    BodyClass.families (k :: ks) = k.decl.family ++ BodyClass.families ks := List.flatMap_cons

@[simp] theorem BodyClass.families_append (ks ls : List BodyClass) :
    BodyClass.families (ks ++ ls) = BodyClass.families ks ++ BodyClass.families ls :=
  List.flatMap_append

/-! ## Declarations -/

namespace Node

/-- The family of the class that the node is. -/
def family : Node → List Decl
  | .decl d => d.family
  | .type _ | .expr _ | .stmt _ => []

end Node

/-- The family of the class that the stop is, unless it is a local or anonymous one. -/
def Stop.family : Stop → List Decl
  | .node n => n.family
  | .bodyClass _ _ => []

theorem SourceUnit.decls_eq (u : SourceUnit) : u.decls = u.nodes.filterMap Node.decl? := by
  refine congrFun (congrArg List.filterMap (funext fun n => ?_)) u.nodes
  cases n <;> rfl

/-- The family of a target is that of a member class or that of a class in a body. -/
theorem Stop.family_target (o : Decl) (p : Stop) :
    p.target.family = p.family ++ BodyClass.families (p.bodyClass? o).toList := by
  cases p with
  | node n => exact (List.append_nil _).symm
  | bodyClass d simple => simp [target, family, Node.family, bodyClass?]

namespace Node

theorem flatMap_family (declared : Decl → Stop) (l : List Node) :
    (l.filterMap (stop? declared)).flatMap Stop.family
      = (l.filterMap decl?).flatMap fun d => (declared d).family := by
  induction l with
  | nil => rfl
  | cons n l ih =>
    cases n with
    | type t => exact ih
    | expr e => exact ih
    | stmt s => exact ih
    | decl d => exact congrArg ((declared d).family ++ ·) ih

theorem filterMap_decl?_members (d : Decl) :
    (d.members.flatMap Member.children).filterMap decl? = d.nestedTypes := by
  have hmap : ∀ {α : Type} (f : α → Node) (_ : ∀ a, decl? (f a) = none) (l : List α),
      (l.map f).filterMap decl? = [] := by
    intro α f hf l
    simp [List.filterMap_map, hf]
  rw [List.filterMap_flatMap, Decl.nestedTypes, List.filterMap_eq_flatMap_toList]
  refine congrFun (congrArg List.flatMap (funext fun m => ?_)) d.members
  cases m with
  | field f => simp [Member.children, decl?]
  | method m =>
    simp only [Member.children, List.filterMap_append, hmap Node.type fun _ => rfl,
      hmap Node.stmt fun _ => rfl]
    rfl
  | initializer b s => rfl
  | type e => rfl

/-- The family of a class is the class and the families of the member classes among its stops. -/
theorem family_eq (n : Node) : n.family = n.decl?.toList ++ n.stops.flatMap Stop.family := by
  cases n with
  | type t => rfl
  | expr e =>
    rw [stops, flatMap_family]
    simp [family, decl?, Stop.family]
  | stmt s =>
    rw [stops, flatMap_family]
    simp [family, decl?, Stop.family]
  | decl d =>
    rw [stops, List.flatMap_append, flatMap_family, flatMap_family, filterMap_decl?_members, family,
      Decl.family_eq]
    simp [decl?, Stop.family, family]

theorem filterMap_decl?_types (ts : List TypeRef) : (belowTypes ts).filterMap decl? = [] := by
  refine List.filterMap_eq_nil_iff.mpr fun m hm => ?_
  obtain ⟨u, rfl⟩ := eq_type_of_mem_belowTypes hm
  rfl

/-- The declarations at and below the stops, if those of each are the families at and below it. -/
theorem decls_below_of (o : Decl) (ps : List Stop)
    (h : ∀ p ∈ ps, (p.target.subtree.filterMap decl?).Perm
      (p.target.family ++ BodyClass.families (p.target.bodyClasses o))) :
    ((Stop.below ps).filterMap decl?).Perm
      (ps.flatMap Stop.family ++ BodyClass.families (Stop.bodyClasses o ps)) := by
  induction ps with
  | nil => exact .nil
  | cons p ps ih =>
    obtain ⟨hp, hps⟩ := List.forall_mem_cons.mp h
    rw [Stop.family_target o] at hp
    rw [Stop.below_cons, List.filterMap_append, List.flatMap_cons, Stop.bodyClasses_cons,
      BodyClass.families_append, BodyClass.families_append]
    refine (hp.append (ih hps)).trans ?_
    simp only [List.append_assoc]
    refine .append_left _ ?_
    rw [← List.append_assoc, ← List.append_assoc (BodyClass.families _)]
    exact List.perm_append_comm_assoc _ _ _

/-- The declarations at and below a node are its family and those of the classes in bodies. -/
theorem decls_perm (o : Decl) (n : Node) :
    (n.subtree.filterMap decl?).Perm
      (n.family ++ BodyClass.families (n.bodyClasses o)) := by
  have hbelow := decls_below_of (n.owner o) n.stops fun p hp => decls_perm (n.owner o) p.target
  refine ((subtree_perm n).filterMap decl?).trans ?_
  rw [← List.singleton_append, List.filterMap_append, List.filterMap_append, filterMap_decl?_types,
    List.nil_append, family_eq, bodyClasses_eq, List.append_assoc]
  refine .append (.of_eq ?_) hbelow
  cases n <;> rfl
termination_by sizeOf n
decreasing_by exact sizeOf_lt_of_mem_stops hp

end Node

theorem Stop.mem_below_of_families {o : Decl} {ps : List Stop} {d : Decl}
    (h : d ∈ BodyClass.families (Stop.bodyClasses o ps)) : Node.decl d ∈ Stop.below ps := by
  have hperm := Node.decls_below_of o ps fun p _ => Node.decls_perm o p.target
  obtain ⟨n, hn, hd⟩ := List.mem_filterMap.mp (hperm.mem_iff.mpr (List.mem_append_right _ h))
  cases n with
  | type | expr | stmt => cases hd
  | decl e =>
    cases hd
    exact hn

/-- The declarations of a unit are the families of the classes at the top level and in bodies. -/
theorem SourceUnit.decls_perm (u : SourceUnit) :
    u.decls.Perm (u.types.flatMap Decl.family ++ BodyClass.families u.bodyClasses) := by
  rw [decls_eq, nodes, bodyClasses]
  induction u.types with
  | nil => exact .nil
  | cons d ds ih =>
    have hfirst : (((Node.decl d).below fun _ => true).filterMap Node.decl?).Perm
        (d.family ++ BodyClass.families ((Node.decl d).bodyClasses d)) :=
      Node.decls_perm d (.decl d)
    simp only [List.flatMap_cons, List.filterMap_append, BodyClass.families_append]
    refine (hfirst.append ih).trans ?_
    rw [List.append_assoc, List.append_assoc]
    exact .append_left _ (List.perm_append_comm_assoc _ _ _)

theorem Node.ids_sublist (l : List Node) :
    ((l.filterMap decl?).map Decl.id).Sublist (l.map Node.id) := by
  induction l with
  | nil => exact .slnil
  | cons n l ih =>
    cases n with
    | type t => exact ih.cons _
    | expr e => exact ih.cons _
    | stmt s => exact ih.cons _
    | decl d => exact ih.cons_cons _

/-- No number is used for two classes of a unit, if none is used for two nodes. -/
theorem SourceUnit.nodup_families {u : SourceUnit} (hids : (u.nodes.map Node.id).Nodup) :
    ((u.types.flatMap Decl.family ++ BodyClass.families u.bodyClasses).map Decl.id).Nodup := by
  refine (u.decls_perm.map Decl.id).nodup_iff.mp ?_
  rw [decls_eq]
  exact hids.sublist (Node.ids_sublist u.nodes)

/-! ## Owners -/

/-- The class around each class in a body is a known one or of the family of an earlier one. -/
def Owned (known : List Decl) : List BodyClass → Prop
  | [] => True
  | k :: ks => k.owner ∈ known ∧ Owned (known ++ k.decl.family) ks

namespace Owned

variable {known known' : List Decl} {ks ls : List BodyClass}

theorem mono (h : Owned known ks) (hsub : known ⊆ known') : Owned known' ks := by
  induction ks generalizing known known' with
  | nil => trivial
  | cons k ks ih =>
    obtain ⟨howner, hrest⟩ := h
    refine ⟨hsub howner, ih hrest ?_⟩
    have hleft := List.Subset.trans hsub (List.subset_append_left known' k.decl.family)
    exact List.append_subset.mpr ⟨hleft, List.subset_append_right _ _⟩

theorem append (h : Owned known ks) (h' : Owned known ls) : Owned known (ks ++ ls) := by
  induction ks generalizing known with
  | nil => exact h'
  | cons k ks ih =>
    obtain ⟨howner, hrest⟩ := h
    exact ⟨howner, ih hrest (h'.mono (List.subset_append_left _ _))⟩

theorem owner_mem (h : Owned known ks) : ∀ k ∈ ks, k.owner ∈ known ++ BodyClass.families ks := by
  induction ks generalizing known with
  | nil => exact List.forall_mem_nil _
  | cons l ks ih =>
    obtain ⟨howner, hrest⟩ := h
    rw [BodyClass.families_cons, ← List.append_assoc]
    refine List.forall_mem_cons.mpr ⟨?_, ih hrest⟩
    exact List.mem_append_left _ (List.mem_append_left _ howner)

theorem of_stops {o : Decl} {ps : List Stop} (ho : o ∈ known) (hps : ∀ p ∈ ps, p.family ⊆ known)
    (htargets : ∀ p ∈ ps, ∀ known, o ∈ known → p.target.family ⊆ known →
      Owned known (p.target.bodyClasses o)) : Owned known (Stop.bodyClasses o ps) := by
  induction ps with
  | nil => trivial
  | cons p ps ih =>
    obtain ⟨hp, hps⟩ := List.forall_mem_cons.mp hps
    obtain ⟨htarget, htargets⟩ := List.forall_mem_cons.mp htargets
    rw [Stop.bodyClasses_cons]
    refine append ?_ (ih hps htargets)
    cases p with
    | node n => exact htarget known ho hp
    | bodyClass d simple =>
      refine ⟨ho, htarget _ (List.mem_append_left _ ho) ?_⟩
      exact List.subset_append_right _ _

end Owned

theorem Node.owned_bodyClasses {known : List Decl} {o : Decl} (n : Node) (ho : o ∈ known)
    (hfamily : n.family ⊆ known) : Owned known (n.bodyClasses o) := by
  rw [family_eq] at hfamily
  have howner : n.owner o ∈ known := by
    cases n with
    | type | expr | stmt => exact ho
    | decl d => exact hfamily (List.mem_append_left _ (List.mem_singleton_self d))
  rw [bodyClasses_eq]
  refine Owned.of_stops howner (fun p hp => ?_) fun p hp known ho h => owned_bodyClasses p.target ho h
  intro d hd
  exact hfamily (List.mem_append_right _ (List.mem_flatMap.mpr ⟨p, hp, hd⟩))
termination_by sizeOf n
decreasing_by exact sizeOf_lt_of_mem_stops hp

/-- The class around each local or anonymous class is met before it. -/
theorem SourceUnit.owned_bodyClasses (u : SourceUnit) :
    Owned (u.types.flatMap Decl.family) u.bodyClasses := by
  have hall : ∀ ds ⊆ u.types,
      Owned (u.types.flatMap Decl.family) (ds.flatMap fun d => (Node.decl d).bodyClasses d) := by
    intro ds
    induction ds with
    | nil => exact fun _ => trivial
    | cons d ds ih =>
      intro hds
      obtain ⟨hd, hrest⟩ := List.cons_subset.mp hds
      have hfamily : d.family ⊆ u.types.flatMap Decl.family := fun e he =>
        List.mem_flatMap.mpr ⟨d, hd, he⟩
      rw [List.flatMap_cons]
      refine .append ?_ (ih hrest)
      exact Node.owned_bodyClasses (.decl d) (hfamily d.self_mem_family) hfamily
  exact hall u.types (List.Subset.refl _)

end JavaSema.Source
