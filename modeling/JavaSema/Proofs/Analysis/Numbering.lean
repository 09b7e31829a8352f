import JavaSema.Proofs.Analysis.TourUnit
import JavaSema.Proofs.Source.BodyClasses
import Mathlib.Data.List.Dedup

/-!
# The names of local and anonymous classes

A walk over the bodies of a unit meets its local and anonymous classes one after another.  Each is
named after the class around it, with the next number that this class has.

There are four groups.

* What registering a class changes: the names of its family, the number of classes in the bodies of
  the class around it, and the classes that are declared.
* `Model.enter` registers a class inside of the class around it, and the walk over a unit enters the
  classes of its bodies in order.
* `Model.Knows` is the invariant that entering a class keeps: the classes that were met have names,
  and these are the names that are declared.
* The numbers that classes get.
-/

namespace JavaSema.Analysis

open Source

/-! ## Registration -/

/-- How many local and anonymous classes the class has so far. -/
def countIn (c : Catalog) (b : String) : Nat := (c.counters.lookup b).getD 0

theorem namedIn_names (c : Catalog) (b : String) (d : Decl) (simple : String) :
    ∃ new, (namedIn c b d simple).names = new ++ c.names ∧
      (∀ p ∈ new, ∃ e ∈ d.family, p.1 = e.id) ∧
      (∀ e ∈ d.family, ∃ x, (e.id, x) ∈ new) ∧
      (namedIn c b d simple).counters = (b, countIn c b + 1) :: c.counters := by
  have hself : (c.nameLocal d b simple).2.binaryName? d = some (c.nameLocal d b simple).1 := by
    simp [Catalog.nameLocal, Catalog.binaryName?, Catalog.assign]
  have hnested : (c.nameLocal d b simple).2.nameNested d
      = Catalog.nameNestedIn (Node.decl d).height (c.nameLocal d b simple).2
        (c.nameLocal d b simple).1 d.nestedTypes := by
    rw [Catalog.nameNested, hself]
  have hentries := Catalog.nameNestedIn_names (Node.decl d).height (c.nameLocal d b simple).2
    (c.nameLocal d b simple).1 d.nestedTypes
  rw [← hnested] at hentries
  refine ⟨Catalog.memberEntries (Node.decl d).height (c.nameLocal d b simple).1 d.nestedTypes
    ++ [(d.id, (c.nameLocal d b simple).1)], ?_, ?_, ?_, hentries.2⟩
  · rw [List.append_assoc]
    exact hentries.1
  · intro p hp
    rw [Decl.family_eq]
    rcases List.mem_append.mp hp with hp | hp
    · obtain ⟨e, he, hid⟩ := Catalog.exists_of_memberEntries hp
      exact ⟨e, List.mem_cons_of_mem _ he, hid⟩
    · rw [List.mem_singleton.mp hp]
      exact ⟨d, List.mem_cons_self, rfl⟩
  · intro e he
    rw [Decl.family_eq] at he
    rcases List.mem_cons.mp he with rfl | he
    · exact ⟨_, List.mem_append_right _ (List.mem_singleton_self _)⟩
    · have hheight : ∀ n ∈ d.nestedTypes, (Node.decl n).height ≤ (Node.decl d).height := fun n hn =>
        Nat.le_of_lt (Node.height_lt_of_mem_children (Decl.nested_mem_children hn))
      obtain ⟨x, hx⟩ := Catalog.exists_memberEntry hheight he
      exact ⟨x, List.mem_append_left _ hx⟩

namespace Model

variable {M : Model} {b : String} {d : Decl} {simple : String}

/-- Other classes keep their names. -/
theorem binaryName?_register_of_ne {e : Decl} (h : ∀ x ∈ d.family, x.id ≠ e.id) :
    (M.register b d simple).catalog.binaryName? e = M.catalog.binaryName? e := by
  obtain ⟨new, hnames, honly, -⟩ := namedIn_names M.catalog b d simple
  show (namedIn M.catalog b d simple).names.lookup e.id = M.catalog.names.lookup e.id
  rw [hnames]
  refine lookup_append_of_ne fun p hp hid => ?_
  obtain ⟨x, hx, hpx⟩ := honly p hp
  exact h x hx (hpx.symm.trans hid)

/-- The classes of the family get names. -/
theorem binaryName?_register_isSome {e : Decl} (h : e ∈ d.family) :
    ((M.register b d simple).catalog.binaryName? e).isSome := by
  obtain ⟨new, hnames, -, hall, -⟩ := namedIn_names M.catalog b d simple
  obtain ⟨x, hx⟩ := hall e h
  refine Catalog.binaryName?_isSome (b := x) ?_
  show (e.id, x) ∈ (namedIn M.catalog b d simple).names
  rw [hnames]
  exact List.mem_append_left _ hx

/-- The class itself is named after the class around it, with the next number. -/
theorem binaryName?_register_self (hfamily : (d.family.map Decl.id).Nodup) :
    (M.register b d simple).catalog.binaryName? d
      = some (BinaryName.nested b (toString (countIn M.catalog b + 1) ++ simple)) := by
  rw [Decl.family_eq, List.map_cons, List.nodup_cons] at hfamily
  refine binaryName?_namedIn (fun e he hid => hfamily.1 ?_) M.catalog b
  exact List.mem_map.mpr ⟨e, he, hid⟩

theorem countIn_register_self :
    countIn (M.register b d simple).catalog b = countIn M.catalog b + 1 := by
  obtain ⟨-, -, -, -, hcounters⟩ := namedIn_names M.catalog b d simple
  show ((namedIn M.catalog b d simple).counters.lookup b).getD 0 = _
  rw [hcounters, List.lookup_cons_self]
  rfl

theorem countIn_register_of_ne {b' : String} (h : b' ≠ b) :
    countIn (M.register b d simple).catalog b' = countIn M.catalog b' := by
  obtain ⟨-, -, -, -, hcounters⟩ := namedIn_names M.catalog b d simple
  show ((namedIn M.catalog b d simple).counters.lookup b').getD 0 = _
  rw [hcounters, List.lookup_cons, beq_false_of_ne h]
  rfl

/-- The classes of the family are declared. -/
theorem declared_register (hfamily : (d.family.map Decl.id).Nodup) :
    (M.register b d simple).declared
      = (d.family.filterMap (M.register b d simple).catalog.binaryName?).foldl insertName
        M.declared := by
  have hself : (M.register b d simple).catalog.binaryName? d = _ :=
    binaryName?_register_self hfamily
  show _ = (familyNames (M.register b d simple).catalog d).foldl insertName M.declared
  rw [familyNames_eq, hself]
  rfl

/-! ## Entering classes -/

/-- A class in a body is registered inside of the class around it. -/
def enter (M : Model) (k : BodyClass) : Model :=
  match M.catalog.binaryName? k.owner with
  | some b => M.register b k.decl k.simple
  | none => M

theorem enter_eq {k : BodyClass} (h : M.catalog.binaryName? k.owner = some b) :
    M.enter k = M.register b k.decl k.simple := by
  rw [enter, h]

/-- The classes in bodies are entered one after another. -/
def enterAll (M : Model) (ks : List BodyClass) : Model := ks.foldl enter M

@[simp] theorem enterAll_nil : M.enterAll [] = M := rfl

@[simp] theorem enterAll_cons (k : BodyClass) (ks : List BodyClass) :
    M.enterAll (k :: ks) = (M.enter k).enterAll ks := rfl

@[simp] theorem enterAll_append (ks ls : List BodyClass) :
    M.enterAll (ks ++ ls) = (M.enterAll ks).enterAll ls := List.foldl_append

/-- Classes that are not of the families keep their names. -/
theorem binaryName?_enterAll {ks : List BodyClass} {e : Decl}
    (h : ∀ x ∈ BodyClass.families ks, x.id ≠ e.id) :
    (M.enterAll ks).catalog.binaryName? e = M.catalog.binaryName? e := by
  induction ks generalizing M with
  | nil => rfl
  | cons k ks ih =>
    rw [BodyClass.families_cons, List.forall_mem_append] at h
    rw [enterAll_cons, ih h.2, enter]
    split
    · exact binaryName?_register_of_ne h.1
    · rfl

/-- Classes that were met before keep their names. -/
theorem binaryName?_enterAll_of_mem {ds : List Decl} {ks : List BodyClass}
    (hids : ((ds ++ BodyClass.families ks).map Decl.id).Nodup) {e : Decl} (he : e ∈ ds) :
    (M.enterAll ks).catalog.binaryName? e = M.catalog.binaryName? e := by
  rw [List.map_append, List.nodup_append] at hids
  refine binaryName?_enterAll fun x hx => ?_
  exact (hids.2.2 _ (List.mem_map_of_mem he) _ (List.mem_map_of_mem hx)).symm

end Model

/-- Meeting a stop enters the class that it is. -/
theorem meet_eq_enterAll (o : Decl) (p : Stop) (M : Model) :
    meet (M.catalog.binaryName? o) p M = M.enterAll (p.bodyClass? o).toList := by
  cases p with
  | node n => rfl
  | bodyClass d simple =>
    show _ = M.enter ⟨o, d, simple⟩
    cases hname : M.catalog.binaryName? o with
    | none => rw [Model.enter, hname, meet]
    | some b => rw [Model.enter, hname, meet]

theorem walkAll_eq_enterAll {o : Decl} {ps : List Stop} (ho : ∀ m ∈ Stop.below ps, m.id ≠ o.id)
    (hwalk : ∀ p ∈ ps, ∀ M : Model,
      walk (M.catalog.binaryName? o) p.target M = M.enterAll (p.target.bodyClasses o)) (M : Model) :
    walkAll (M.catalog.binaryName? o) ps M = M.enterAll (Stop.bodyClasses o ps) := by
  induction ps generalizing M with
  | nil => rfl
  | cons p ps ih =>
    obtain ⟨hp, hps⟩ := List.forall_mem_cons.mp hwalk
    have hkept : ∀ (ks : List BodyClass) (M : Model),
        BodyClass.families ks ⊆ BodyClass.families (Stop.bodyClasses o (p :: ps)) →
        (M.enterAll ks).catalog.binaryName? o = M.catalog.binaryName? o := by
      intro ks M hks
      refine Model.binaryName?_enterAll fun x hx => ?_
      exact ho _ (Stop.mem_below_of_families (hks hx))
    rw [Stop.below_cons, List.forall_mem_append] at ho
    have hmeet := hkept (p.bodyClass? o).toList M (by simp [List.append_assoc])
    have hbelow := hkept (p.target.bodyClasses o) (M.enterAll (p.bodyClass? o).toList)
      (by simp [List.append_assoc])
    have htarget := hp (M.enterAll (p.bodyClass? o).toList)
    have hrest := ih ho.2 hps
      ((M.enterAll (p.bodyClass? o).toList).enterAll (p.target.bodyClasses o))
    rw [hmeet] at hbelow htarget
    rw [hbelow] at hrest
    rw [walkAll_cons, meet_eq_enterAll, htarget, hrest, Stop.bodyClasses_cons,
      Model.enterAll_append, Model.enterAll_append]

/-- The walk below a node enters the classes that it meets.  The name of the class around them does
not change meanwhile, as its number is not used below the node. -/
theorem walk_eq_enterAll {o : Decl} (n : Node) (hids : (n.subtree.map Node.id).Nodup)
    (ho : ∀ m ∈ Stop.below n.stops, m.id ≠ (n.owner o).id) (M : Model) :
    walk (M.catalog.binaryName? o) n M = M.enterAll (n.bodyClasses o) := by
  have hclass : classInside (M.catalog.binaryName? o) M n = M.catalog.binaryName? (n.owner o) := by
    cases n <;> rfl
  have hbelow : ((Stop.below n.stops).map Node.id).Nodup := by
    have hnodup := ((Node.subtree_perm n).map Node.id).nodup_iff.mp hids
    rw [List.map_cons, List.map_append] at hnodup
    exact (List.nodup_append.mp (List.nodup_cons.mp hnodup).2).2.1
  rw [walk_eq, hclass, Node.bodyClasses_eq]
  refine walkAll_eq_enterAll ho (fun p hp M => ?_) M
  have hsub : (p.target.subtree.map Node.id).Nodup := by
    rw [Stop.below, List.map_flatMap, List.nodup_flatMap] at hbelow
    exact hbelow.1 p hp
  refine walk_eq_enterAll p.target hsub (fun m hm => ?_) M
  cases htarget : p.target with
  | type | expr | stmt =>
    refine ho m (Stop.mem_below.mpr ⟨p, hp, Node.mem_subtree_of_stops hm⟩)
  | decl d =>
    have hnodup := ((Node.subtree_perm p.target).map Node.id).nodup_iff.mp hsub
    intro hid
    rw [htarget] at hm hnodup
    refine (List.nodup_cons.mp hnodup).1 (List.mem_map.mpr ⟨m, List.mem_append_right _ hm, hid⟩)
termination_by sizeOf n
decreasing_by exact Node.sizeOf_lt_of_mem_stops hp

/-- The walk over a unit enters the classes of its bodies. -/
theorem walkAll_unitStops {u : SourceUnit} (hids : (u.nodes.map Node.id).Nodup) (M : Model) :
    walkAll none (unitStops u) M = M.enterAll u.bodyClasses := by
  rw [SourceUnit.nodes, List.map_flatMap, List.nodup_flatMap] at hids
  have hall : ∀ ds ⊆ u.types, ∀ M : Model, walkAll none (ds.map fun d => .node (.decl d)) M
      = M.enterAll (ds.flatMap fun d => (Node.decl d).bodyClasses d) := by
    intro ds
    induction ds with
    | nil => exact fun _ _ => rfl
    | cons d ds ih =>
      intro hds M
      obtain ⟨hd, hrest⟩ := List.cons_subset.mp hds
      have hsub : ((Node.decl d).subtree.map Node.id).Nodup := hids.1 d hd
      have hnodup := ((Node.subtree_perm (.decl d)).map Node.id).nodup_iff.mp hsub
      have hfirst : walk none (.decl d) M = M.enterAll ((Node.decl d).bodyClasses d) := by
        rw [← walk_eq_enterAll (.decl d) hsub (fun m hm hid => ?_) M, walk_eq, walk_eq]
        · rfl
        · refine (List.nodup_cons.mp hnodup).1 (List.mem_map.mpr ⟨m, ?_, hid⟩)
          exact List.mem_append_right _ hm
      rw [List.map_cons, walkAll_cons, List.flatMap_cons, Model.enterAll_append, ← hfirst]
      exact ih hrest _
  exact hall u.types (List.Subset.refl _) M

/-! ## The invariant -/

namespace Model

variable {M : Model} {ds : List Decl} {ks : List BodyClass}

/-- The classes that were met so far have names, and these are the names that are declared. -/
structure Knows (M : Model) (ds : List Decl) : Prop where
  /-- Each class has a name. -/
  named : ∀ d ∈ ds, (M.catalog.binaryName? d).isSome
  /-- Their names are declared, and no others. -/
  declared : ∀ x, x ∈ M.declared ↔ x ∈ ds.filterMap M.catalog.binaryName?
  /-- No name is declared twice. -/
  nodup : M.declared.Nodup

theorem nodup_foldl_insertName {names new : List String} (h : names.Nodup) :
    (new.foldl insertName names).Nodup := by
  induction new generalizing names with
  | nil => exact h
  | cons x new ih =>
    refine ih ?_
    unfold insertName
    split
    · exact h
    · rename_i hx
      refine List.nodup_append.mpr ⟨h, List.nodup_singleton x, fun a ha y hy => ?_⟩
      rw [List.mem_singleton.mp hy]
      exact ne_of_mem_of_not_mem ha hx

/-- Declaring the classes that have names makes them known. -/
theorem Knows.of_declare (hnamed : ∀ d ∈ ds, (M.catalog.binaryName? d).isSome)
    (hdeclared : M.declared = []) : (M.declare (ds.filterMap M.catalog.binaryName?)).Knows ds where
  named := hnamed
  declared x := by
    show x ∈ List.foldl insertName M.declared _ ↔ _
    rw [mem_foldl_insertName, hdeclared]
    simp [Model.declare]
  nodup := by
    refine nodup_foldl_insertName ?_
    rw [hdeclared]
    exact List.nodup_nil

theorem Knows.perm {ds' : List Decl} (h : M.Knows ds) (hperm : ds.Perm ds') : M.Knows ds' where
  named d hd := h.named d (hperm.mem_iff.mpr hd)
  declared x := (h.declared x).trans (hperm.filterMap _).mem_iff
  nodup := h.nodup

/-- There are as many classes as the known ones have names. -/
theorem Knows.length_declared (h : M.Knows ds) :
    M.declared.length = (ds.map M.catalog.binaryName?).dedup.length := by
  have hsome : ∀ x ∈ ds.map M.catalog.binaryName?, x.isSome := by
    intro x hx
    obtain ⟨d, hd, rfl⟩ := List.mem_map.mp hx
    exact h.named d hd
  have hperm : (M.declared.map some).Perm (ds.map M.catalog.binaryName?).dedup := by
    refine (List.perm_ext_iff_of_nodup ?_ (List.nodup_dedup _)).mpr fun x => ?_
    · exact h.nodup.map fun _ _ => Option.some.inj
    · rw [List.mem_dedup, List.mem_map]
      constructor
      · rintro ⟨b, hb, rfl⟩
        exact List.mem_map.mpr (List.mem_filterMap.mp ((h.declared b).mp hb))
      · intro hx
        obtain ⟨b, rfl⟩ := Option.isSome_iff_exists.mp (hsome x hx)
        exact ⟨b, (h.declared b).mpr (List.mem_filterMap.mpr (List.mem_map.mp hx)), rfl⟩
  rw [← hperm.length_eq, List.length_map]

/-- Registering a class makes its family known. -/
theorem Knows.register {b : String} {d : Decl} {simple : String} (h : M.Knows ds)
    (hids : ((ds ++ d.family).map Decl.id).Nodup) : (M.register b d simple).Knows (ds ++ d.family) := by
  rw [List.map_append, List.nodup_append] at hids
  obtain ⟨-, hfamily, hapart⟩ := hids
  have hkept : ∀ e ∈ ds, (M.register b d simple).catalog.binaryName? e = M.catalog.binaryName? e := by
    intro e he
    refine binaryName?_register_of_ne fun x hx => ?_
    exact (hapart _ (List.mem_map_of_mem he) _ (List.mem_map_of_mem hx)).symm
  have hold : ds.filterMap (M.register b d simple).catalog.binaryName?
      = ds.filterMap M.catalog.binaryName? := List.filterMap_congr hkept
  refine ⟨List.forall_mem_append.mpr ⟨fun e he => ?_, fun e he => ?_⟩, fun x => ?_, ?_⟩
  · rw [hkept e he]
    exact h.named e he
  · exact binaryName?_register_isSome he
  · rw [declared_register hfamily, mem_foldl_insertName, List.filterMap_append, List.mem_append,
      hold, h.declared]
  · rw [declared_register hfamily]
    exact nodup_foldl_insertName h.nodup

/-- Entering a class whose owner is known makes its family known. -/
theorem Knows.enter {k : BodyClass} (h : M.Knows ds) (howner : k.owner ∈ ds)
    (hids : ((ds ++ k.decl.family).map Decl.id).Nodup) :
    (M.enter k).Knows (ds ++ k.decl.family) := by
  obtain ⟨b, hb⟩ := Option.isSome_iff_exists.mp (h.named _ howner)
  rw [enter_eq hb]
  exact h.register hids

/-- Entering classes one after another makes all their families known. -/
theorem Knows.enterAll (h : M.Knows ds) (howned : Owned ds ks)
    (hids : ((ds ++ BodyClass.families ks).map Decl.id).Nodup) :
    (M.enterAll ks).Knows (ds ++ BodyClass.families ks) := by
  induction ks generalizing M ds with
  | nil => simpa using h
  | cons k ks ih =>
    rw [BodyClass.families_cons, ← List.append_assoc] at hids ⊢
    have hfirst : ((ds ++ k.decl.family).map Decl.id).Nodup := by
      rw [List.map_append, List.nodup_append] at hids
      exact hids.1
    exact ih (h.enter howned.1 hfirst) howned.2 hids

/-! ## Numbers -/

/-- The classes in the bodies of a class get consecutive numbers in the order in which they are
entered. -/
theorem Knows.numbered (h : M.Knows ds) (howned : Owned ds ks)
    (hids : ((ds ++ BodyClass.families ks).map Decl.id).Nodup) {b : String} {i : Nat} {k : BodyClass}
    (hk : (ks.filter fun k => (M.enterAll ks).catalog.binaryName? k.owner = some b)[i]? = some k) :
    (M.enterAll ks).catalog.binaryName? k.decl
      = some (BinaryName.nested b (toString (countIn M.catalog b + i + 1) ++ k.simple)) := by
  induction ks generalizing M ds i with
  | nil => cases hk
  | cons l ks ih =>
    obtain ⟨howner, hrest⟩ := howned
    obtain ⟨b', hb'⟩ := Option.isSome_iff_exists.mp (h.named _ howner)
    have hownerName : (M.enterAll (l :: ks)).catalog.binaryName? l.owner = some b' := by
      rw [binaryName?_enterAll_of_mem hids howner, hb']
    rw [BodyClass.families_cons, ← List.append_assoc] at hids
    have hfirst : ((ds ++ l.decl.family).map Decl.id).Nodup := by
      rw [List.map_append, List.nodup_append] at hids
      exact hids.1
    have hfamily : (l.decl.family.map Decl.id).Nodup := by
      rw [List.map_append, List.nodup_append] at hfirst
      exact hfirst.2.1
    have hname : (M.enterAll (l :: ks)).catalog.binaryName? l.decl
        = some (BinaryName.nested b' (toString (countIn M.catalog b' + 1) ++ l.simple)) := by
      rw [enterAll_cons, binaryName?_enterAll_of_mem hids
        (List.mem_append_right _ l.decl.self_mem_family), enter_eq hb']
      exact binaryName?_register_self hfamily
    have hlater : ∀ {i : Nat}, (ks.filter fun k =>
        (M.enterAll (l :: ks)).catalog.binaryName? k.owner = some b)[i]? = some k →
        (M.enterAll (l :: ks)).catalog.binaryName? k.decl = some (BinaryName.nested b
          (toString (countIn (M.enter l).catalog b + i + 1) ++ k.simple)) := fun hk =>
      ih (h.enter howner hfirst) hrest hids hk
    rw [enter_eq hb'] at hlater
    rw [List.filter_cons] at hk
    by_cases hb : b' = b
    · subst hb
      rw [if_pos (decide_eq_true hownerName)] at hk
      cases i with
      | zero =>
        cases hk
        exact hname
      | succ i =>
        rw [hlater hk, countIn_register_self]
        congr 4
        omega
    · have hother : ¬ (M.enterAll (l :: ks)).catalog.binaryName? l.owner = some b := by
        rw [hownerName]
        exact fun heq => hb (Option.some.inj heq)
      rw [if_neg (fun heq => hother (of_decide_eq_true heq))] at hk
      rw [hlater hk, countIn_register_of_ne (Ne.symm hb)]

end Model

end JavaSema.Analysis
