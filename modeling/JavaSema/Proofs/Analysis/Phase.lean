import JavaSema.Proofs.Analysis.Headers
import JavaSema.Proofs.Analysis.TourUnit
import JavaSema.Proofs.Independent

/-!
# Phases of an analysis

An analysis goes over the classes of a unit three times: it declares their headers, it gives them their
members, and it checks their bodies.  In each of these phases the classes may be taken in any order.

There are three groups.

* `Phase` is what has to be shown of the step that a phase takes for each class.
* A phase may take the classes in any order, as long as no symbol gives way to another one.  Otherwise
  the names of placeholders would differ.
* The three phases.
-/

namespace JavaSema.Analysis

open Source

variable {α : Type} {setting : Setting} {c : Catalog} {ds : List Decl} {f : Decl → Check Unit}
  {s s' t t' : State}

/-! ## Phases -/

/-- No other class of the list has `x` among its values. -/
def Owns {κ : Type} (values : Decl → List κ) (ds : List Decl) (d : Decl) (x : κ) : Prop :=
  ∀ e ∈ ds, e ≠ d → x ∉ values e

section

variable {κ : Type} {values : Decl → List κ} {x : κ}

theorem owns_of_nodup (h : (ds.flatMap values).Nodup) {d : Decl} (hd : d ∈ ds) (hx : x ∈ values d) :
    Owns values ds d x := by
  intro e he hne hx'
  have hsymm : Std.Symm (Function.onFun List.Disjoint values) := ⟨fun _ _ h => List.disjoint_symm h⟩
  exact (List.nodup_flatMap.mp h).2.forall hd he hne.symm hx hx'

/-- If the values are distinct, then each one belongs to some class or to none. -/
theorem exists_owns (h : (ds.flatMap values).Nodup) {d : Decl} (hd : d ∈ ds) (x : κ) :
    ∃ e ∈ ds, Owns values ds e x := by
  by_cases hx : x ∈ ds.flatMap values
  · obtain ⟨e, he, hx⟩ := List.mem_flatMap.mp hx
    exact ⟨e, he, owns_of_nodup h he hx⟩
  · exact ⟨d, hd, fun e he _ hx' => hx (List.mem_flatMap.mpr ⟨e, he, hx'⟩)⟩

end

/-- The numbers of the nodes of a class. -/
def nodeIds (d : Decl) : List NodeId := (Node.decl d).subtree.map Node.id

/-- Each class of the list has names and numbers of its own. -/
structure Distinct (c : Catalog) (ds : List Decl) : Prop where
  /-- The names. -/
  names : (ds.flatMap (familyNames c)).Nodup
  /-- The numbers. -/
  ids : (ds.flatMap nodeIds).Nodup

/-- In a phase the step `f` is taken for each class.  `R own I` compares states by what concerns the
classes with the names `own` and the nodes with the numbers `I`. -/
structure Phase (setting : Setting) (c : Catalog) (ds : List Decl) (f : Decl → Check Unit)
    (R : (String → Prop) → (NodeId → Prop) → State → State → Prop) : Prop where
  symm : ∀ {own I s s'}, R own I s s' → R own I s' s
  trans : ∀ {own I s s' s''}, R own I s s' → R own I s' s'' → R own I s s''
  /-- A state is like itself in all respects. -/
  whole : ∀ {own I s s'}, R own I s s' → R (fun _ => True) (fun _ => True) s s
  /-- The next placeholders have the same name. -/
  fresh : ∀ {own I s s'}, R own I s s' → s.table.fresh = s'.table.fresh
  /-- The step takes back no name of a placeholder. -/
  grows : ∀ {d own I s t}, d ∈ ds → R own I s s → exec (f d setting) s = (.ok (), t) →
    s.table.fresh ≤ t.table.fresh
  /-- The step does the same to states that are the same for its class. -/
  respects : ∀ {d own I s s' t}, d ∈ ds → (∀ b ∈ familyNames c d, own b) →
    (∀ id ∈ nodeIds d, I id) → R own I s s' → exec (f d setting) s = (.ok (), t) →
      ∃ t', exec (f d setting) s' = (.ok (), t') ∧ R own I t t'
  /-- The step leaves what concerns other classes. -/
  leaves : ∀ {d own I s t}, d ∈ ds → (∀ b ∈ familyNames c d, ¬ own b) →
    (∀ id ∈ nodeIds d, ¬ I id) → R own I s s → exec (f d setting) s = (.ok (), t) →
      t.table.fresh = s.table.fresh → R own I s t

/-- The step succeeds for the class and makes no placeholder. -/
def Tidy (setting : Setting) (f : Decl → Check Unit) (d : Decl) (s t : State) : Prop :=
  exec (f d setting) s = (.ok (), t) ∧ t.table.fresh = s.table.fresh

theorem forM_of_run {l : List Decl} (h : Run (Tidy setting f) l s t) :
    exec (l.forM f setting) s = (.ok (), t) := by
  induction l generalizing s with
  | nil =>
    obtain rfl : t = s := h
    rfl
  | cons d l ih =>
    obtain ⟨m, ⟨hfirst, -⟩, hrest⟩ := h
    exact (run_bind_ok hfirst).trans (ih hrest)

namespace Phase

variable {R : (String → Prop) → (NodeId → Prop) → State → State → Prop}
  (h : Phase setting c ds f R) {own : String → Prop} {I : NodeId → Prop}

include h

theorem self_of_run {d : Decl} (hd : d ∈ ds) (hs : R (fun _ => True) (fun _ => True) s s)
    (hrun : exec (f d setting) s = (.ok (), t)) : R (fun _ => True) (fun _ => True) t t := by
  obtain ⟨t', -, ht⟩ := h.respects hd (fun _ _ => trivial) (fun _ _ => trivial) hs hrun
  exact h.whole ht

/-- A run over several classes takes back no name of a placeholder. -/
theorem grows_forM {l : List Decl} (hl : ∀ d ∈ l, d ∈ ds)
    (hs : R (fun _ => True) (fun _ => True) s s) (hrun : exec (l.forM f setting) s = (.ok (), t)) :
    R (fun _ => True) (fun _ => True) t t ∧ s.table.fresh ≤ t.table.fresh := by
  induction l generalizing s with
  | nil =>
    cases hrun
    exact ⟨hs, Nat.le_refl _⟩
  | cons d l ih =>
    obtain ⟨hd, hl⟩ := List.forall_mem_cons.mp hl
    obtain ⟨_, m, hfirst, hrest⟩ := ok_of_run_bind hrun
    obtain ⟨ht, hfresh⟩ := ih hl (h.self_of_run hd hs hfirst) hrest
    exact ⟨ht, Nat.le_trans (h.grows hd hs hfirst) hfresh⟩

/-- If no placeholder was made on the whole, then none was made at any step. -/
theorem run_of_forM {l : List Decl} (hl : ∀ d ∈ l, d ∈ ds)
    (hs : R (fun _ => True) (fun _ => True) s s) (hrun : exec (l.forM f setting) s = (.ok (), t))
    (hfresh : t.table.fresh ≤ s.table.fresh) : Run (Tidy setting f) l s t := by
  induction l generalizing s with
  | nil =>
    cases hrun
    rfl
  | cons d l ih =>
    obtain ⟨hd, hl⟩ := List.forall_mem_cons.mp hl
    obtain ⟨_, m, hfirst, hrest⟩ := ok_of_run_bind hrun
    have hm := h.self_of_run hd hs hfirst
    have hbefore := h.grows hd hs hfirst
    have hafter := (h.grows_forM hl hm hrest).2
    exact ⟨m, ⟨hfirst, by omega⟩, ih hl hm hrest (by omega)⟩

/-- The steps for the classes do not depend on each other. -/
theorem independent (hdistinct : Distinct c ds) :
    Independent ds (fun d => R (Owns (familyNames c) ds d) (Owns nodeIds ds d)) (Tidy setting f) where
  symm := h.symm
  trans := h.trans
  respects := by
    rintro d hd s s' t hs ⟨hrun, hfresh⟩
    obtain ⟨t', hrun', ht⟩ := h.respects hd (fun _ => owns_of_nodup hdistinct.names hd)
      (fun _ => owns_of_nodup hdistinct.ids hd) hs hrun
    refine ⟨t', ⟨hrun', ?_⟩, ht⟩
    rw [← h.fresh ht, ← h.fresh hs, hfresh]
  leaves := by
    rintro d e hd he hne s t hs hs' ⟨hrun, hfresh⟩
    exact h.leaves hd (fun _ hb hown => hown d hd hne hb) (fun _ hid hown => hown d hd hne hid) hs' hrun
      hfresh

/-- A phase may take the classes in any order. -/
theorem perm (hdistinct : Distinct c ds) {ds' : List Decl} (hperm : ds.Perm ds') {d : Decl}
    (hd : d ∈ ds) (hs : ∀ d ∈ ds, R (Owns (familyNames c) ds d) (Owns nodeIds ds d) s s')
    (hrun : exec (ds.forM f setting) s = (.ok (), t)) (hfresh : t.table.fresh ≤ s.table.fresh) :
    ∃ t', exec (ds'.forM f setting) s' = (.ok (), t') ∧
      ∀ d ∈ ds, R (Owns (familyNames c) ds d) (Owns nodeIds ds d) t t' := by
  have hrun := h.run_of_forM (fun _ => id) (h.whole (hs d hd)) hrun hfresh
  obtain ⟨t', hrun', ht⟩ := (h.independent hdistinct).run_perm hperm (fun _ => id) hs hrun
  exact ⟨t', forM_of_run hrun', ht⟩

end Phase

/-! ## What other classes see -/

/-- The types of nodes that a step does not record are left. -/
theorem Footprint.Typings.lookup {F : Footprint} {T T' : Analysis.Typings} (h : F.Typings T T')
    {id : NodeId} (hid : ¬ F.marks id) : T.lookup id = T'.lookup id := by
  obtain ⟨new, rfl, hmarks⟩ := h
  refine (lookup_append_of_ne fun p hp heq => hid ?_).symm
  rw [← heq]
  exact hmarks p hp

variable {own own' : String → Prop} {I I' : NodeId → Prop}

/-- A step that leaves the scopes leaves all that other classes see but the classes, the catalog and
the nodes. -/
theorem State.Parallel.of_has {m : Check α} {a : α} (hm : Has .ofExpr m)
    (hrun : exec (m setting) s = (.ok a, t)) (hs : s.Parallel own I s) (ht : t.Parallel own' I' t)
    (hfresh : t.table.fresh = s.table.fresh)
    (hdeclared : ∀ name, own name → s.declared.get? name = t.declared.get? name)
    (hcatalog : s.catalog.Same t.catalog)
    (htypings : ∀ id, I id → s.typings.lookup id = t.typings.lookup id)
    (htypeNames : ∀ id, I id → s.typeNames.contains id = t.typeNames.contains id) :
    s.Parallel own I t := by
  have hat := (hm.run setting s).2 a (by rw [hrun])
  rw [hrun] at hat
  obtain ⟨values, hframes, hnone⟩ := hat.frames
  obtain ⟨-, top, kept, hscopes, htop, -, hbare⟩ := hat.table hs.table.reachable
  obtain rfl := List.length_eq_zero_iff.mp htop
  rw [List.nil_append] at hscopes
  have hplain := map_plain_of_bare (hbare rfl)
  rw [hnone rfl] at hframes
  exact
    { declared := hdeclared
      distinct := hs.distinct
      distinct' := ht.distinct
      catalog := hcatalog
      table := ⟨hscopes ▸ hplain, hfresh.symm, hs.table.accepts, ht.table.accepts, hs.table.reachable,
        ht.table.reachable⟩
      frames := hframes.symm
      typings := htypings
      typeNames := htypeNames }

/-! ## Headers -/

/-- The state before a header is declared: nothing is remembered that could turn out wrong, and the
names `N` are bound. -/
structure State.Ready (c : Catalog) (N : String → Prop) (s : State) : Prop where
  /-- The catalogs differ at most in what they remember. -/
  catalog : c.Same s.catalog
  /-- What the catalog remembers is right whatever is declared. -/
  faithful : ∀ env, s.catalog.Faithful env
  /-- The names are bound. -/
  bound : ∀ name, N name → BindsType s.table.scopes name

/-- The states before headers are declared look alike. -/
def HeadersAlike (c : Catalog) (N own : String → Prop) (I : NodeId → Prop) (s s' : State) : Prop :=
  s.Parallel own I s' ∧ s.Ready c N ∧ s'.Ready c N

section

variable {N : String → Prop} {d : Decl}

theorem State.Ready.headed {names : List String} (h : s.Ready c N) (hreach : s.table.Reachable)
    (hrun : exec (declareTopLevel d setting) s = (.ok (), t)) (hheaded : s.Headed names t) :
    t.Ready c N where
  catalog := hheaded.catalog ▸ h.catalog
  faithful := hheaded.catalog ▸ h.faithful
  bound name hname :=
    bindsType_of_has (has_declareClass _ d .topLevel none) hrun hreach (h.bound name hname)

/-- What declaring the header of a class does to two states that look alike. -/
theorem declareTopLevel_ok (hheaders : SimpleHeaders N d) (hs : s.Parallel own I s')
    (hready : s.Ready c N) (hown : ∀ b ∈ familyNames c d, own b)
    (hrun : exec (declareTopLevel d setting) s = (.ok (), t)) :
    ∃ t', exec (declareTopLevel d setting) s' = (.ok (), t') ∧ t.Parallel own I t' ∧
      s.Headed (familyNames c d) t := by
  rw [familyNames_same hready.catalog] at hown ⊢
  exact (sideBySide_declareClass hs _ d .topLevel none hheaders hready.bound hown).of_ok hrun

/-- Headers may be declared in any order if they name types only by bound names. -/
theorem phase_headers (hheaders : ∀ d ∈ ds, SimpleHeaders N d) :
    Phase setting c ds declareTopLevel (HeadersAlike c N) where
  symm := fun ⟨hs, hready, hready'⟩ => ⟨hs.symm, hready', hready⟩
  trans := fun ⟨hs, hready, _⟩ ⟨hs', _, hready'⟩ => ⟨hs.trans hs', hready, hready'⟩
  whole := fun ⟨hs, hready, _⟩ => ⟨hs.whole, hready, hready⟩
  fresh := fun ⟨hs, _, _⟩ => hs.table.fresh
  grows := by
    rintro d own I s t hd ⟨hs, hready, -⟩ hrun
    obtain ⟨-, -, -, hheaded⟩ := declareTopLevel_ok (hheaders d hd) hs.whole hready (fun _ _ => trivial) hrun
    exact hheaded.fresh
  respects := by
    rintro d own I s s' t hd hown - ⟨hs, hready, hready'⟩ hrun
    obtain ⟨t', hrun', ht, hheaded⟩ := declareTopLevel_ok (hheaders d hd) hs hready hown hrun
    obtain ⟨-, -, -, hheaded'⟩ := declareTopLevel_ok (hheaders d hd) hs.symm hready' hown hrun'
    exact ⟨t', hrun', ht, hready.headed hs.table.reachable hrun hheaded,
      hready'.headed hs.table.reachable' hrun' hheaded'⟩
  leaves := by
    rintro d own I s t hd hown hI ⟨hs, hready, -⟩ hrun hfresh
    obtain ⟨t', hrun', ht, hheaded⟩ :=
      declareTopLevel_ok (hheaders d hd) hs.whole hready (fun _ _ => trivial) hrun
    refine ⟨.of_has (has_declareClass _ d .topLevel none) hrun hs ht.whole hfresh ?_ ?_ ?_ ?_, hready,
      hready.headed hs.table.reachable hrun hheaded⟩
    · exact fun name hname => (hheaded.declared name fun hmem => hown name hmem hname).symm
    · exact hheaded.catalog ▸ .refl _
    · intro id hid
      have hrecorded : Has (resolving (declaredIds d)) (declareTopLevel d) :=
        goes_declareTopLevel d (declaredIds_allows d)
      have htypings := hrecorded.typings setting s
      rw [hrun] at htypings
      refine htypings.lookup ?_
      rintro ⟨n, hn, -, rfl⟩
      exact hI _ (List.mem_map_of_mem hn) hid
    · exact fun id _ => by rw [hheaded.typeNames]

end

/-! ## Members -/

/-- The headers of the classes are declared. -/
structure State.Declared (c : Catalog) (ds : List Decl) (s : State) : Prop where
  /-- The catalogs differ at most in what they remember. -/
  catalog : c.Same s.catalog
  /-- No class is missing. -/
  present : ∀ d ∈ ds, ∀ b ∈ familyNames c d, (s.declared.get? b).isSome

/-- The states before members are declared look alike. -/
def MembersAlike (outside : ClassEnv) (c : Catalog) (ds : List Decl) (own : String → Prop)
    (I : NodeId → Prop) (s s' : State) : Prop :=
  s.Agree outside own I s' ∧ s.Declared c ds ∧ s'.Declared c ds

theorem State.Declared.filled {names : List String} (h : s.Declared c ds)
    (hfilled : s.Filled setting.classes names t) : t.Declared c ds :=
  ⟨h.catalog.trans hfilled.catalog, fun d hd b hb => hfilled.present b (h.present d hd b hb)⟩

/-- What giving a class its members does to two states that agree. -/
theorem declareMembers_ok {d : Decl} (hd : d ∈ ds) (hs : s.Agree setting.classes own I s')
    (hdeclared : s.Declared c ds) (hown : ∀ b ∈ familyNames c d, own b) {height : Nat}
    (hrun : exec (declareMembers height d setting) s = (.ok (), t)) :
    ∃ t', exec (declareMembers height d setting) s' = (.ok (), t') ∧
      t.Agree setting.classes own I t' ∧ s.Filled setting.classes (familyNames c d) t := by
  have hpresent := hdeclared.present d hd
  rw [familyNames_same hdeclared.catalog] at hown hpresent ⊢
  exact (sideBySide_declareMembers _ d hs fun b hb => ⟨hown b hb, hpresent b hb⟩).of_ok hrun

/-- Classes may be given their members in any order. -/
theorem phase_members : Phase setting c ds (fun d => declareMembers (Node.decl d).height d)
    (MembersAlike setting.classes c ds) where
  symm := fun ⟨hs, hdeclared, hdeclared'⟩ => ⟨hs.symm, hdeclared', hdeclared⟩
  trans := fun ⟨hs, hdeclared, _⟩ ⟨hs', _, hdeclared'⟩ => ⟨hs.trans hs', hdeclared, hdeclared'⟩
  whole := fun ⟨hs, hdeclared, _⟩ => ⟨hs.whole, hdeclared, hdeclared⟩
  fresh := fun ⟨hs, _, _⟩ => hs.table.fresh
  grows := by
    rintro d own I s t hd ⟨hs, hdeclared, -⟩ hrun
    obtain ⟨-, -, -, hfilled⟩ := declareMembers_ok hd hs.whole hdeclared (fun _ _ => trivial) hrun
    exact hfilled.fresh
  respects := by
    rintro d own I s s' t hd hown - ⟨hs, hdeclared, hdeclared'⟩ hrun
    obtain ⟨t', hrun', ht, hfilled⟩ := declareMembers_ok hd hs hdeclared hown hrun
    obtain ⟨-, -, -, hfilled'⟩ := declareMembers_ok hd hs.symm hdeclared' hown hrun'
    exact ⟨t', hrun', ht, hdeclared.filled hfilled, hdeclared'.filled hfilled'⟩
  leaves := by
    rintro d own I s t hd hown hI ⟨hs, hdeclared, -⟩ hrun hfresh
    obtain ⟨t', hrun', ht, hfilled⟩ :=
      declareMembers_ok hd hs.whole hdeclared (fun _ _ => trivial) hrun
    have hhas : Has .ofExpr (declareMembers (Node.decl d).height d) :=
      goes_declareMembers _ d (Footprint.MarksAll.allows (fun _ => trivial) _)
    refine ⟨⟨.of_has hhas hrun hs.toParallel ht.whole.toParallel hfresh ?_ hfilled.catalog ?_ ?_,
      hfilled.headers.symm, hs.faithful, ht.faithful⟩, hdeclared, hdeclared.filled hfilled⟩
    · exact fun name hname => (hfilled.declared name fun hmem => hown name hmem hname).symm
    · intro id hid
      have hrecorded : Has (resolving (declaredIds d)) (declareMembers (Node.decl d).height d) :=
        goes_declareMembers _ d (declaredIds_allows d)
      have htypings := hrecorded.typings setting s
      rw [hrun] at htypings
      refine htypings.lookup ?_
      rintro ⟨n, hn, -, rfl⟩
      exact hI _ (List.mem_map_of_mem hn) hid
    · exact fun id _ => (hfilled.typeNames id).symm

/-! ## Bodies -/

section

variable {u : SourceUnit} (hbodies : u.bodyClasses = []) {d : Decl} (hd : d ∈ u.types) {height : Nat}

include hbodies hd

/-- What checking the bodies of a class does to two states that agree. -/
theorem checkDecl_ok (hI : ∀ id ∈ nodeIds d, I id)
    (hs : s.Agree setting.classes (fun _ => True) I s')
    (hrun : exec ((Checker.upTo height).decl d setting) s = (.ok (), t)) :
    ∃ t', exec ((Checker.upTo height).decl d setting) s' = (.ok (), t') ∧
      t.Agree setting.classes (fun _ => True) I t' ∧
        s.Stays (· ∈ nodeIds d) t := by
  have hnodes : ∀ n ∈ ({ u with types := [d] } : SourceUnit).nodes, n.id ∈ nodeIds d := by
    intro n hn
    obtain ⟨e, he, hn⟩ := SourceUnit.mem_nodes_iff.mp hn
    rw [← List.mem_singleton.mp he]
    exact List.mem_map_of_mem hn
  have halone : ({ u with types := [d] } : SourceUnit).bodyClasses = [] := by
    have hnone := List.flatMap_eq_nil_iff.mp hbodies d hd
    exact List.flatMap_eq_nil_iff.mpr fun e he => by rwa [List.mem_singleton.mp he]
  have hsteps : Compositional { u with types := [d] }
      (Steady setting (fun _ => True) I (· ∈ nodeIds d)) :=
    Steady.compositional halone (fun n hn => hI _ (hnodes n hn)) hnodes
  have hmem : Node.decl d ∈ ({ u with types := [d] } : SourceUnit).nodes :=
    SourceUnit.mem_nodes_iff.mpr ⟨d, List.mem_singleton_self d, Node.self_mem_subtree _⟩
  exact (((hsteps.upTo height).decl d hmem).sideBySide hs).of_ok hrun

end

/-- The bodies of classes may be checked in any order. -/
theorem phase_bodies {u : SourceUnit} (hbodies : u.bodyClasses = [])
    (hids : ∀ d ∈ u.types, (nodeIds d).Nodup) (height : Nat) :
    Phase setting c u.types (Checker.upTo height).decl fun _ I s s' =>
      s.Agree setting.classes (fun _ => True) I s' where
  symm hs := hs.symm
  trans hs hs' := hs.trans hs'
  whole hs := hs.whole
  fresh hs := hs.table.fresh
  grows := by
    intro d _ I s t hd hs hrun
    obtain ⟨-, -, -, hstays⟩ := checkDecl_ok hbodies hd (fun _ _ => trivial) hs.whole hrun
    exact hstays.fresh
  respects := by
    intro d _ I s s' t hd _ hI hs hrun
    obtain ⟨t', hrun', ht, -⟩ := checkDecl_ok hbodies hd hI hs hrun
    exact ⟨t', hrun', ht⟩
  leaves := by
    intro d _ I s t hd _ hI hs hrun hfresh
    obtain ⟨t', -, ht, hstays⟩ := checkDecl_ok hbodies hd (fun _ _ => trivial) hs.whole hrun
    have hhas := (Checker.balanced_upTo height).decl d
    refine ⟨.of_has hhas hrun hs.toParallel ht.whole.toParallel hfresh ?_ hstays.catalog ?_ ?_, ?_,
      hs.faithful, ht.faithful⟩
    · exact fun name _ => by rw [hstays.declared]
    · intro i hi
      have hbelow : Stop.below [.node (.decl d)] = (Node.decl d).subtree := List.append_nil _
      have htour : Follows (.along (fun _ => False) (.through [.node (.decl d)]))
          ((Checker.upTo height).decl d) := by
        refine (Checker.touring_upTo height).decl _ d ⟨?_, fun _ _ => id⟩
        show ((Stop.below [.node (.decl d)]).map Node.id).Nodup
        rw [hbelow]
        exact hids d hd
      have htypings := htour.grows setting s trivial
      rw [hrun] at htypings
      refine htypings.lookup ?_
      rintro (hfalse | hmem)
      · exact hfalse
      · have hmem : i ∈ (Stop.below [.node (.decl d)]).map Node.id := hmem
        rw [hbelow] at hmem
        exact hI i hmem hi
    · exact fun id hid => (hstays.typeNames id fun hmem => hI id hmem hid).symm
    · rw [hstays.declared]

end JavaSema.Analysis
