import JavaSema.Proofs.Analysis.Order
import JavaSema.Proofs.Analysis.Phase
import JavaSema.Proofs.Catalog.Permuted

/-!
# Units with their classes in another order

The three phases of an analysis put together.

There are four groups.

* Opening the scope of a unit, which binds the types that the unit declares or imports.
* Declaring the classes: headers and members.
* Checking the bodies.
* Analyses: where headers name types by simple names, the order of the classes does not matter.
-/

namespace JavaSema

open Source

/-- The unit declares or imports a type of that simple name. -/
def Catalog.IsVisible (c : Catalog) (name : String) : Prop :=
  (c.declared.lookup name).isSome ∨ (c.single.lookup name).isSome

namespace Analysis

variable {setting : Setting} {u : SourceUnit} {types : List Decl} {s s' t t' : State}

/-! ## The scope of a unit -/

/-- Binds the types of a unit in a scope of their own. -/
def bindTypes (c : Catalog) : TableM Unit := do
  SymbolTable.pushScope .block none
  c.populate

/-- Opens the scope of a unit. -/
def openUnit (u : SourceUnit) : Check Unit := do
  inTableFor u.packageName.toDotted (SymbolTable.pushScope .block none)
  inTableFor u.packageName.toDotted (← get).catalog.populate

theorem run_openUnit (u : SourceUnit) (setting : Setting) (s : State) :
    exec (openUnit u setting) s
      = ((exec (bindTypes s.catalog) s.table).1.mapError fun cause => ⟨u.packageName.toDotted, cause⟩,
        { s with table := (exec (bindTypes s.catalog) s.table).2 }) := by
  rw [openUnit, run_bind_ok (run_inTableFor _ (SymbolTable.pushScope .block none) setting s)]
  exact run_inTableFor _ s.catalog.populate setting _

theorem populate_eq (c : Catalog) : c.populate =
    (c.declared.sorted ++ NameMap.sorted (c.single.filter fun (simple, _) =>
      (c.declared.lookup simple).isNone)).forM fun p =>
        bindSymbol { name := p.1, kind := .type, type := .ofClass p.2 } :=
  rfl

theorem uniform_bindTypes (c : Catalog) : SymbolTable.Uniform id (bindTypes c) := by
  refine .bind (SymbolTable.uniform_pushScope _ _) (fun _ _ _ => rfl) fun _ => ?_
  rw [populate_eq]
  exact .forM _ fun _ => .bindSymbol _

/-- The types of a unit are bound in its scope. -/
theorem bindsType_of_bindTypes {c : Catalog} {t t' : SymbolTable} {a : Unit} (ht : t.Agree t)
    (h : exec (bindTypes c) t = (.ok a, t')) {name : String} (hname : c.IsVisible name) :
    BindsType t'.scopes name := by
  obtain ⟨_, u, hpush, hpopulate⟩ := ok_of_exec_bind h
  have hu := (SymbolTable.uniform_pushScope .block none).agree t t ht
  rw [hpush] at hu
  rw [populate_eq] at hpopulate
  have hbound := bindsType_of_bindEach _ (fun _ => .inr rfl) hu.2 hpopulate
  have hentry : ∀ {m : NameMap String}, (m.lookup name).isSome → ∃ b, (name, b) ∈ m := by
    intro m hsome
    obtain ⟨b, hb⟩ := Option.isSome_iff_exists.mp hsome
    exact ⟨b, mem_of_lookup hb⟩
  cases hdeclared : c.declared.lookup name with
  | some b =>
    obtain ⟨b, hb⟩ := hentry (Option.isSome_iff_exists.mpr ⟨b, hdeclared⟩)
    exact hbound (name, b) (List.mem_append_left _ (List.mem_mergeSort.mpr hb))
  | none =>
    obtain ⟨b, hb⟩ := hentry (hname.resolve_left (by simp [hdeclared]))
    refine hbound (name, b) (List.mem_append_right _ (List.mem_mergeSort.mpr ?_))
    exact List.mem_filter.mpr ⟨hb, by simp [hdeclared]⟩

/-- Where two catalogs name the same types, the scope of a unit is opened alike. -/
theorem openUnit_ok (types : List Decl) (hcatalog : s.catalog.Same s'.catalog)
    (htable : s'.table = s.table) (hagree : s.table.Agree s.table) (hrun : exec (openUnit u setting) s = (.ok (), t)) :
    ∃ table, t = { s with table } ∧
      exec (openUnit { u with types } setting) s' = (.ok (), { s' with table }) ∧
      table.Agree table ∧ s.table.fresh ≤ table.fresh ∧
      ∀ name, s.catalog.IsVisible name → BindsType table.scopes name := by
  have hbind : bindTypes s.catalog = bindTypes s'.catalog := by
    rw [bindTypes, bindTypes, hcatalog.populate]
  have hright := run_openUnit { u with types } setting s'
  rw [run_openUnit, Prod.mk.injEq] at hrun
  obtain ⟨hok, rfl⟩ := hrun
  rw [htable, ← hbind] at hright
  have huniform := (uniform_bindTypes s.catalog).agree _ _ hagree
  have hfresh := (uniform_bindTypes s.catalog).fresh _ hagree
  rcases hexec : exec (bindTypes s.catalog) s.table with ⟨e | a, table⟩
  · rw [hexec] at hok
    cases hok
  · rw [hexec] at hright huniform hfresh
    exact ⟨table, rfl, hright, huniform.2, hfresh,
      fun _ hname => bindsType_of_bindTypes hagree hexec hname⟩

/-! ## Declaring -/

/-- Declares the classes of a unit that are not inside of bodies, with the bindings that there are. -/
def declareTypes (u : SourceUnit) : Check Unit := do
  openUnit u
  u.types.forM declareTopLevel
  u.types.forM fun d => declareMembers (Node.decl d).height d

/-- The classes of a unit are declared with a table of their own. -/
theorem run_declareUnit (u : SourceUnit) (setting : Setting) (s : State) :
    exec (declareUnit u setting) s
      = ((exec (declareTypes u setting) { s with table := {} }).1,
        { (exec (declareTypes u setting) { s with table := {} }).2 with table := s.table }) := by
  have hparts : declareUnit u = (do
      let saved := (← get).table
      modify fun s => { s with table := {} }
      let result ← attempt (declareTypes u)
      modify fun s => { s with table := saved }
      settle result) := by
    simp only [declareUnit, declareTypes, openUnit, bind_assoc]
  rw [hparts]
  show exec (settle (exec (declareTypes u setting) { s with table := {} }).1 setting) _ = _
  rw [exec_settle]
  rfl

/-- Headers that were declared are there. -/
theorem present_of_headers {c : Catalog} (hcatalog : c.Same s.catalog) {ds : List Decl}
    (hrun : exec (ds.forM declareTopLevel setting) s = (.ok (), t)) :
    ∀ d ∈ ds, ∀ b ∈ familyNames c d, (t.declared.get? b).isSome := by
  intro d hd b hb
  rw [familyNames_same hcatalog] at hb
  have hdeclares := Declares.forM (M := s.model) (g := familyNames s.model.catalog) ds
    (fun d _ names => declares_declareTopLevel (M := s.model.declare names) d) []
  obtain ⟨-, hmodel⟩ := hdeclares hrun rfl
  have hmem : b ∈ t.model.declared := by
    rw [hmodel]
    exact mem_foldl_insertName.mpr (.inr (List.mem_flatMap.mpr ⟨d, hd, hb⟩))
  obtain ⟨c, hc, rfl⟩ := List.mem_map.mp hmem
  exact List.find?_isSome.mpr ⟨c, hc, beq_self_eq_true _⟩

/-- Declaring headers and then members takes back no name of a placeholder. -/
theorem grows_declared {c : Catalog} {ds : List Decl} {N own : String → Prop} {I : NodeId → Prop}
    {headed : State} (hheaders : ∀ d ∈ ds, SimpleHeaders N d) (hs : HeadersAlike c N own I s s')
    (hheads : exec (ds.forM declareTopLevel setting) s = (.ok (), headed))
    (hmembers : exec (ds.forM (fun d => declareMembers (Node.decl d).height d) setting) headed
      = (.ok (), t)) :
    s.table.fresh ≤ headed.table.fresh ∧ headed.table.fresh ≤ t.table.fresh := by
  have hphase : Phase setting c ds declareTopLevel (HeadersAlike c N) := phase_headers hheaders
  obtain ⟨⟨hheaded, hready, -⟩, hfresh⟩ := hphase.grows_forM (fun _ => id) (hphase.whole hs) hheads
  have hdeclared : headed.Declared c ds := ⟨hready.catalog, present_of_headers hs.2.1.catalog hheads⟩
  have hagree : headed.Agree setting.classes (fun _ => True) (fun _ => True) headed :=
    ⟨hheaded, rfl, hready.faithful _, hready.faithful _⟩
  have hmore := phase_members.grows_forM (fun _ => id) ⟨hagree, hdeclared, hdeclared⟩ hmembers
  exact ⟨hfresh, hmore.2⟩

section

variable {c : Catalog} {ds ds' : List Decl} (hdistinct : Distinct c ds) (hperm : ds.Perm ds')
  {d : Decl} (hd : d ∈ ds)

include hdistinct hd

/-- States that are the same for each class declare the same classes. -/
theorem get?_of_parallel
    (hs : ∀ d ∈ ds, s.Parallel (Owns (familyNames c) ds d) (Owns nodeIds ds d) s') (name : String) :
    s.declared.get? name = s'.declared.get? name := by
  obtain ⟨e, he, hname⟩ := exists_owns hdistinct.names hd name
  exact (hs e he).declared name hname

include hperm

/-- The headers of classes are declared in another order. -/
theorem headers_perm {N : String → Prop} (hheaders : ∀ d ∈ ds, SimpleHeaders N d)
    (hs : ∀ d ∈ ds, HeadersAlike c N (Owns (familyNames c) ds d) (Owns nodeIds ds d) s s')
    (hrun : exec (ds.forM declareTopLevel setting) s = (.ok (), t))
    (hfresh : t.table.fresh ≤ s.table.fresh) :
    ∃ t', exec (ds'.forM declareTopLevel setting) s' = (.ok (), t') ∧ ∀ d ∈ ds,
      MembersAlike setting.classes c ds (Owns (familyNames c) ds d) (Owns nodeIds ds d) t t' := by
  obtain ⟨t', hrun', ht⟩ := (phase_headers hheaders).perm hdistinct hperm hd hs hrun hfresh
  obtain ⟨-, hready, hready'⟩ := hs d hd
  refine ⟨t', hrun', fun e he => ⟨?_, ⟨?_, ?_⟩, ⟨?_, ?_⟩⟩⟩
  · obtain ⟨hparallel, hready, hready'⟩ := ht e he
    exact .of_get? hparallel (get?_of_parallel hdistinct hd fun d hd => (ht d hd).1)
      (hready.faithful _) (hready'.faithful _)
  · exact (ht e he).2.1.catalog
  · exact present_of_headers hready.catalog hrun
  · exact (ht e he).2.2.catalog
  · exact fun d hd => present_of_headers hready'.catalog hrun' d (hperm.mem_iff.mp hd)

/-- Classes are given their members in another order. -/
theorem members_perm
    (hs : ∀ d ∈ ds,
      MembersAlike setting.classes c ds (Owns (familyNames c) ds d) (Owns nodeIds ds d) s s')
    (hrun : exec (ds.forM (fun d => declareMembers (Node.decl d).height d) setting) s = (.ok (), t))
    (hfresh : t.table.fresh ≤ s.table.fresh) :
    ∃ t', exec (ds'.forM (fun d => declareMembers (Node.decl d).height d) setting) s' = (.ok (), t') ∧
      ∀ d ∈ ds, t.Agree setting.classes (fun _ => True) (Owns nodeIds ds d) t' := by
  obtain ⟨t', hrun', ht⟩ := phase_members.perm hdistinct hperm hd hs hrun hfresh
  refine ⟨t', hrun', fun e he => ?_⟩
  obtain ⟨hagree, -, -⟩ := ht e he
  have hget := get?_of_parallel hdistinct hd fun d hd => (ht d hd).1.toParallel
  exact .of_get? hagree.toParallel hget hagree.faithful hagree.faithful'

end

/-- Classes that are distinct may be declared in any order if their headers name visible types. -/
theorem declareTypes_perm (hperm : u.types.Perm types) {d : Decl} (hd : d ∈ u.types)
    (hdistinct : Distinct s.catalog u.types)
    (hheaders : ∀ d ∈ u.types, SimpleHeaders s.catalog.IsVisible d)
    (hs : ∀ d ∈ u.types,
      s.Parallel (Owns (familyNames s.catalog) u.types d) (Owns nodeIds u.types d) s')
    (htable : s'.table = s.table) (hfaithful : ∀ env, s.catalog.Faithful env)
    (hfaithful' : ∀ env, s'.catalog.Faithful env)
    (hrun : exec (declareTypes u setting) s = (.ok (), t)) (hfresh : t.table.fresh ≤ s.table.fresh) :
    ∃ t', exec (declareTypes { u with types } setting) s' = (.ok (), t') ∧
      ∀ d ∈ u.types, t.Agree setting.classes (fun _ => True) (Owns nodeIds u.types d) t' := by
  have hcatalog := (hs d hd).catalog
  obtain ⟨_, opened, hopen, hrun⟩ := ok_of_run_bind hrun
  obtain ⟨table, rfl, hopen', hagree, hfresh₁, hbound⟩ :=
    openUnit_ok types hcatalog htable (hs d hd).whole.table hopen
  have hopened : ∀ d ∈ u.types, HeadersAlike s.catalog s.catalog.IsVisible
      (Owns (familyNames s.catalog) u.types d) (Owns nodeIds u.types d)
        { s with table } { s' with table } := fun d hd =>
    ⟨(hs d hd).withTable hagree, ⟨.refl _, hfaithful, hbound⟩, hcatalog, hfaithful', hbound⟩
  obtain ⟨_, headed, hheads, hmembers⟩ := ok_of_run_bind hrun
  obtain ⟨hfresh₂, hfresh₃⟩ := grows_declared hheaders (hopened d hd) hheads hmembers
  dsimp only at hfresh₂
  have hfresh₄ : headed.table.fresh ≤ table.fresh := by omega
  have hfresh₅ : t.table.fresh ≤ headed.table.fresh := by omega
  obtain ⟨headed', hheads', hheaded⟩ :=
    headers_perm hdistinct hperm hd hheaders hopened hheads hfresh₄
  obtain ⟨t', hmembers', ht⟩ := members_perm hdistinct hperm hd hheaded hmembers hfresh₅
  refine ⟨t', ?_, ht⟩
  rw [declareTypes, run_bind_ok hopen', run_bind_ok hheads']
  exact hmembers'

/-! ## Checking -/

/-- Checks the bodies of the classes of a unit, with the bindings that there are. -/
def checkTypes (u : SourceUnit) : Check Unit := do
  openUnit u
  u.types.forM (Checker.upTo u.height).decl
  discard (inTableFor u.packageName.toDotted SymbolTable.popScope)

/-- The table with which bodies are checked. -/
def bodyTable (setting : Setting) : SymbolTable :=
  { observer := setting.observers.ofUnit, rejects := setting.observers.rejects }

/-- The bodies of the classes of a unit are checked with a table of their own. -/
theorem run_checkUnit (u : SourceUnit) (setting : Setting) (s : State) :
    exec (checkUnit u setting) s
      = exec (checkTypes u setting) { s with table := bodyTable setting } := by
  rw [checkTypes, openUnit, bind_assoc]
  rfl

/-- Bodies without classes in them may be checked in any order. -/
theorem checkTypes_perm (hperm : u.types.Perm types) {d : Decl} (hd : d ∈ u.types)
    (hdistinct : Distinct s.catalog u.types) (hbodies : u.bodyClasses = [])
    (hs : ∀ d ∈ u.types, s.Agree setting.classes (fun _ => True) (Owns nodeIds u.types d) s')
    (htable : s'.table = s.table) (hrun : exec (checkTypes u setting) s = (.ok (), t))
    (hfresh : t.table.fresh ≤ s.table.fresh) :
    ∃ t', exec (checkTypes { u with types } setting) s' = (.ok (), t') ∧
      ∀ id, t.typings.lookup id = t'.typings.lookup id := by
  have hcatalog := (hs d hd).catalog
  obtain ⟨_, opened, hopen, hrun⟩ := ok_of_run_bind hrun
  obtain ⟨table, rfl, hopen', hagree, hfresh₁, -⟩ :=
    openUnit_ok types hcatalog htable (hs d hd).whole.table hopen
  have hopened := fun d hd => (hs d hd).withTable hagree
  obtain ⟨_, checked, hcheck, hclose⟩ := ok_of_run_bind hrun
  have hids : ∀ d ∈ u.types, (nodeIds d).Nodup := (List.nodup_flatMap.mp hdistinct.ids).1
  have hphase : Phase setting s.catalog u.types (Checker.upTo u.height).decl fun _ I v v' =>
      v.Agree setting.classes (fun _ => True) I v' := phase_bodies hbodies hids u.height
  have hpop : ∀ I, Steady setting (fun _ => True) I (fun _ => False)
      (discard (inTableFor u.packageName.toDotted SymbolTable.popScope)) :=
    fun _ => Steady.resolving.discardInTableFor SymbolTable.uniform_popScope .popScope _
  obtain ⟨hself, -⟩ := hphase.grows_forM (fun _ => id) (hopened d hd).whole hcheck
  have hfresh₂ := ((hpop _).stays checked hself).fresh
  rw [hclose] at hfresh₂
  have hfresh₃ : checked.table.fresh ≤ table.fresh :=
    Nat.le_trans hfresh₂ (Nat.le_trans hfresh hfresh₁)
  obtain ⟨checked', hcheck', hchecked⟩ := hphase.perm hdistinct hperm hd hopened hcheck hfresh₃
  obtain ⟨t', hclose', -⟩ := ((hpop _).sideBySide (hchecked d hd)).of_ok hclose
  refine ⟨t', ?_, fun id => ?_⟩
  · rw [checkTypes, run_bind_ok hopen', ← SourceUnit.height_perm hperm, run_bind_ok hcheck']
    exact hclose'
  · obtain ⟨e, he, hid⟩ := exists_owns hdistinct.ids hd id
    obtain ⟨t'', hclose'', ht, -⟩ := ((hpop _).sideBySide (hchecked e he)).of_ok hclose
    rw [hclose'] at hclose''
    cases hclose''
    exact ht.typings id hid

/-! ## Units -/

/-- The steps of an analysis. -/
def steps (u : SourceUnit) : Check Unit := do
  declareUnit u
  checkUnit u

theorem analyze_of_run (h : exec (steps u setting) (start setting u []) = (.ok (), s)) :
    analyze setting u = (.ok (summarize u s), s) := by
  have hrun : analyze setting u
      = ((exec (steps u setting) (start setting u [])).1.map fun _ =>
          summarize u (exec (steps u setting) (start setting u [])).2,
        (exec (steps u setting) (start setting u [])).2) := rfl
  rw [hrun, h]
  rfl

theorem run_of_analyze_ok (h : (analyze setting u).1.toOption.isSome = true) :
    exec (steps u setting) (start setting u []) = (.ok (), (analyze setting u).2) := by
  have hresult : (analyze setting u).1
      = (exec (steps u setting) (start setting u [])).1.map fun _ =>
          summarize u (analyze setting u).2 := rfl
  rw [hresult] at h
  have hstate : (exec (steps u setting) (start setting u [])).2 = (analyze setting u).2 := rfl
  rcases hrun : exec (steps u setting) (start setting u []) with ⟨e | a, s⟩
  · rw [hrun] at h
    cases h
  · rw [← hstate, hrun]

/-- An analysis declares the classes of a unit and then checks their bodies, each with a table that has
no scopes yet. -/
theorem run_steps_iff : exec (steps u setting) (start setting u []) = (.ok (), t) ↔
    ∃ headed, exec (declareTypes u setting) (start setting u []) = (.ok (), headed) ∧
      exec (checkTypes u setting) { headed with table := bodyTable setting } = (.ok (), t) := by
  have hdeclare : ∀ s : State, s.table = {} → exec (declareUnit u setting) s
      = ((exec (declareTypes u setting) s).1,
        { (exec (declareTypes u setting) s).2 with table := s.table }) := by
    rintro ⟨⟩ rfl
    exact run_declareUnit u setting _
  have hdeclare := hdeclare (start setting u []) rfl
  rcases hrun : exec (declareTypes u setting) (start setting u []) with ⟨e | a, headed⟩
  · rw [hrun] at hdeclare
    rw [steps, run_bind_error hdeclare]
    constructor
    · intro h
      cases h
    · rintro ⟨_, h, -⟩
      cases h
  · rw [hrun] at hdeclare
    rw [steps, run_bind_ok hdeclare, run_checkUnit]
    constructor
    · exact fun h => ⟨headed, rfl, h⟩
    · rintro ⟨_, h, hcheck⟩
      cases h
      exact hcheck

/-- Declaring the classes of a unit leaves their names. -/
theorem Distinct.headed (h : Distinct s.catalog u.types)
    (hrun : exec (declareTypes u setting) { s with table := {} } = (.ok (), t)) :
    Distinct t.catalog u.types := by
  have hdeclare := run_declareUnit u setting s
  rw [hrun] at hdeclare
  obtain ⟨-, hmodel⟩ := declares_declareUnit u hdeclare rfl
  have hnames : familyNames t.catalog = familyNames s.catalog := by
    show familyNames t.model.catalog = _
    rw [show t.model = _ from hmodel]
    rfl
  refine ⟨?_, h.ids⟩
  rw [hnames]
  exact h.names

/-- A table without scopes is like itself, if nobody rejects reports. -/
theorem agree_empty (observer : Option String) {rejects : Judge}
    (h : ∀ log, rejects log = false) :
    ({ observer, rejects } : SymbolTable).Agree { observer, rejects } :=
  ⟨rfl, rfl, h, h, .empty _ _, .empty _ _⟩

theorem start_parallel (setting : Setting) (hperm : u.types.Perm types)
    (hids : (u.nodes.map Node.id).Nodup)
    (hnames : ((u.types.flatMap Decl.family).map Decl.name).Nodup) (own : String → Prop)
    (I : NodeId → Prop) :
    (start setting u []).Parallel own I (start setting { u with types } []) where
  declared _ _ := rfl
  distinct := List.nodup_nil
  distinct' := List.nodup_nil
  catalog := Catalog.ofUnit_perm _ _ hperm hids hnames
  table := agree_empty none fun _ => rfl
  frames := rfl
  typings _ _ := rfl
  typeNames _ _ := rfl

/-- The unit declares its classes under names of their own, without classes in bodies, and the types in
their headers are given by the simple names of types that it declares or imports. -/
structure Orderless (setting : Setting) (u : SourceUnit) : Prop where
  /-- No number is used for two nodes. -/
  ids : (u.nodes.map Node.id).Nodup
  /-- The simple names are distinct. -/
  names : ((u.types.flatMap Decl.family).map Decl.name).Nodup
  /-- The full names are distinct. -/
  binaryNames : (u.types.flatMap (familyNames (start setting u []).catalog)).Nodup
  /-- The headers. -/
  headers : ∀ d ∈ u.types, SimpleHeaders (start setting u []).catalog.IsVisible d
  /-- No class is local or anonymous. -/
  bodies : u.bodyClasses = []

/-- A unit that can be analyzed, without a symbol that takes the name of another in its scope, can be
analyzed with its classes in any other order, and every node gets the same type. -/
theorem analyzed_reordered {setting : Setting} (hquiet : ∀ log, setting.observers.rejects log = false)
    (h : Orderless setting u) (hperm : u.types.Perm types)
    (hok : (analyze setting u).1.toOption.isSome = true)
    (hdeclared : (exec (declareTypes u setting) (start setting u [])).2.table.fresh = 0)
    (hchecked : (analyze setting u).2.table.fresh = 0) :
    SameOutcome setting u { u with types } := by
  rcases htypes : u.types with _ | ⟨d, ds⟩
  · rw [htypes, List.nil_perm] at hperm
    have hsame : { u with types } = u := by rw [hperm, ← htypes]
    rw [hsame]
    exact ⟨rfl, fun _ _ => rfl⟩
  have hd : d ∈ u.types := htypes ▸ List.mem_cons_self
  have hnumbers : (u.types.flatMap nodeIds).Nodup := by
    have hids := h.ids
    rwa [SourceUnit.nodes, List.map_flatMap] at hids
  have hdistinct : Distinct (start setting u []).catalog u.types := ⟨h.binaryNames, hnumbers⟩
  obtain ⟨headed, hdeclare, hcheck⟩ := run_steps_iff.mp (run_of_analyze_ok hok)
  rw [hdeclare] at hdeclared
  obtain ⟨headed', hdeclare', hheaded⟩ := declareTypes_perm hperm hd hdistinct h.headers
    (fun d _ => start_parallel setting hperm h.ids h.names _ _) rfl
    (fun env => Catalog.faithful_ofUnit _ _ _ env) (fun env => Catalog.faithful_ofUnit _ _ _ env)
    hdeclare (Nat.le_of_eq hdeclared)
  have hempty : (bodyTable setting).Agree (bodyTable setting) := agree_empty _ hquiet
  have hopened := fun d hd => (hheaded d hd).withTable hempty
  have hdistinct' := hdistinct.headed hdeclare
  obtain ⟨t', hcheck', hsame⟩ :=
    checkTypes_perm (s := { headed with table := bodyTable setting }) hperm hd hdistinct' h.bodies
      hopened rfl hcheck (Nat.le_of_eq hchecked)
  have hanalyzed' := analyze_of_run (run_steps_iff.mpr ⟨headed', hdeclare', hcheck'⟩)
  rw [SameOutcome, hanalyzed', hok]
  exact ⟨rfl, fun _ => hsame⟩

/-- The classes `A extends B` and `B`. -/
def extendsSimple : SourceUnit :=
  unitOfP [plainClass 0 "A" (some ⟨1, .named ⟨["B"]⟩ none⟩), plainClass 2 "B" none]

/-- The class `A extends B` can be analyzed before `B` and after it. -/
theorem extendsSimple_reordered :
    (∀ log, noClasses.observers.rejects log = false) ∧ Orderless noClasses extendsSimple ∧
      extendsSimple.types.Perm extendsSimple.types.reverse ∧
      (analyze noClasses extendsSimple).1.toOption.isSome = true ∧
      (exec (declareTypes extendsSimple noClasses)
        (start noClasses extendsSimple [])).2.table.fresh = 0 ∧
      (analyze noClasses extendsSimple).2.table.fresh = 0 ∧
      SameOutcome noClasses extendsSimple
        { extendsSimple with types := extendsSimple.types.reverse } := by
  have hquiet : ∀ log, noClasses.observers.rejects log = false := fun _ => rfl
  have hheaders : ∀ d ∈ extendsSimple.types,
      SimpleHeaders (start noClasses extendsSimple []).catalog.IsVisible d := by
    intro d hd
    have hvisible : (start noClasses extendsSimple []).catalog.IsVisible "B" :=
      .inl (by decide +kernel)
    have hnames : (headerTypes d).flatMap namesIn ⊆ [⟨["B"]⟩] ∧ d.nestedTypes = [] := by
      rcases List.mem_pair.mp hd with rfl | rfl <;> decide +kernel
    refine .mk (fun t ht name hname => ?_) (fun e he => ?_)
    · obtain rfl := List.mem_singleton.mp (hnames.1 (List.mem_flatMap.mpr ⟨t, ht, hname⟩))
      exact ⟨"B", rfl, .inl hvisible⟩
    · rw [hnames.2] at he
      cases he
  have horderless : Orderless noClasses extendsSimple :=
    ⟨by decide +kernel, by decide +kernel, by decide +kernel, hheaders, by decide +kernel⟩
  have hperm : extendsSimple.types.Perm extendsSimple.types.reverse := (List.reverse_perm _).symm
  have hok : (analyze noClasses extendsSimple).1.toOption.isSome = true := by
    simp only [analyze, analyzeFrom, declareUnit, checkUnit, Catalog.populate,
      NameMap.sorted_eq_insertionSort]
    decide +kernel
  have hdeclared : (exec (declareTypes extendsSimple noClasses)
      (start noClasses extendsSimple [])).2.table.fresh = 0 := by
    simp only [declareTypes, openUnit, Catalog.populate, NameMap.sorted_eq_insertionSort]
    decide +kernel
  have hchecked : (analyze noClasses extendsSimple).2.table.fresh = 0 := by
    simp only [analyze, analyzeFrom, declareUnit, checkUnit, Catalog.populate,
      NameMap.sorted_eq_insertionSort]
    decide +kernel
  exact ⟨hquiet, horderless, hperm, hok, hdeclared, hchecked,
    analyzed_reordered hquiet horderless hperm hok hdeclared hchecked⟩

end Analysis

end JavaSema
